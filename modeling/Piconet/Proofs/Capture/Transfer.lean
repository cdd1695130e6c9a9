import Piconet.Proofs.ByteOrder
import Piconet.Radio.Receiver

/-!
# Records and transfers

Every 64 bytes spell a record, and only the two reserved bytes do not come back
from it.  A record comes back from its bytes unless it stands under an unknown
code that is in fact one of the known ones.  A transfer is read exactly when it
is a whole number of records, one after the other.
-/

namespace Piconet

/-! ## Kinds of records -/

namespace CaptureKind

/-- Whether a kind is the one that its code stands for. -/
def IsCoded : CaptureKind → Prop
  | unknown code => 6 < code
  | _ => True

instance : (kind : CaptureKind) → Decidable kind.IsCoded
  | unknown code => inferInstanceAs (Decidable (6 < code))
  | basicRate | lowEnergy | message | keepAlive | spectrum | lowEnergyPromiscuous | ego =>
      inferInstanceAs (Decidable True)

theorem ofCode_eq_unknown_iff (code : UInt8) : ofCode code = unknown code ↔ 6 < code := by
  unfold ofCode
  iterate 7
    split
    · rename_i known
      subst known
      exact iff_of_false nofun (by decide)
  · refine iff_of_true rfl (UInt8.lt_iff_toNat_lt.2 ?_)
    simp only [← UInt8.toNat_inj, UInt8.reduceToNat] at *
    omega

theorem ofCode_code_eq_iff (kind : CaptureKind) : ofCode kind.code = kind ↔ kind.IsCoded := by
  cases kind with
  | unknown code => exact ofCode_eq_unknown_iff code
  | _ => exact iff_of_true rfl trivial

end CaptureKind

namespace Capture

/-! ## One record -/

/-- A record with its reserved bytes set to zero. -/
def withoutReserved (bytes : List UInt8) : List UInt8 :=
  (bytes.set 12 0).set 13 0

theorem length_of_ofBytes? {bytes : List UInt8} {capture : Capture}
    (read : ofBytes? bytes = some capture) : bytes.length = recordLength := by
  unfold ofBytes? at read
  split at read
  · split at read
    · rename_i exact
      simp only [List.length_cons, exact, recordLength]
    · cases read
  · cases read

theorem exists_ofBytes? {bytes : List UInt8} (exact : bytes.length = recordLength) :
    ∃ capture, ofBytes? bytes = some capture ∧ capture.toBytes = withoutReserved bytes := by
  unfold ofBytes?
  split
  · rename_i first second third fourth _ _ _ _ _ _ data
    have rest : data.length = 50 := Nat.add_right_cancel (m := 14) exact
    have counter : ByteOrder.little 4
        (UInt32.ofNat (ByteOrder.ofLittle [first, second, third, fourth])).toNat =
          [first, second, third, fourth] := by
      have below : ByteOrder.ofLittle [first, second, third, fourth] < 256 ^ 4 :=
        ByteOrder.ofLittle_lt [first, second, third, fourth]
      rw [UInt32.toNat_ofNat_of_lt' below]
      exact ByteOrder.little_ofLittle [first, second, third, fourth]
    rw [dif_pos rest]
    refine ⟨_, rfl, ?_⟩
    simp only [toBytes, counter, CaptureKind.code_ofCode]
    rfl
  · rename_i short
    iterate 14
      cases bytes with
      | nil => cases exact
      | cons byte bytes => _
    exact absurd rfl (short _ _ _ _ _ _ _ _ _ _ _ _ _ _ _)

theorem ofBytes?_toBytes_eq (capture : Capture) :
    ofBytes? capture.toBytes = some { capture with kind := .ofCode capture.kind.code } := by
  have counter : UInt32.ofNat (ByteOrder.ofLittle (ByteOrder.little 4 capture.counter.toNat)) =
      capture.counter := by
    have small : capture.counter.toNat < 1 <<< (8 * 4) := capture.counter.toNat_lt
    rw [ByteOrder.ofLittle_little, Nat.mod_eq_of_lt small, UInt32.ofNat_toNat]
  have data : capture.data.toList.length = 50 := capture.data.length_toList
  simp only [toBytes, ByteOrder.little, List.cons_append, List.nil_append] at counter ⊢
  rw [ofBytes?, dif_pos data, counter]
  rfl

/-- A record is read from its own bytes exactly if its kind is the one that is written. -/
theorem ofBytes?_toBytes_eq_some_iff (capture : Capture) :
    ofBytes? capture.toBytes = some capture ↔ capture.kind.IsCoded := by
  rw [ofBytes?_toBytes_eq, ← CaptureKind.ofCode_code_eq_iff]
  constructor
  · intro same
    exact congrArg kind (Option.some.inj same)
  · intro same
    rw [same]

/-! ## The records of a transfer -/

@[simp] theorem pieces_nil : pieces [] = [] := by
  rw [pieces]

theorem pieces_append {piece : List UInt8} (full : piece.length = recordLength)
    (rest : List UInt8) : pieces (piece ++ rest) = piece :: pieces rest := by
  cases piece with
  | nil => cases full
  | cons byte others =>
      rw [List.cons_append, pieces, ← List.cons_append, List.take_left' full,
        List.drop_left' full]

/-- A whole number of records is read one by one. -/
theorem exists_mapM_pieces {count : Nat} {bytes : List UInt8}
    (whole : bytes.length = recordLength * count) :
    ∃ captures, (pieces bytes).mapM ofBytes? = some captures ∧ captures.length = count ∧
      ∀ index < count,
        ofBytes? ((bytes.drop (recordLength * index)).take recordLength) = captures[index]? := by
  induction count generalizing bytes with
  | zero =>
      obtain rfl := List.length_eq_zero_iff.1 whole
      exact ⟨[], by simp, rfl, nofun⟩
  | succ count ih =>
      rw [Nat.mul_succ] at whole
      have full : (bytes.take recordLength).length = recordLength := by
        rw [List.length_take, whole, Nat.min_eq_left (Nat.le_add_left _ _)]
      obtain ⟨capture, read, -⟩ := exists_ofBytes? full
      obtain ⟨captures, others, length, places⟩ := @ih (bytes.drop recordLength) (by
        rw [List.length_drop, whole, Nat.add_sub_cancel])
      refine ⟨capture :: captures, ?_, congrArg (· + 1) length, ?_⟩
      · rw [← List.take_append_drop recordLength bytes, pieces_append full, List.mapM_cons,
          read, others]
        rfl
      · intro index inside
        cases index with
        | zero => exact read
        | succ index =>
            have place := places index (Nat.lt_of_succ_lt_succ inside)
            rw [List.drop_drop, Nat.add_comm, ← Nat.mul_succ] at place
            exact place

theorem mapM_pieces_flatMap {captures : List Capture}
    (coded : ∀ capture ∈ captures, capture.kind.IsCoded) :
    (pieces (captures.flatMap toBytes)).mapM ofBytes? = some captures := by
  induction captures with
  | nil => simp
  | cons capture rest ih =>
      have first := (ofBytes?_toBytes_eq_some_iff capture).2 (coded capture List.mem_cons_self)
      have others := ih fun other member => coded other (List.mem_cons_of_mem _ member)
      rw [List.flatMap_cons, pieces_append capture.length_toBytes, List.mapM_cons, first, others]
      rfl

theorem length_flatMap_toBytes (captures : List Capture) :
    (captures.flatMap toBytes).length = recordLength * captures.length := by
  induction captures with
  | nil => rfl
  | cons capture rest ih =>
      rw [List.flatMap_cons, List.length_append, length_toBytes, ih, List.length_cons,
        Nat.mul_succ, Nat.add_comm]

theorem ofTransfer?_flatMap_toBytes {captures : List Capture}
    (coded : ∀ capture ∈ captures, capture.kind.IsCoded) :
    ofTransfer? (captures.flatMap toBytes) = some captures := by
  rw [ofTransfer?, if_pos, mapM_pieces_flatMap coded]
  rw [length_flatMap_toBytes, Nat.mul_mod_right]

/-- A transfer that is no whole number of records is malformed; any other is read in order. -/
theorem capturesOf_cases (bytes : List UInt8) :
    (bytes.length % recordLength ≠ 0 ∧
      Radio.Receiver.capturesOf (.ok bytes) = .error .malformed) ∨
    (bytes.length % recordLength = 0 ∧ ∃ captures,
      Radio.Receiver.capturesOf (.ok bytes) = .ok captures ∧
        captures.length = bytes.length / recordLength ∧
          ∀ index < captures.length,
            ofBytes? ((bytes.drop (recordLength * index)).take recordLength) =
              captures[index]?) := by
  by_cases whole : bytes.length % recordLength = 0
  · obtain ⟨captures, read, length, places⟩ :=
      exists_mapM_pieces (Nat.eq_mul_of_div_eq_right (Nat.dvd_of_mod_eq_zero whole) rfl)
    refine .inr ⟨whole, captures, ?_, length, length ▸ places⟩
    rw [Radio.Receiver.capturesOf, ofTransfer?, if_pos whole, read]
  · refine .inl ⟨whole, ?_⟩
    rw [Radio.Receiver.capturesOf, ofTransfer?, if_neg whole]

/--
A byte string is read as a record exactly if it has 64 bytes, and they come back
from the record with the reserved two set to zero.  A record comes back from its
bytes exactly if it does not stand under an unknown code of at most six.  A
transfer is malformed exactly if it is no whole number of records, and otherwise
it is read as all of them in order; so the records of a transfer written from
such records are these.
-/
theorem bytes_and_records_correspond :
    (∀ bytes : List UInt8, bytes.length = 64 ↔
      ∃ capture, ofBytes? bytes = some capture ∧
        capture.toBytes = (bytes.set 12 0).set 13 0) ∧
    (∀ capture : Capture,
      ofBytes? capture.toBytes = some capture ↔ capture.kind.IsCoded) ∧
    (∀ bytes : List UInt8,
      (Radio.Receiver.capturesOf (.ok bytes) = .error .malformed ↔ bytes.length % 64 ≠ 0) ∧
      (bytes.length % 64 = 0 → ∃ captures,
        Radio.Receiver.capturesOf (.ok bytes) = .ok captures ∧
          captures.length = bytes.length / 64 ∧
            ∀ index < captures.length,
              ofBytes? ((bytes.drop (64 * index)).take 64) = captures[index]?)) ∧
    (∀ captures : List Capture,
      (∀ capture ∈ captures, capture.kind.IsCoded) →
        ofTransfer? (captures.flatMap toBytes) = some captures) := by
  refine ⟨fun bytes => ?_, ofBytes?_toBytes_eq_some_iff, fun bytes => ?_,
    fun captures coded => ofTransfer?_flatMap_toBytes coded⟩
  · constructor
    · exact exists_ofBytes?
    · rintro ⟨capture, read, -⟩
      exact length_of_ofBytes? read
  · obtain ⟨ragged, malformed⟩ | ⟨whole, captures, read, rest⟩ := capturesOf_cases bytes
    · exact ⟨iff_of_true malformed ragged, fun whole => absurd whole ragged⟩
    · refine ⟨iff_of_false ?_ (not_not_intro whole), fun _ => ⟨captures, read, rest⟩⟩
      rw [read]
      exact nofun

def strangeRecord : Capture where
  kind := .unknown 7
  status := 0xff
  channel := 0x80
  clockHigh := 0x81
  counter := 0xfffffffe
  peak := -1
  floor := -128
  average := 127
  readings := 0xff
  data := .replicate 50 0xa5

/-- A transfer of two records, the first of which is of a kind that is not known. -/
theorem bytes_and_records_correspond_strange :
    let records := [strangeRecord, { strangeRecord with kind := .ego, counter := 1 }]
    let bytes := records.flatMap toBytes
    (∀ capture ∈ records, capture.kind.IsCoded) ∧ bytes.length % 64 = 0 ∧
      ofTransfer? bytes = some records ∧
      ∃ captures, Radio.Receiver.capturesOf (.ok bytes) = .ok captures ∧
        1 < captures.length ∧ ofBytes? ((bytes.drop 64).take 64) = captures[1]? := by
  intro records bytes
  obtain ⟨-, -, transfers, written⟩ := bytes_and_records_correspond
  have coded : ∀ capture ∈ records, capture.kind.IsCoded := by decide
  have double : bytes.length = 128 := length_flatMap_toBytes records
  have whole : bytes.length % 64 = 0 := by rw [double]
  obtain ⟨captures, read, length, places⟩ := (transfers bytes).2 whole
  have inside : 1 < captures.length := by
    rw [length, double]
    decide
  exact ⟨coded, whole, written records coded, captures, read, inside, places 1 inside⟩

end Capture

end Piconet
