import Mathlib.Order.Bounds.Basic
import Piconet.AccessCode
import Piconet.Proofs.Coding.Distance

/-!
# What a search for an access code finds

The shift register is compared with a sync word that is stored backwards, and
it is filled once and then moved on by one symbol at a time.  Read as windows of
the stream, the search looks at every place where a whole sync word fits, and
it reports the first one with fewer differing symbols than the tolerance.
-/

namespace Piconet

/-- How many symbols of a sync word are not where the stream has them from a place on. -/
def SyncWord.distanceAt (word : SyncWord) (stream : List Bool) (offset : Nat) : Nat :=
  hammingDist (fun place : Fin 64 => stream[offset + place]?)
    (fun place : Fin 64 => word.symbols[(place : Nat)]?)

namespace Correlator

/-- The stream holds a whole window here, and few enough of its symbols are wrong. -/
def Accepts (correlator : Correlator) (stream : List Bool) (offset : Nat) : Prop :=
  offset + 64 ≤ stream.length ∧
    correlator.syncWord.distanceAt stream offset < correlator.tolerance

instance (correlator : Correlator) (stream : List Bool) (offset : Nat) :
    Decidable (correlator.Accepts stream offset) :=
  inferInstanceAs (Decidable (_ ∧ _))

/-! ## The register -/

theorem getLsbD_shiftIn_zero (register : UInt64) (symbol : Bool) :
    (shiftIn register symbol).toBitVec.getLsbD 0 = symbol := by
  rw [shiftIn, UInt64.toBitVec_or, BitVec.getLsbD_or, UInt64.toBitVec_shiftLeft]
  change ((register.toBitVec <<< (1 : Nat)).getLsbD 0 || _) = symbol
  rw [BitVec.getLsbD_shiftLeft]
  cases symbol <;> rfl

theorem getLsbD_shiftIn_succ (register : UInt64) (symbol : Bool) {place : Nat}
    (below : place + 1 < 64) :
    (shiftIn register symbol).toBitVec.getLsbD (place + 1) =
      register.toBitVec.getLsbD place := by
  have clear : (if symbol then (1 : UInt64) else 0).toBitVec.getLsbD (place + 1) = false := by
    cases symbol with
    | false => exact BitVec.getLsbD_zero
    | true =>
        change (1#64).getLsbD (place + 1) = false
        simp
  rw [shiftIn, UInt64.toBitVec_or, BitVec.getLsbD_or, clear, Bool.or_false,
    UInt64.toBitVec_shiftLeft]
  change (register.toBitVec <<< (1 : Nat)).getLsbD (place + 1) = _
  rw [BitVec.getLsbD_shiftLeft, decide_eq_true below]
  rfl

/-- The register holds the symbols it took in last, the latest in bit 0. -/
theorem getLsbD_foldl_shiftIn (symbols : List Bool) {place : Nat} (below : place < 64) :
    (symbols.foldl shiftIn 0).toBitVec.getLsbD place =
      (symbols.reverse[place]?).getD false := by
  induction symbols using List.reverseRecOn generalizing place with
  | nil => exact BitVec.getLsbD_zero
  | append_singleton earlier symbol ih =>
      rw [List.foldl_append, List.foldl_cons, List.foldl_nil, List.reverse_concat]
      cases place with
      | zero =>
          rw [getLsbD_shiftIn_zero]
          rfl
      | succ place =>
          rw [getLsbD_shiftIn_succ _ _ below, ih (by omega)]
          rfl

/-- Comparing the register counts the differences between a window and the sync word. -/
theorem ones_register_xor_target (correlator : Correlator) (stream : List Bool)
    {offset : Nat} (fits : offset + 64 ≤ stream.length) :
    ones ((stream.take (offset + 64)).foldl shiftIn 0 ^^^ correlator.target) =
      correlator.syncWord.distanceAt stream offset := by
  let register := (stream.take (offset + 64)).foldl shiftIn 0
  have window (place : Fin 64) :
      stream[offset + place]? = some (bitsOf register.toBitVec place.rev) := by
    have below : 63 - place.val < 64 := by omega
    have inside : offset + place.val < stream.length := by omega
    have held := getLsbD_foldl_shiftIn (stream.take (offset + 64)) below
    have mirrored : (stream.take (offset + 64)).reverse[63 - place.val]? =
        some stream[offset + place.val] := by
      rw [List.getElem?_reverse (by rw [List.length_take]; omega), List.length_take,
        Nat.min_eq_left fits, List.getElem?_take_of_lt (by omega),
        List.getElem?_eq_getElem (by omega)]
      congr 2
      omega
    rw [mirrored, Option.getD_some] at held
    rw [List.getElem?_eq_getElem inside, ← held, bitsOf, Fin.val_rev]
    congr 2
    omega
  have code (place : Fin 64) :
      correlator.syncWord.symbols[(place : Nat)]? =
        some (bitsOf correlator.syncWord.airOrder place.rev) := by
    rw [SyncWord.symbols, List.getElem?_ofFn, dif_pos place.isLt, bitsOf,
      SyncWord.airOrder, BitVec.getLsbD_reverse, BitVec.getMsbD_eq_getLsbD, Fin.val_rev,
      decide_eq_true (by omega), Bool.true_and,
      show 64 - 1 - (64 - (place.val + 1)) = place.val by omega]
  calc ones (register ^^^ correlator.target)
      = hammingDist (bitsOf register.toBitVec) (bitsOf correlator.syncWord.airOrder) :=
        ones_xor _ _
    _ = hammingDist (bitsOf register.toBitVec ∘ Fin.rev)
          (bitsOf correlator.syncWord.airOrder ∘ Fin.rev) :=
        (hammingDist_comp_rev _ _).symm
    _ = correlator.syncWord.distanceAt stream offset := by
        simp only [SyncWord.distanceAt, window, code]
        exact (hammingDist_comp (fun _ => some) (fun _ => Option.some_injective Bool)).symm

/-! ## The search -/

def errorsAfter (target register : UInt64) (rest : List Bool) (count : Nat) : Nat :=
  ones ((rest.take count).foldl shiftIn register ^^^ target)

/-- The first step of the scan that has few enough errors decides its answer. -/
theorem scan_spec (target : UInt64) (tolerance : Nat) (register : UInt64) (offset : Nat)
    (rest : List Bool) :
    match scan target tolerance register offset rest with
    | none => ∀ count, count ≤ rest.length → tolerance ≤ errorsAfter target register rest count
    | some found => ∃ count,
        IsLeast {count | count ≤ rest.length ∧
          errorsAfter target register rest count < tolerance} count ∧
        found = ⟨offset + count, errorsAfter target register rest count⟩ := by
  induction rest generalizing register offset with
  | nil =>
      by_cases close : ones (register ^^^ target) < tolerance
      · rw [scan, if_pos close]
        exact ⟨0, ⟨⟨Nat.le_refl 0, close⟩, fun _ _ => Nat.zero_le _⟩, rfl⟩
      · rw [scan, if_neg close]
        intro count within
        rw [Nat.le_zero.mp within]
        exact Nat.not_lt.mp close
  | cons symbol rest ih =>
      by_cases close : ones (register ^^^ target) < tolerance
      · rw [scan, if_pos close]
        exact ⟨0, ⟨⟨Nat.zero_le _, close⟩, fun _ _ => Nat.zero_le _⟩, rfl⟩
      · rw [scan, if_neg close]
        have later := ih (shiftIn register symbol) (offset + 1)
        cases answer : scan target tolerance (shiftIn register symbol) (offset + 1) rest with
        | none =>
            rw [answer] at later
            intro count within
            cases count with
            | zero => exact Nat.not_lt.mp close
            | succ count => exact later count (Nat.le_of_succ_le_succ within)
        | some found =>
            rw [answer] at later
            obtain ⟨count, ⟨⟨within, few⟩, least⟩, foundEq⟩ := later
            refine ⟨count + 1, ⟨⟨Nat.succ_le_succ within, few⟩, ?_⟩, ?_⟩
            · rintro (_ | other) ⟨otherWithin, otherFew⟩
              · exact absurd otherFew close
              · exact Nat.succ_le_succ (least ⟨Nat.le_of_succ_le_succ otherWithin, otherFew⟩)
            · rw [foundEq, Nat.add_assoc, Nat.add_comm 1 count]
              rfl

/-- Moving on by some symbols compares the window that many places further on. -/
theorem errorsAfter_eq_distanceAt (correlator : Correlator) (stream : List Bool)
    {count : Nat} (fits : count + 64 ≤ stream.length) :
    errorsAfter correlator.target ((stream.take 64).foldl shiftIn 0) (stream.drop 64) count =
      correlator.syncWord.distanceAt stream count := by
  rw [← ones_register_xor_target correlator stream fits, errorsAfter, ← List.foldl_append,
    Nat.add_comm count 64, List.take_add]

/-- The search over bits reports the first accepted window and its distance. -/
theorem searchBits_spec (correlator : Correlator) (stream : List Bool) :
    match correlator.searchBits stream with
    | none => ∀ offset, ¬ correlator.Accepts stream offset
    | some found =>
        IsLeast {offset | correlator.Accepts stream offset} found.offset ∧
          found.errors = correlator.syncWord.distanceAt stream found.offset := by
  by_cases short : stream.length < 64
  · rw [searchBits_of_short short]
    rintro offset ⟨fits, -⟩
    omega
  · have scanned := scan_spec correlator.target correlator.tolerance
      ((stream.take 64).foldl shiftIn 0) 0 (stream.drop 64)
    have fits {count : Nat} : count ≤ (stream.drop 64).length ↔ count + 64 ≤ stream.length := by
      rw [List.length_drop]
      omega
    rw [searchBits, if_neg short]
    cases answer : scan correlator.target correlator.tolerance
        ((stream.take 64).foldl shiftIn 0) 0 (stream.drop 64) with
    | none =>
        rw [answer] at scanned
        rintro offset ⟨inside, close⟩
        have far := scanned offset (fits.mpr inside)
        rw [errorsAfter_eq_distanceAt correlator stream inside] at far
        exact Nat.not_lt.mpr far close
    | some found =>
        rw [answer] at scanned
        obtain ⟨count, ⟨⟨within, few⟩, least⟩, rfl⟩ := scanned
        have inside := fits.mp within
        rw [errorsAfter_eq_distanceAt correlator stream inside] at few ⊢
        rw [Nat.zero_add]
        refine ⟨⟨⟨inside, few⟩, ?_⟩, rfl⟩
        rintro other ⟨otherInside, otherFew⟩
        refine least ⟨fits.mpr otherInside, ?_⟩
        rw [errorsAfter_eq_distanceAt correlator stream otherInside]
        exact otherFew

theorem searchBits_eq_none_iff (correlator : Correlator) (stream : List Bool) :
    correlator.searchBits stream = none ↔ ∀ offset, ¬ correlator.Accepts stream offset := by
  have spec := correlator.searchBits_spec stream
  cases answer : correlator.searchBits stream with
  | none =>
      rw [answer] at spec
      exact iff_of_true rfl spec
  | some found =>
      rw [answer] at spec
      exact iff_of_false (Option.some_ne_none found) fun never => never _ spec.1.1

theorem searchBits_eq_some_iff (correlator : Correlator) (stream : List Bool)
    (found : AccessCode) :
    correlator.searchBits stream = some found ↔
      IsLeast {offset | correlator.Accepts stream offset} found.offset ∧
        found.errors = correlator.syncWord.distanceAt stream found.offset := by
  have spec := correlator.searchBits_spec stream
  cases answer : correlator.searchBits stream with
  | none =>
      rw [answer] at spec
      exact iff_of_false (Option.some_ne_none found).symm fun least => spec _ least.1.1
  | some other =>
      rw [answer] at spec
      constructor
      · rintro same
        cases same
        exact spec
      · rintro ⟨least, errors⟩
        have sameOffset : other.offset = found.offset := spec.1.unique least
        have sameErrors : other.errors = found.errors := by
          rw [spec.2, errors, sameOffset]
        cases other
        cases found
        cases sameOffset
        cases sameErrors
        rfl

/-- The bit of a symbol is the lowest one of its byte. -/
theorem bit_eq_testBit (symbol : UInt8) : Symbols.bit symbol = symbol.toNat.testBit 0 := by
  have low : (symbol &&& 1).toNat = symbol.toNat % 2 := by
    rw [UInt8.toNat_and]
    exact Nat.and_one_is_mod _
  rw [Symbols.bit, Nat.testBit_zero, ← low, Bool.beq_eq_decide_eq]
  exact decide_eq_decide.2 UInt8.toNat_inj.symm

/--
The search reports an access code exactly when it begins at the first window
of the stream within the tolerance, with the distance of that window as its
errors, and nothing exactly when there is no such window.  Only the lowest bit of
a symbol counts.
-/
theorem find?_iff_first_window (correlator : Correlator) (symbols : List UInt8) :
    let stream := symbols.map fun symbol => symbol.toNat.testBit 0
    (∀ found, correlator.find? symbols = some found ↔
      IsLeast {offset | offset + 64 ≤ symbols.length ∧
        correlator.syncWord.distanceAt stream offset < correlator.tolerance} found.offset ∧
      found.errors = correlator.syncWord.distanceAt stream found.offset) ∧
    (correlator.find? symbols = none ↔
      ∀ offset, offset + 64 ≤ symbols.length →
        ¬ correlator.syncWord.distanceAt stream offset < correlator.tolerance) ∧
    (symbols.length < 64 → correlator.find? symbols = none) := by
  intro stream
  have length : stream.length = symbols.length := List.length_map _
  have bits : symbols.map Symbols.bit = stream := List.map_congr_left fun symbol _ => bit_eq_testBit symbol
  rw [find?, bits]
  refine ⟨fun found => ?_, ?_, fun short => ?_⟩
  · rw [searchBits_eq_some_iff]
    simp only [Accepts, length]
  · rw [searchBits_eq_none_iff]
    simp only [Accepts, length, not_and]
  · exact searchBits_of_short (by rw [length]; exact short)

end Correlator

end Piconet
