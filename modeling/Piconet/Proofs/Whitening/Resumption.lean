import Piconet.Proofs.Whitening.Stretch

/-!
# Whitening that is taken up again

Whitening in a buffer, whitening and its removal are one and the same addition.
It comes to an end unless the place where it starts cannot be counted, and the
symbols from some place on can be whitened by themselves: skipping those in front
of them leads to where the sequence is after them.
-/

namespace Piconet.Whitening

/-! ## In a buffer -/

/-- What stands in front of the index stays, and the sequence is added to what follows. -/
theorem toList_addInPlace (position : Fin 127) (index : Nat) (buffer : Array UInt8) :
    (addInPlace position index buffer).toList =
      buffer.toList.take index ++ addFrom position (buffer.toList.drop index) := by
  induction position, index, buffer using addInPlace.induct with
  | case1 position index buffer inside ih =>
      have listed : index < buffer.toList.length := inside
      have next : buffer.toList.drop index = buffer[index] :: buffer.toList.drop (index + 1) :=
        List.drop_eq_getElem_cons listed
      let changed := buffer[index] ^^^ sequence.get position
      have whole : (buffer.set index changed).toList =
          (buffer.toList.take index ++ [changed]) ++ buffer.toList.drop (index + 1) := by
        rw [Array.toList_set, List.set_eq_take_append_cons_drop, if_pos listed,
          List.append_assoc, List.singleton_append]
      have done : (buffer.toList.take index ++ [changed]).length = index + 1 := by
        rw [List.length_append, List.length_take_of_le (Nat.le_of_lt listed),
          List.length_singleton]
      rw [addInPlace, dif_pos inside, ih, whole, List.take_left' done, List.drop_left' done,
        next, addFrom, List.append_assoc, List.singleton_append]
  | case2 position index buffer outside =>
      have none_left : buffer.toList.length ≤ index := Nat.not_lt.1 outside
      rw [addInPlace, dif_neg outside, List.drop_eq_nil_of_le none_left,
        List.take_of_length_le none_left]
      exact (List.append_nil _).symm

theorem addInPlace_zero (position : Fin 127) (symbols : List UInt8) :
    addInPlace position 0 symbols.toArray = (addFrom position symbols).toArray :=
  Array.toList_inj.1 (toList_addInPlace position 0 symbols.toArray)

theorem whitenInPlace_eq (symbols : List UInt8) (clock : UInt32) (skip : UInt64) :
    whitenInPlace symbols.toArray clock skip =
      (whiten symbols clock skip).map List.toArray := by
  rw [whitenInPlace, whiten]
  cases startAfter clock skip with
  | error overflow => rfl
  | ok position => exact congrArg Except.ok (addInPlace_zero position symbols)

/-! ## Where whitening starts -/

theorem startAfter_eq_error_iff {clock : UInt32} {skip : UInt64} :
    startAfter clock skip = .error .add ↔ 2 ^ 64 ≤ (start clock).val + skip.toNat := by
  have small : (UInt64.ofNat (start clock).val).toNat = (start clock).val :=
    UInt64.toNat_ofNat_of_lt' (Nat.lt_trans (start clock).isLt (by decide))
  constructor
  · intro stopped
    by_contra fits
    rw [startAfter_eq_ok (Nat.not_le.1 fits)] at stopped
    cases stopped
  · intro large
    rw [startAfter, (Overflow.add64_eq_error_iff _ skip).2 (by rwa [small])]
    rfl

theorem whiten_eq_ok {clock : UInt32} {skip : UInt64}
    (fits : (start clock).val + skip.toNat < 2 ^ 64) (symbols : List UInt8) :
    whiten symbols clock skip = .ok (addFrom (advance^[skip.toNat] (start clock)) symbols) := by
  rw [whiten, startAfter_eq_ok fits]
  rfl

theorem whiten_eq_error_iff {symbols : List UInt8} {clock : UInt32} {skip : UInt64} :
    whiten symbols clock skip = .error .add ↔ 2 ^ 64 ≤ (start clock).val + skip.toNat := by
  constructor
  · intro stopped
    by_contra fits
    rw [whiten_eq_ok (Nat.not_le.1 fits)] at stopped
    cases stopped
  · intro large
    rw [whiten, startAfter_eq_error_iff.2 large]
    rfl

/-- Skipping the first symbols too leads to where the sequence is behind them. -/
theorem whiten_skipping {clock : UInt32} {skip : UInt64} (first second : List UInt8)
    (fits : (start clock).val + (skip.toNat + first.length) < 2 ^ 64) :
    whiten second clock (skip + UInt64.ofNat first.length) =
      .ok (addFrom (advance^[first.length] (advance^[skip.toNat] (start clock))) second) := by
  have count : (UInt64.ofNat first.length).toNat = first.length :=
    UInt64.toNat_ofNat_of_lt' (by change first.length < 2 ^ 64; omega)
  have ahead : (skip + UInt64.ofNat first.length).toNat = first.length + skip.toNat := by
    rw [UInt64.toNat_add, count, Nat.mod_eq_of_lt (by omega), Nat.add_comm]
  rw [whiten_eq_ok (by omega), ahead, Function.iterate_add_apply]

/--
The ways to whiten symbols agree, and stop only where the starting place cannot be
counted.  Otherwise whitening what is whitened brings the symbols back, whatever
their values; and the two parts of a packet, the second whitened after skipping the
first, make up the whole of it whitened at once.
-/
theorem whitening_resumes (symbols : List UInt8) (clock : UInt32) (skip : UInt64) :
    dewhiten symbols clock skip = whiten symbols clock skip ∧
    whitenInPlace symbols.toArray clock skip = (whiten symbols clock skip).map List.toArray ∧
    (whiten symbols clock skip = .error .add ↔ 2 ^ 64 ≤ (start clock).val + skip.toNat) ∧
    ((start clock).val + skip.toNat < 2 ^ 64 → ∃ whitened,
      whiten symbols clock skip = .ok whitened ∧ dewhiten whitened clock skip = .ok symbols) ∧
    ∀ first second : List UInt8, symbols = first ++ second →
      (start clock).val + (skip.toNat + first.length) < 2 ^ 64 → ∃ before after,
        whiten first clock skip = .ok before ∧
        whiten second clock (skip + UInt64.ofNat first.length) = .ok after ∧
        whiten symbols clock skip = .ok (before ++ after) := by
  refine ⟨rfl, whitenInPlace_eq symbols clock skip, whiten_eq_error_iff, fun fits => ?_, ?_⟩
  · refine ⟨_, whiten_eq_ok fits symbols, ?_⟩
    rw [dewhiten, whiten_eq_ok fits, addFrom_addFrom]
  · rintro first second rfl fits
    refine ⟨_, _, whiten_eq_ok (by omega) first, whiten_skipping first second fits, ?_⟩
    rw [whiten_eq_ok (by omega), addFrom_append]

/-- A packet that ends on the last place that can be counted, and one a symbol further on. -/
theorem whitening_resumes_last :
    let skip : UInt64 := 0xffffffffffffff9a
    (start 0).val + (skip.toNat + [0x80, 1].length) < 2 ^ 64 ∧
      (∃ before after, whiten [0x80, 1] 0 skip = .ok before ∧
        whiten [0xff] 0 (skip + 2) = .ok after ∧
        whiten [0x80, 1, 0xff] 0 skip = .ok (before ++ after) ∧
        dewhiten (before ++ after) 0 skip = .ok [0x80, 1, 0xff]) ∧
      whiten [0xff] 0 (skip + 3) = .error .add := by
  intro skip
  have fits : (start 0).val + (skip.toNat + [0x80, 1].length) < 2 ^ 64 := by decide
  obtain ⟨-, -, -, back, parts⟩ := whitening_resumes [0x80, 1, 0xff] 0 skip
  obtain ⟨before, after, first, second, whole⟩ := parts [0x80, 1] [0xff] rfl fits
  obtain ⟨whitened, added, removed⟩ := back (by decide)
  have same : whitened = before ++ after := Except.ok.inj (added.symm.trans whole)
  have stops := (whitening_resumes [0xff] 0 (skip + 3)).2.2.1.2 (by decide)
  exact ⟨fits, ⟨before, after, first, second, whole, same ▸ removed⟩, stops⟩

end Piconet.Whitening
