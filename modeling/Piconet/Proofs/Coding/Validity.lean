import Piconet.Proofs.Coding.CodeWord

/-!
# Which words are sync words

A word is valid when it is a multiple of the generator under the noise.  Its 34
parity bits are then decided by the thirty bits above them, so that a valid word
is a sync word as soon as its tail is the one that its address part calls for.
-/

namespace Piconet.SyncWord

open BinaryPolynomial

def tail (word : SyncWord) : BitVec 6 :=
  word.bits.extractLsb' 58 6

theorem getLsbD_lap (word : SyncWord) {place : Nat} (inside : place < 24) :
    word.lap.getLsbD place = word.bits.getLsbD (34 + place) := by
  rw [lap, BitVec.getLsbD_extractLsb', decide_eq_true inside, Bool.true_and]

theorem getLsbD_tail (word : SyncWord) {place : Nat} (inside : place < 6) :
    word.tail.getLsbD place = word.bits.getLsbD (58 + place) := by
  rw [tail, BitVec.getLsbD_extractLsb', decide_eq_true inside, Bool.true_and]

/-- A sync word ends with the tail of its address part. -/
theorem tail_ofLap (part : BitVec 24) : (ofLap part).tail = barker part := by
  apply BitVec.eq_of_getLsbD_eq
  intro place inside
  rw [getLsbD_tail _ inside, show 58 + place = 34 + (24 + place) by omega,
    getLsbD_ofLap part (by omega), BitVec.getLsbD_append, if_neg (by omega),
    Nat.add_sub_cancel_left]

/-- Address part and tail hold all bits from the leading bit of the generator on. -/
theorem getLsbD_eq_of_lap_of_tail {first second : SyncWord} (sameLap : first.lap = second.lap)
    (sameTail : first.tail = second.tail) {place : Nat} (high : 34 ≤ place) :
    first.bits.getLsbD place = second.bits.getLsbD place := by
  by_cases part : place < 58
  · obtain ⟨inner, rfl⟩ := Nat.exists_eq_add_of_le high
    rw [← first.getLsbD_lap (by omega), ← second.getLsbD_lap (by omega), sameLap]
  by_cases inside : place < 64
  · obtain ⟨inner, rfl⟩ := Nat.exists_eq_add_of_le (Nat.not_lt.mp part)
    rw [← first.getLsbD_tail (by omega), ← second.getLsbD_tail (by omega), sameTail]
  · rw [BitVec.getLsbD_of_ge _ _ (Nat.not_lt.mp inside),
      BitVec.getLsbD_of_ge _ _ (Nat.not_lt.mp inside)]

/-- The rest of two valid words is the same where the address part and the tail are. -/
theorem eq_of_isValid {first second : SyncWord} (valid : first.isValid = true)
    (other : second.isValid = true) (sameLap : first.lap = second.lap)
    (sameTail : first.tail = second.tail) : first = second := by
  have same : first.bits = second.bits :=
    eq_of_dvd_toPolynomial_xor generator_ne_zero (generator_dvd_xor valid other)
      fun place high => getLsbD_eq_of_lap_of_tail sameLap sameTail (degree_generator ▸ high)
  exact congrArg SyncWord.mk same

/-- The sync word of an address part is the valid word that carries it with its tail. -/
theorem eq_ofLap_iff_tail (word : SyncWord) (part : BitVec 24) :
    word = ofLap part ↔ word.isValid = true ∧ word.lap = part ∧ word.tail = barker part := by
  constructor
  · rintro rfl
    exact ⟨isValid_ofLap part, lap_ofLap part, tail_ofLap part⟩
  · rintro ⟨valid, carries, tailed⟩
    exact eq_of_isValid valid (isValid_ofLap part) (carries.trans (lap_ofLap part).symm)
      (tailed.trans (tail_ofLap part).symm)

/-! ## The tail as the top of a word -/

theorem tail_eq_iff (word : SyncWord) (bits : BitVec 6) :
    word.tail = bits ↔ word.bits >>> 58 = bits.setWidth 64 := by
  have small := bits.isLt
  have whole := word.bits.isLt
  have top : word.tail.toNat = word.bits.toNat >>> 58 := by
    rw [tail, BitVec.extractLsb'_toNat, Nat.shiftRight_eq_div_pow]
    omega
  rw [← BitVec.toNat_inj, ← BitVec.toNat_inj, top, BitVec.toNat_ushiftRight,
    BitVec.toNat_setWidth, Nat.mod_eq_of_lt (by omega)]

/-- The tail that an address part calls for, as the number at the top of a word. -/
theorem setWidth_barker (part : BitVec 24) :
    (barker part).setWidth 64 = if part.getLsbD 23 then 0x13 else 0x2c := by
  rw [barker, BitVec.msb_eq_getLsbD_last]
  cases part.getLsbD 23 with
  | false => rfl
  | true => rfl

/--
The sync word made from a number is valid, carries its low 24 bits, and ends
with the tail that bit 23 selects; no other word does.  A word is thus a sync
word exactly when it is valid and its own bit 57 selects its tail.
-/
theorem eq_ofLap_iff (lap : UInt32) (word : SyncWord) :
    (word = ofLap (BitVec.ofNat 24 lap.toNat) ↔
      word.isValid = true ∧ word.lap.toNat = lap.toNat % 2 ^ 24 ∧
        word.bits >>> 58 = if lap.toNat.testBit 23 then 0x13 else 0x2c) ∧
    (word = ofLap word.lap ↔
      word.isValid = true ∧
        word.bits >>> 58 = if word.bits.getLsbD 57 then 0x13 else 0x2c) := by
  constructor
  · have bit : (BitVec.ofNat 24 lap.toNat).getLsbD 23 = lap.toNat.testBit 23 := by
      rw [BitVec.getLsbD_ofNat, decide_eq_true (by decide), Bool.true_and]
    rw [eq_ofLap_iff_tail, tail_eq_iff, setWidth_barker, bit, ← BitVec.toNat_inj,
      BitVec.toNat_ofNat]
  · have bit : word.lap.getLsbD 23 = word.bits.getLsbD 57 := word.getLsbD_lap (by decide)
    rw [eq_ofLap_iff_tail, tail_eq_iff, setWidth_barker, bit]
    simp only [true_and]

end Piconet.SyncWord
