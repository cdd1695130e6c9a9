import Mathlib.InformationTheory.Hamming
import Piconet.BitCount

/-!
# Distance between words

The number of ones in the exclusive or of two words is the number of places at
which their bits differ.  Mathlib calls it the Hamming distance of the two
functions from places to bits, and has the triangle inequality for it.
-/

namespace Piconet

def bitsOf (word : BitVec 64) : Fin 64 → Bool :=
  fun place => word.getLsbD place

/-- A byte has the same bits in a word. -/
theorem getLsbD_toUInt64 (byte : UInt8) (place : Nat) :
    byte.toUInt64.toBitVec.getLsbD place = byte.toBitVec.getLsbD place := by
  rw [UInt8.toBitVec_toUInt64, BitVec.getLsbD_setWidth]
  by_cases inside : place < 64
  · rw [decide_eq_true inside, Bool.true_and]
  · rw [BitVec.getLsbD_of_ge byte.toBitVec place (by omega), Bool.and_false]

/-- Counting from the low end meets every place below the width once. -/
theorem onesBelow_eq_sum (width : Nat) (word : UInt64) :
    onesBelow width word =
      ∑ place ∈ Finset.range width, (word.toBitVec.getLsbD place).toNat := by
  induction width generalizing word with
  | zero => rfl
  | succ width ih =>
      have low : (word &&& 1).toNat = (word.toBitVec.getLsbD 0).toNat := by
        rw [UInt64.toNat_and, show (1 : UInt64).toNat = 1 from rfl, Nat.and_one_is_mod,
          BitVec.getLsbD, Nat.testBit_zero]
        change word.toNat % 2 = (decide (word.toNat % 2 = 1)).toNat
        rcases Nat.mod_two_eq_zero_or_one word.toNat with even | odd
        · simp [even]
        · simp [odd]
      have high (place : Nat) :
          (word >>> 1).toBitVec.getLsbD place = word.toBitVec.getLsbD (place + 1) := by
        rw [UInt64.toBitVec_shiftRight]
        change (word.toBitVec >>> (1 : Nat)).getLsbD place = _
        rw [BitVec.getLsbD_ushiftRight, Nat.add_comm]
      rw [onesBelow, ih, Finset.sum_range_succ', low, Nat.add_comm]
      simp only [high]

/-- The ones of an exclusive or are the places where two words differ. -/
theorem ones_xor (first second : BitVec 64) :
    ones (⟨first⟩ ^^^ ⟨second⟩) = hammingDist (bitsOf first) (bitsOf second) := by
  have differ (place : Fin 64) :
      ((first ^^^ second).getLsbD place).toNat =
        if bitsOf first place ≠ bitsOf second place then 1 else 0 := by
    have bits : ∀ one other : Bool,
        (one ^^ other).toNat = if one ≠ other then 1 else 0 := by decide
    rw [BitVec.getLsbD_xor]
    exact bits _ _
  rw [ones, onesBelow_eq_sum, ← Fin.sum_univ_eq_sum_range]
  change ∑ place : Fin 64, ((first ^^^ second).getLsbD place).toNat = _
  simp only [differ]
  rw [Finset.sum_boole, Nat.cast_id]
  rfl

/-- Reading both sides backwards keeps their distance. -/
theorem hammingDist_comp_rev {width : Nat} {Symbol : Type} [DecidableEq Symbol]
    (first second : Fin width → Symbol) :
    hammingDist (first ∘ Fin.rev) (second ∘ Fin.rev) = hammingDist first second := by
  apply Finset.card_equiv Fin.revPerm
  intro place
  simp

end Piconet
