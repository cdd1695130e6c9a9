import Piconet.Proofs.Coding.Polynomial
import Piconet.SyncWord

/-!
# Code words

The information bits stand unchanged on top of a code word, the remainder of
their division stands below them, and the two never overlap.  The whole is a
multiple of the generator, and so is the difference of two sync words, because
the pseudo-noise word cancels in it.
-/

namespace Piconet.SyncWord

open BinaryPolynomial

theorem generator_ne_zero : generator ≠ 0 := by
  decide

theorem degree_generator : degree generator = 34 := by
  decide

/-- The information bits with room for the parity bits below them. -/
def message (information : BitVec 30) : BitVec 64 :=
  information ++ (0 : BitVec 34)

theorem getLsbD_message (information : BitVec 30) (place : Nat) :
    (message information).getLsbD place =
      if place < 34 then false else information.getLsbD (place - 34) := by
  change (information ++ (0 : BitVec 34) : BitVec (30 + 34)).getLsbD place = _
  rw [BitVec.getLsbD_append]
  split
  · exact BitVec.getLsbD_zero
  · rfl

/-- The parity bits fill only the room that the message leaves. -/
theorem codeWord_eq_xor (information : BitVec 30) :
    codeWord information =
      message information ^^^ remainder (message information) generator := by
  apply BitVec.eq_of_getLsbD_eq
  intro place _
  change (message information ||| remainder (message information) generator).getLsbD place = _
  rw [BitVec.getLsbD_or, BitVec.getLsbD_xor, getLsbD_message]
  by_cases low : place < 34
  · simp [low]
  · rw [getLsbD_remainder_of_ge _ generator_ne_zero
      (by rw [degree_generator]; exact Nat.not_lt.mp low)]
    simp

/-- A code word carries its information bits above the 34 parity bits. -/
theorem getLsbD_codeWord (information : BitVec 30) (place : Nat) :
    (codeWord information).getLsbD (34 + place) = information.getLsbD place := by
  rw [codeWord_eq_xor, BitVec.getLsbD_xor, getLsbD_message,
    getLsbD_remainder_of_ge _ generator_ne_zero (by rw [degree_generator]; omega),
    if_neg (by omega), Bool.xor_false, Nat.add_sub_cancel_left]

theorem generator_dvd_codeWord (information : BitVec 30) :
    toPolynomial generator ∣ toPolynomial (codeWord information) := by
  rw [codeWord_eq_xor]
  exact dvd_toPolynomial_xor_remainder _ _

/-! ## Sync words -/

/-- Above its parity bits a sync word shows the lower address part and its tail. -/
theorem getLsbD_ofLap (lap : BitVec 24) {place : Nat} (inside : place < 30) :
    (ofLap lap).bits.getLsbD (34 + place) = (barker lap ++ lap).getLsbD place := by
  rw [ofLap, BitVec.getLsbD_xor, getLsbD_codeWord, information, BitVec.getLsbD_xor,
    BitVec.getLsbD_extractLsb', decide_eq_true inside, Bool.true_and, Bool.xor_assoc,
    Bool.xor_self, Bool.xor_false]

/-- A sync word carries the lower address part it was made from. -/
@[simp] theorem lap_ofLap (part : BitVec 24) : (ofLap part).lap = part := by
  apply BitVec.eq_of_getLsbD_eq
  intro place below
  rw [lap, BitVec.getLsbD_extractLsb', decide_eq_true below, Bool.true_and,
    getLsbD_ofLap part (by omega), BitVec.getLsbD_append, if_pos below]

/-- A word is valid when it is a code word under the noise. -/
theorem isValid_iff (word : SyncWord) :
    word.isValid = true ↔ toPolynomial generator ∣ toPolynomial (word.bits ^^^ noise) := by
  rw [isValid, beq_iff_eq]
  exact remainder_eq_zero_iff _ _

theorem isValid_ofLap (part : BitVec 24) : (ofLap part).isValid = true := by
  rw [isValid_iff, ofLap, BitVec.xor_assoc, BitVec.xor_self, BitVec.xor_zero]
  exact generator_dvd_codeWord _

/-- The noise cancels in the difference of two valid words, which leaves a code word. -/
theorem generator_dvd_xor {first second : SyncWord} (valid : first.isValid = true)
    (other : second.isValid = true) :
    toPolynomial generator ∣ toPolynomial (first.bits ^^^ second.bits) := by
  rw [isValid_iff] at valid other
  rw [BitVec.xor_comm] at other
  exact dvd_toPolynomial_xor_trans valid other

end Piconet.SyncWord
