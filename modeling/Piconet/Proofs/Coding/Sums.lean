import Piconet.Proofs.Coding.CodeWord

/-!
# Sync words of sums

Encoding takes the sum of two messages to the sum of their code words.  The noise and
the tail, which is chosen and not added, stand in the way of the same for sync words.
But the noise is a constant, and so is what the two tails differ by; both are left
over once in a sum of three, and three sync words therefore add up to a sync word.
-/

namespace Piconet

/-- A function of words that takes a sum of three to the sum of its values. -/
def IsAffine {width other : Nat} (function : BitVec width → BitVec other) : Prop :=
  ∀ first second third, function (first ^^^ second ^^^ third) =
    function first ^^^ function second ^^^ function third

namespace IsAffine

variable {width other last : Nat} {function : BitVec width → BitVec other}

theorem of_xor (sums : ∀ first second,
    function (first ^^^ second) = function first ^^^ function second) : IsAffine function := by
  intro first second third
  rw [sums, sums]

theorem comp {outer : BitVec other → BitVec last} (after : IsAffine outer)
    (before : IsAffine function) : IsAffine fun word => outer (function word) := by
  intro first second third
  dsimp only
  rw [before, after]

/-- Of a constant in each of three terms one is left. -/
theorem xor_const (affine : IsAffine function) (constant : BitVec other) :
    IsAffine fun word => function word ^^^ constant := by
  intro first second third
  dsimp only
  rw [affine]
  apply BitVec.eq_of_getLsbD_eq
  intro place _
  simp only [BitVec.getLsbD_xor]
  cases constant.getLsbD place <;> simp

theorem append {lower : BitVec width → BitVec last} (affine : IsAffine function)
    (below : IsAffine lower) : IsAffine fun word => function word ++ lower word := by
  intro first second third
  dsimp only
  rw [affine, below, BitVec.xor_append, BitVec.xor_append]

end IsAffine

namespace SyncWord

open BinaryPolynomial

theorem message_xor (first second : BitVec 30) :
    message (first ^^^ second) = message first ^^^ message second := by
  apply BitVec.eq_of_getLsbD_eq
  intro place _
  rw [BitVec.getLsbD_xor, getLsbD_message, getLsbD_message, getLsbD_message, BitVec.getLsbD_xor]
  split <;> rfl

/-- The code word of a sum is the sum of the code words. -/
theorem codeWord_xor (first second : BitVec 30) :
    codeWord (first ^^^ second) = codeWord first ^^^ codeWord second := by
  rw [codeWord_eq_xor, codeWord_eq_xor, codeWord_eq_xor, message_xor, remainder_xor]
  ac_rfl

/-- To choose a tail by one bit is to add the difference of the two tails or not. -/
theorem isAffine_barker : IsAffine barker := by
  intro first second third
  simp only [barker, BitVec.msb_xor]
  cases first.msb <;> cases second.msb <;> cases third.msb <;> rfl

theorem isAffine_information : IsAffine information := by
  have part : IsAffine fun lap : BitVec 24 => lap := IsAffine.of_xor fun _ _ => rfl
  exact (isAffine_barker.append part).xor_const _

theorem isAffine_bits_ofLap : IsAffine fun part => (ofLap part).bits :=
  ((IsAffine.of_xor codeWord_xor).comp isAffine_information).xor_const noise

/-- The sync words made from three numbers add up to the one made from their sum. -/
theorem bits_ofLap_xor_xor (first second third : UInt32) :
    (ofLap (BitVec.ofNat 24 first.toNat)).bits ^^^ (ofLap (BitVec.ofNat 24 second.toNat)).bits ^^^
        (ofLap (BitVec.ofNat 24 third.toNat)).bits =
      (ofLap (BitVec.ofNat 24 (first ^^^ second ^^^ third).toNat)).bits := by
  rw [UInt32.toNat_xor, UInt32.toNat_xor, BitVec.ofNat_xor, BitVec.ofNat_xor]
  exact (isAffine_bits_ofLap _ _ _).symm

end SyncWord

end Piconet
