/-!
# Polynomials over the field of two elements

A word of 64 bits stands for the polynomial whose coefficient of `D ^ i` is bit
`i`.  Addition is exclusive or.  Long division repeatedly adds the divisor,
shifted so that its leading term meets that of the dividend; each addition
cancels the leading term, so the degree falls until it is below the divisor's.
-/

namespace Piconet.BinaryPolynomial

/-- The exponent of the leading term; the zero polynomial is given degree zero. -/
def degree (polynomial : BitVec 64) : Nat :=
  polynomial.toNat.log2

theorem degree_lt (polynomial : BitVec 64) : degree polynomial < 64 := by
  by_cases zero : polynomial.toNat = 0
  · simp [degree, zero]
  · exact (Nat.log2_lt zero).2 polynomial.isLt

def aligned (dividend divisor : BitVec 64) : BitVec 64 :=
  divisor <<< (degree dividend - degree divisor)

/-- The exclusive or of two numbers with the same leading bit lies below both. -/
theorem xor_lt_of_log2_eq {first second : Nat} (nonzero : first ≠ 0)
    (other : second ≠ 0) (same : first.log2 = second.log2) :
    first ^^^ second < first := by
  refine Nat.lt_of_lt_of_le (Nat.lt_pow_two_of_testBit _ ?_) (Nat.log2_self_le nonzero)
  intro position high
  rw [Nat.testBit_xor]
  by_cases equal : position = first.log2
  · subst equal
    rw [Nat.testBit_log2 nonzero, same, Nat.testBit_log2 other]
    rfl
  · have firstBelow : first < 2 ^ position :=
      Nat.lt_of_lt_of_le Nat.lt_log2_self
        (Nat.pow_le_pow_right (by decide) (by omega))
    have secondBelow : second < 2 ^ position :=
      Nat.lt_of_lt_of_le Nat.lt_log2_self
        (Nat.pow_le_pow_right (by decide) (by omega))
    rw [Nat.testBit_lt_two_pow firstBelow, Nat.testBit_lt_two_pow secondBelow]
    rfl

/-- Aligning a divisor of no larger degree loses none of its terms. -/
theorem toNat_aligned {dividend divisor : BitVec 64}
    (smaller : degree divisor ≤ degree dividend) :
    (aligned dividend divisor).toNat =
      divisor.toNat <<< (degree dividend - degree divisor) := by
  have divisorBound : divisor.toNat < 2 ^ (degree divisor + 1) := Nat.lt_log2_self
  have dividendBound := degree_lt dividend
  have fits : 2 ^ (degree dividend - degree divisor) * divisor.toNat < 2 ^ 64 := by
    calc 2 ^ (degree dividend - degree divisor) * divisor.toNat
        < 2 ^ (degree dividend - degree divisor) * 2 ^ (degree divisor + 1) :=
          (Nat.mul_lt_mul_left (Nat.two_pow_pos _)).2 divisorBound
      _ = 2 ^ (degree dividend + 1) := by
          rw [← Nat.pow_add]
          congr 1
          omega
      _ ≤ 2 ^ 64 := Nat.pow_le_pow_right (by decide) (by omega)
  rw [aligned, BitVec.toNat_shiftLeft, Nat.mod_eq_of_lt]
  rw [Nat.shiftLeft_eq, Nat.mul_comm]
  exact fits

/-- Adding the aligned divisor makes the dividend smaller. -/
theorem toNat_xor_aligned_lt {dividend divisor : BitVec 64} (nonzero : divisor ≠ 0)
    (positive : dividend ≠ 0) (smaller : degree divisor ≤ degree dividend) :
    (dividend ^^^ aligned dividend divisor).toNat < dividend.toNat := by
  have divisorValue : divisor.toNat ≠ 0 := BitVec.toNat_ne.1 nonzero
  have dividendValue : dividend.toNat ≠ 0 := BitVec.toNat_ne.1 positive
  have alignedValue := toNat_aligned smaller
  have alignedPositive : (aligned dividend divisor).toNat ≠ 0 := by
    rw [alignedValue, Nat.shiftLeft_eq]
    exact Nat.mul_ne_zero divisorValue (Nat.pos_iff_ne_zero.1 (Nat.two_pow_pos _))
  have same : dividend.toNat.log2 = (aligned dividend divisor).toNat.log2 := by
    refine Eq.symm ((Nat.log2_eq_iff alignedPositive).2 ?_)
    have below := Nat.log2_self_le divisorValue
    have above : divisor.toNat < 2 ^ (degree divisor + 1) := Nat.lt_log2_self
    have split : dividend.toNat.log2 =
        (degree dividend - degree divisor) + degree divisor := by
      simp only [degree] at smaller ⊢
      omega
    rw [alignedValue, Nat.shiftLeft_eq, Nat.mul_comm, split]
    constructor
    · rw [Nat.pow_add]
      exact Nat.mul_le_mul_left _ below
    · rw [Nat.add_assoc, Nat.pow_add]
      exact (Nat.mul_lt_mul_left (Nat.two_pow_pos _)).2 above
  rw [BitVec.toNat_xor]
  exact xor_lt_of_log2_eq dividendValue alignedPositive same

/-- The remainder of long division; dividing by zero leaves the dividend. -/
def remainder (dividend divisor : BitVec 64) : BitVec 64 :=
  if _ : divisor ≠ 0 ∧ dividend ≠ 0 ∧ degree divisor ≤ degree dividend then
    remainder (dividend ^^^ aligned dividend divisor) divisor
  else
    dividend
termination_by dividend.toNat
decreasing_by
  rename_i divides
  exact toNat_xor_aligned_lt divides.1 divides.2.1 divides.2.2

end Piconet.BinaryPolynomial
