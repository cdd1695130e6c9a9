import Piconet.Proofs.Coding.Polynomial

/-!
# Products without carries

The product of two words is the sum of copies of the first one, moved up to each
place at which the second one has a one.  Twice the width has room for all of
them, so that the product of words is that of their polynomials, and the multiples
of a word are those of its polynomial.
-/

namespace Piconet.BinaryPolynomial

open Polynomial

def productBelow (word factor : BitVec 64) : (bound : Nat) → BitVec 128
  | 0 => 0
  | place + 1 =>
      productBelow word factor place ^^^
        (if factor.getLsbD place then word.setWidth 128 <<< place else 0)

/-- The product of two words without carries. -/
def product (word factor : BitVec 64) : BitVec 128 :=
  productBelow word factor 64

def IsMultiple (divisor word : BitVec 64) : Prop :=
  ∃ factor, product divisor factor = word.setWidth 128

/-! ## Products -/

/-- Twice the width has room for a copy at each place. -/
theorem toPolynomial_copy (word : BitVec 64) {place : Nat} (inside : place < 64) :
    toPolynomial (word.setWidth 128 <<< place) = toPolynomial word * X ^ place := by
  rw [toPolynomial_shiftLeft, toPolynomial_setWidth (by decide)]
  intro other outside
  rw [BitVec.getLsbD_setWidth, BitVec.getLsbD_of_ge word other (by omega), Bool.and_false]

theorem toPolynomial_productBelow (word factor : BitVec 64) {bound : Nat} (inside : bound ≤ 64) :
    toPolynomial (productBelow word factor bound) =
      toPolynomial word *
        ∑ place ∈ Finset.range bound, if factor.getLsbD place then X ^ place else 0 := by
  induction bound with
  | zero =>
      rw [Finset.sum_range_zero, mul_zero]
      exact toPolynomial_zero
  | succ place ih =>
      rw [productBelow, toPolynomial_xor, ih (by omega), Finset.sum_range_succ, mul_add]
      cases factor.getLsbD place with
      | false => simp
      | true => exact congrArg _ (toPolynomial_copy word (by omega))

theorem toPolynomial_product (word factor : BitVec 64) :
    toPolynomial (product word factor) = toPolynomial word * toPolynomial factor :=
  toPolynomial_productBelow word factor (Nat.le_refl 64)

/-! ## Multiples -/

/-- A polynomial whose degree is low enough stands in a word. -/
theorem exists_toPolynomial {polynomial : (ZMod 2)[X]} {width : Nat}
    (low : polynomial.degree < width) : ∃ word : BitVec width, toPolynomial word = polynomial := by
  refine ⟨BitVec.ofNat width (Nat.ofBits fun place : Fin width => polynomial.coeff place = 1), ?_⟩
  ext place
  rw [coeff_toPolynomial, BitVec.getLsbD_ofNat, Nat.testBit_ofBits]
  by_cases inside : place < width
  · have bits : ∀ coefficient : ZMod 2, (if coefficient = 1 then 1 else 0) = coefficient := by
      decide
    simp [inside, bits]
  · simp [inside, coeff_eq_zero_of_degree_lt
      (lt_of_lt_of_le low (by exact_mod_cast Nat.not_lt.1 inside))]

/-- The multiples of a word are the words whose polynomials its own one divides. -/
theorem isMultiple_iff {divisor word : BitVec 64} :
    IsMultiple divisor word ↔ toPolynomial divisor ∣ toPolynomial word := by
  constructor
  · rintro ⟨factor, same⟩
    refine ⟨toPolynomial factor, ?_⟩
    rw [← toPolynomial_product, same, toPolynomial_setWidth (by decide)]
  · rintro ⟨quotient, same⟩
    have exists_factor : ∃ factor : BitVec 64,
        toPolynomial word = toPolynomial divisor * toPolynomial factor := by
      by_cases zero : toPolynomial word = 0
      · exact ⟨0, by rw [zero, toPolynomial_eq_zero_iff.2 rfl, mul_zero]⟩
      · have bound := degree_le_of_dvd (Dvd.intro_left _ same.symm) zero
        rw [degree_toPolynomial (toPolynomial_eq_zero_iff.not.1 zero)] at bound
        have low : quotient.degree < (64 : Nat) :=
          lt_of_le_of_lt bound (by exact_mod_cast degree_lt word)
        obtain ⟨factor, rfl⟩ := exists_toPolynomial low
        exact ⟨factor, same⟩
    obtain ⟨factor, whole⟩ := exists_factor
    refine ⟨factor, toPolynomial_injective ?_⟩
    rw [toPolynomial_product, toPolynomial_setWidth (by decide), whole]

end Piconet.BinaryPolynomial
