import Mathlib.Algebra.CharP.Two
import Mathlib.Algebra.Field.ZMod
import Mathlib.Algebra.Polynomial.FieldDivision
import Mathlib.RingTheory.EuclideanDomain
import Piconet.BinaryPolynomial

/-!
# Words as polynomials

A word becomes an honest polynomial over the field of two elements.  Exclusive
or is the sum, a shift that loses no term is the product with a power of the
variable, and the long division on words is the division of Mathlib.  What holds
of remainders in a Euclidean domain therefore holds of the remainder of words.
-/

namespace Piconet.BinaryPolynomial

open Polynomial

/-- The polynomial whose coefficients are the bits of a word. -/
noncomputable def toPolynomial {width : Nat} (word : BitVec width) : (ZMod 2)[X] :=
  ∑ place ∈ Finset.range width, if word.getLsbD place then X ^ place else 0

theorem coeff_toPolynomial {width : Nat} (word : BitVec width) (place : Nat) :
    (toPolynomial word).coeff place = if word.getLsbD place then 1 else 0 := by
  have term (other : Nat) :
      (if word.getLsbD other then (X : (ZMod 2)[X]) ^ other else 0).coeff place =
        if other = place then (if word.getLsbD place then 1 else 0) else 0 := by
    by_cases same : other = place
    · subst same
      cases word.getLsbD other <;> simp
    · cases word.getLsbD other <;> simp [coeff_X_pow, same, Ne.symm same]
  rw [toPolynomial, finsetSum_coeff]
  simp only [term, Finset.sum_ite_eq', Finset.mem_range]
  split
  · rfl
  · rename_i outside
    rw [BitVec.getLsbD_of_ge word place (Nat.not_lt.mp outside)]
    rfl

theorem coeff_toPolynomial_eq_zero_iff {width : Nat} (word : BitVec width) (place : Nat) :
    (toPolynomial word).coeff place = 0 ↔ word.getLsbD place = false := by
  rw [coeff_toPolynomial]
  cases word.getLsbD place <;> simp

theorem toPolynomial_injective {width : Nat} :
    Function.Injective (toPolynomial : BitVec width → (ZMod 2)[X]) := by
  intro first second same
  apply BitVec.eq_of_getLsbD_eq
  intro place _
  have zeros := coeff_toPolynomial_eq_zero_iff first place
  rw [same, coeff_toPolynomial_eq_zero_iff] at zeros
  cases one : first.getLsbD place <;> cases other : second.getLsbD place <;> simp_all

@[simp] theorem toPolynomial_zero {width : Nat} : toPolynomial (BitVec.ofNat width 0) = 0 := by
  simp [toPolynomial]

theorem toPolynomial_eq_zero_iff {width : Nat} {word : BitVec width} :
    toPolynomial word = 0 ↔ word = 0 := by
  rw [← @toPolynomial_zero width]
  exact toPolynomial_injective.eq_iff

@[simp] theorem toPolynomial_xor {width : Nat} (first second : BitVec width) :
    toPolynomial (first ^^^ second) = toPolynomial first + toPolynomial second := by
  ext place
  rw [coeff_add]
  simp only [coeff_toPolynomial, BitVec.getLsbD_xor]
  cases first.getLsbD place <;> cases second.getLsbD place <;> simp [CharTwo.add_self_eq_zero]

/-- A wider word with the same bits is the same polynomial. -/
theorem toPolynomial_setWidth {width wider : Nat} (more : width ≤ wider) (word : BitVec width) :
    toPolynomial (word.setWidth wider) = toPolynomial word := by
  ext place
  rw [coeff_toPolynomial, coeff_toPolynomial, BitVec.getLsbD_setWidth]
  by_cases inside : place < wider
  · simp [inside]
  · rw [BitVec.getLsbD_of_ge word place (by omega), Bool.and_false]

/-- A shift that drops no one is the product with a power of the variable. -/
theorem toPolynomial_shiftLeft {width : Nat} {word : BitVec width} {places : Nat}
    (room : ∀ place, width ≤ place + places → word.getLsbD place = false) :
    toPolynomial (word <<< places) = toPolynomial word * X ^ places := by
  ext place
  rw [coeff_mul_X_pow', coeff_toPolynomial, coeff_toPolynomial, BitVec.getLsbD_shiftLeft]
  by_cases below : place < places
  · rw [if_neg (Nat.not_le.mpr below)]
    simp [below]
  · rw [if_pos (Nat.not_lt.mp below)]
    by_cases inside : place < width
    · simp [below, inside]
    · rw [room (place - places) (by omega)]
      simp

/-- A shift by one place is the product with the variable, up to the bit that it drops. -/
theorem toPolynomial_shiftLeft_one {width : Nat} (word : BitVec width) :
    toPolynomial (word <<< 1) + (if word.msb then X ^ width else 0) =
      X * toPolynomial word := by
  have dropped (place : Nat) :
      (if word.msb then (X : (ZMod 2)[X]) ^ width else 0).coeff place =
        if word.msb ∧ place = width then 1 else 0 := by
    cases word.msb <;> simp [coeff_X_pow]
  ext place
  rw [coeff_add, dropped, coeff_toPolynomial, BitVec.getLsbD_shiftLeft,
    BitVec.msb_eq_getLsbD_last]
  cases place with
  | zero =>
      rw [coeff_X_mul_zero]
      cases width with
      | zero => simp
      | succ width => simp
  | succ place =>
      rw [coeff_X_mul, coeff_toPolynomial]
      rcases Nat.lt_trichotomy (place + 1) width with below | last | above
      · simp [below, below.ne]
      · subst last
        simp
      · rw [BitVec.getLsbD_of_ge word place (by omega)]
        simp [above.ne', Nat.not_lt.mpr above.le]

/-! ## Degrees -/

theorem getLsbD_degree {word : BitVec 64} (nonzero : word ≠ 0) :
    word.getLsbD (degree word) = true :=
  Nat.testBit_log2 (BitVec.toNat_ne.1 nonzero)

theorem getLsbD_of_degree_lt {word : BitVec 64} {place : Nat} (above : degree word < place) :
    word.getLsbD place = false :=
  Nat.testBit_lt_two_pow (Nat.lt_of_lt_of_le Nat.lt_log2_self
    (Nat.pow_le_pow_right (by decide) above))

/-- The leading bit of a word is the leading term of its polynomial. -/
theorem degree_toPolynomial {word : BitVec 64} (nonzero : word ≠ 0) :
    (toPolynomial word).degree = degree word := by
  apply degree_eq_of_le_of_coeff_ne_zero
  · rw [degree_le_iff_coeff_zero]
    intro place above
    rw [coeff_toPolynomial_eq_zero_iff]
    exact getLsbD_of_degree_lt (by exact_mod_cast above)
  · rw [Ne, coeff_toPolynomial_eq_zero_iff, getLsbD_degree nonzero]
    exact Bool.true_eq_false_eq_False

/-- A word whose polynomial has a low degree has no high bits. -/
theorem getLsbD_of_degree_toPolynomial_lt {word : BitVec 64} {bound place : Nat}
    (low : (toPolynomial word).degree < bound) (above : bound ≤ place) :
    word.getLsbD place = false := by
  rw [← coeff_toPolynomial_eq_zero_iff]
  exact coeff_eq_zero_of_degree_lt (lt_of_lt_of_le low (by exact_mod_cast above))

/-! ## Division -/

/-- Aligning a divisor multiplies it with a power of the variable. -/
theorem toPolynomial_aligned {dividend divisor : BitVec 64}
    (smaller : degree divisor ≤ degree dividend) :
    toPolynomial (aligned dividend divisor) =
      toPolynomial divisor * X ^ (degree dividend - degree divisor) := by
  refine toPolynomial_shiftLeft fun place outside => getLsbD_of_degree_lt ?_
  have high := degree_lt dividend
  omega

/-- Long division of words leaves the remainder of the polynomials. -/
theorem toPolynomial_remainder (dividend divisor : BitVec 64) :
    toPolynomial (remainder dividend divisor) =
      toPolynomial dividend % toPolynomial divisor := by
  induction dividend using remainder.induct divisor with
  | case1 dividend divides ih =>
      have multiple : toPolynomial (aligned dividend divisor) % toPolynomial divisor = 0 := by
        rw [toPolynomial_aligned divides.2.2, EuclideanDomain.mod_eq_zero]
        exact Dvd.intro _ rfl
      rw [remainder, dif_pos divides, ih, toPolynomial_xor, Polynomial.add_mod, multiple,
        add_zero]
  | case2 dividend ends =>
      rw [remainder, dif_neg ends]
      by_cases zeroDivisor : divisor = 0
      · rw [toPolynomial_eq_zero_iff.mpr zeroDivisor, EuclideanDomain.mod_zero]
      by_cases zeroDividend : dividend = 0
      · rw [toPolynomial_eq_zero_iff.mpr zeroDividend, EuclideanDomain.zero_mod]
      have lower : degree dividend < degree divisor := by
        by_contra higher
        exact ends ⟨zeroDivisor, zeroDividend, Nat.not_lt.mp higher⟩
      symm
      rw [Polynomial.mod_eq_self_iff (fun zero => zeroDivisor (toPolynomial_eq_zero_iff.mp zero)),
        degree_toPolynomial zeroDividend, degree_toPolynomial zeroDivisor]
      exact_mod_cast lower

/-- The remainder of a sum is the sum of the remainders. -/
theorem remainder_xor (first second divisor : BitVec 64) :
    remainder (first ^^^ second) divisor =
      remainder first divisor ^^^ remainder second divisor := by
  apply toPolynomial_injective
  rw [toPolynomial_xor, toPolynomial_remainder, toPolynomial_remainder, toPolynomial_remainder,
    toPolynomial_xor, Polynomial.add_mod]

/-- The remainder has no bit from the leading bit of the divisor on. -/
theorem getLsbD_remainder_of_ge (dividend : BitVec 64) {divisor : BitVec 64}
    (nonzero : divisor ≠ 0) {place : Nat} (above : degree divisor ≤ place) :
    (remainder dividend divisor).getLsbD place = false := by
  have low : (toPolynomial (remainder dividend divisor)).degree < degree divisor := by
    rw [toPolynomial_remainder, ← degree_toPolynomial nonzero]
    exact degree_mod_lt _ fun zero => nonzero (toPolynomial_eq_zero_iff.mp zero)
  exact getLsbD_of_degree_toPolynomial_lt low above

/-- Adding its remainder to a word makes it a multiple of the divisor. -/
theorem dvd_toPolynomial_xor_remainder (dividend divisor : BitVec 64) :
    toPolynomial divisor ∣ toPolynomial (dividend ^^^ remainder dividend divisor) := by
  have division := EuclideanDomain.div_add_mod (toPolynomial dividend) (toPolynomial divisor)
  rw [toPolynomial_xor, toPolynomial_remainder]
  refine ⟨toPolynomial dividend / toPolynomial divisor, ?_⟩
  rw [← CharTwo.sub_eq_add, sub_eq_iff_eq_add]
  exact division.symm

/-- Words that differ from a third one by multiples of a polynomial differ by a multiple of it. -/
theorem dvd_toPolynomial_xor_trans {width : Nat} {divisor : (ZMod 2)[X]}
    {first middle last : BitVec width} (before : divisor ∣ toPolynomial (first ^^^ middle))
    (after : divisor ∣ toPolynomial (middle ^^^ last)) :
    divisor ∣ toPolynomial (first ^^^ last) := by
  have cancelled : first ^^^ last = (first ^^^ middle) ^^^ (middle ^^^ last) := by
    rw [BitVec.xor_assoc, ← BitVec.xor_assoc middle, BitVec.xor_self, BitVec.zero_xor]
  rw [cancelled, toPolynomial_xor]
  exact before.add after

/-- The words without a remainder are the multiples of the divisor. -/
theorem remainder_eq_zero_iff (dividend divisor : BitVec 64) :
    remainder dividend divisor = 0 ↔ toPolynomial divisor ∣ toPolynomial dividend := by
  rw [← toPolynomial_eq_zero_iff, toPolynomial_remainder, EuclideanDomain.mod_eq_zero]

/-- Words that differ by a multiple of the divisor differ at its leading bit or above. -/
theorem eq_of_dvd_toPolynomial_xor {first second divisor : BitVec 64} (nonzero : divisor ≠ 0)
    (multiple : toPolynomial divisor ∣ toPolynomial (first ^^^ second))
    (high : ∀ place, degree divisor ≤ place → first.getLsbD place = second.getLsbD place) :
    first = second := by
  have low : (toPolynomial (first ^^^ second)).degree < (toPolynomial divisor).degree := by
    rw [degree_toPolynomial nonzero, degree_lt_iff_coeff_zero]
    intro place above
    rw [coeff_toPolynomial_eq_zero_iff, BitVec.getLsbD_xor, high place above, Bool.xor_self]
  have same : first ^^^ second = 0 :=
    toPolynomial_eq_zero_iff.mp (eq_zero_of_dvd_of_degree_lt multiple low)
  exact BitVec.xor_eq_zero_iff.mp same

end Piconet.BinaryPolynomial
