import Piconet.Proofs.Coding.Separation

/-!
# Which errors a sync word shows

A word whose bits are changed at some places differs from itself by the sum of
the powers of the variable at these places, so that it stays valid just when the
generator divides this sum.  The generator has the variable plus one as a factor,
which rules out an odd number of places; it does not have the variable, and its
degree is 34, which rules out places near to each other; and its root has order
63, which leaves one pair of places, the first and the last.
-/

namespace Piconet

open BinaryPolynomial Polynomial RootPowers

def onesAt (places : Finset (Fin 64)) : BitVec 64 :=
  places.fold (· ^^^ ·) 0 fun place => BitVec.twoPow 64 place.val

namespace SyncWord

/-- The word with the bits at some places changed. -/
def flip (word : SyncWord) (places : Finset (Fin 64)) : SyncWord :=
  ⟨word.bits ^^^ onesAt places⟩

end SyncWord

/-! ## Sums of powers -/

noncomputable def powerSum (places : Finset (Fin 64)) : (ZMod 2)[X] :=
  ∑ place ∈ places, X ^ (place : Nat)

theorem toPolynomial_twoPow (place : Fin 64) :
    toPolynomial (BitVec.twoPow 64 place) = X ^ (place : Nat) := by
  ext other
  rw [coeff_toPolynomial, coeff_X_pow, BitVec.getLsbD_twoPow, decide_eq_true place.isLt,
    Bool.true_and]
  exact if_congr (decide_eq_true_iff.trans eq_comm) rfl rfl

theorem toPolynomial_onesAt (places : Finset (Fin 64)) :
    toPolynomial (onesAt places) = powerSum places := by
  induction places using Finset.induction_on with
  | empty => exact @toPolynomial_zero 64
  | insert place others new ih =>
      rw [onesAt, Finset.fold_insert new, toPolynomial_xor, toPolynomial_twoPow, powerSum,
        Finset.sum_insert new]
      exact congrArg _ ih

theorem coeff_powerSum (places : Finset (Fin 64)) (place : Fin 64) :
    (powerSum places).coeff place = if place ∈ places then 1 else 0 := by
  simp only [powerSum, finsetSum_coeff, coeff_X_pow, Fin.val_inj, Finset.sum_ite_eq]

theorem powerSum_ne_zero {places : Finset (Fin 64)} (nonempty : places.Nonempty) :
    powerSum places ≠ 0 := by
  obtain ⟨place, inside⟩ := nonempty
  intro zero
  have one := coeff_powerSum places place
  rw [zero, coeff_zero, if_pos inside] at one
  exact zero_ne_one one

theorem powerSum_pair {first second : Fin 64} (distinct : first ≠ second) :
    powerSum {first, second} = X ^ (first : Nat) + X ^ (second : Nat) :=
  Finset.sum_pair distinct

namespace SyncWord

/-- A valid word whose bits are changed is valid just when the changes are a code word. -/
theorem isValid_flip_iff {word : SyncWord} (valid : word.isValid = true)
    (places : Finset (Fin 64)) :
    (word.flip places).isValid = true ↔ toPolynomial generator ∣ powerSum places := by
  have moved : word.bits ^^^ onesAt places ^^^ noise = word.bits ^^^ noise ^^^ onesAt places := by
    rw [BitVec.xor_assoc, BitVec.xor_comm (onesAt places), BitVec.xor_assoc]
  rw [isValid_iff] at valid
  rw [isValid_iff, flip, moved, toPolynomial_xor, toPolynomial_onesAt]
  exact dvd_add_right valid

/-! ## An odd number of places -/

theorem eval_one_generator : eval 1 (toPolynomial generator) = 0 := by
  have ones : (support generator).card = 18 := by decide +kernel
  have value := aeval_eq_sum_support (1 : ZMod 2) generator
  simp only [one_pow, Finset.sum_const, ones] at value
  exact value

theorem eval_one_powerSum (places : Finset (Fin 64)) : eval 1 (powerSum places) = places.card := by
  simp [powerSum, eval_finsetSum]

theorem even_card_of_dvd {places : Finset (Fin 64)}
    (multiple : toPolynomial generator ∣ powerSum places) : Even places.card := by
  rw [← ZMod.natCast_eq_zero_iff_even, ← eval_one_powerSum]
  exact eval_eq_zero_of_dvd_of_eval_eq_zero multiple eval_one_generator

/-! ## Places near to each other -/

theorem isCoprime_generator_X_pow (exponent : Nat) :
    IsCoprime (toPolynomial generator) (X ^ exponent) := by
  refine (IsCoprime.pow_left ?_).symm
  rw [irreducible_X.coprime_iff_not_dvd, X_dvd_iff, coeff_toPolynomial_eq_zero_iff]
  decide

/-- Up to a power of the variable places near to each other make a low sum, which no multiple
of the generator is. -/
theorem not_dvd_of_near {places : Finset (Fin 64)} (nonempty : places.Nonempty) {low : Nat}
    (near : ∀ place ∈ places, low ≤ place.val ∧ place.val < low + 34) :
    ¬toPolynomial generator ∣ powerSum places := by
  have shifted : powerSum places = X ^ low * ∑ place ∈ places, X ^ (place.val - low) := by
    rw [Finset.mul_sum]
    refine Finset.sum_congr rfl fun place inside => ?_
    rw [← pow_add, Nat.add_sub_cancel' (near place inside).1]
  have short : (∑ place ∈ places, (X : (ZMod 2)[X]) ^ (place.val - low)).degree <
      (toPolynomial generator).degree := by
    rw [degree_toPolynomial generator_ne_zero, degree_generator, ← mem_degreeLT]
    refine Submodule.sum_mem _ fun place inside => ?_
    have bounds := near place inside
    rw [mem_degreeLT, degree_X_pow]
    exact_mod_cast (by omega : place.val - low < 34)
  intro multiple
  rw [shifted] at multiple
  have zero := eq_zero_of_dvd_of_degree_lt
    ((isCoprime_generator_X_pow low).dvd_of_dvd_mul_left multiple) short
  rw [zero, mul_zero] at shifted
  exact powerSum_ne_zero nonempty shifted

/-! ## Two places -/

theorem generator_dvd_ends : toPolynomial generator ∣ powerSum {0, 63} := by
  have whole : onesAt {0, 63} = ends := by decide
  rw [← toPolynomial_onesAt, whole, ← remainder_eq_zero_iff]
  decide +kernel

theorem generator_dvd_pair_iff {first second : Fin 64} (apart : first < second) :
    toPolynomial generator ∣ powerSum {first, second} ↔ first = 0 ∧ second = 63 := by
  constructor
  · intro multiple
    obtain ⟨root, isRoot⟩ := exists_root
    have vanish : aeval root (powerSum {first, second}) = 0 := by
      obtain ⟨quotient, same⟩ := multiple
      have zero := aeval_generator isRoot (by decide : 1 < 13)
      rw [pow_one] at zero
      rw [same, map_mul, zero, zero_mul]
    rw [powerSum_pair apart.ne, map_add, map_pow, map_pow, aeval_X,
      CharTwo.add_eq_zero] at vanish
    have finite : IsOfFinOrder root :=
      orderOf_pos_iff.1 (by rw [orderOf_root isRoot]; decide)
    rw [finite.pow_inj_mod, orderOf_root isRoot] at vanish
    have below : first.val < second.val := apart
    omega
  · rintro ⟨rfl, rfl⟩
    exact generator_dvd_ends

/-! ## Changed words -/

theorem isValid_flip_eq_false_iff {word : SyncWord} (valid : word.isValid = true)
    (places : Finset (Fin 64)) :
    (word.flip places).isValid = false ↔ ¬toPolynomial generator ∣ powerSum places := by
  rw [← isValid_flip_iff valid, Bool.not_eq_true]

/--
A valid word is not valid any more when an odd number of its bits is changed, or
some bits that lie within 34 places in a row; nor when two bits are, unless they
are the first and the last one, which leave it valid.
-/
theorem flips_are_detected {word : SyncWord} (valid : word.isValid = true) :
    (∀ places : Finset (Fin 64), Odd places.card → (word.flip places).isValid = false) ∧
    (∀ (places : Finset (Fin 64)) (low : Nat), places.Nonempty →
      (∀ place ∈ places, low ≤ place.val ∧ place.val < low + 34) →
        (word.flip places).isValid = false) ∧
    ∀ first second : Fin 64, first < second →
      ((word.flip {first, second}).isValid = true ↔ first = 0 ∧ second = 63) := by
  refine ⟨fun places odd => ?_, fun places low nonempty near => ?_, fun first second apart => ?_⟩
  · rw [isValid_flip_eq_false_iff valid]
    exact fun multiple => Nat.not_even_iff_odd.2 odd (even_card_of_dvd multiple)
  · rw [isValid_flip_eq_false_iff valid]
    exact not_dvd_of_near nonempty near
  · rw [isValid_flip_iff valid]
    exact generator_dvd_pair_iff apart

/-- The word of the inquiry code with one bit changed, with both ends of 34 bits, and with
both ends of the whole. -/
theorem flips_are_detected_inquiry :
    let word := ofLap 0x9e8b33
    word.isValid = true ∧ (word.flip {17}).isValid = false ∧
      (word.flip {30, 63}).isValid = false ∧ (word.flip {0, 63}).isValid = true := by
  intro word
  have valid : word.isValid = true := isValid_ofLap 0x9e8b33
  obtain ⟨odd, near, pair⟩ := flips_are_detected valid
  refine ⟨valid, odd {17} odd_one, near {30, 63} 30 ⟨30, by decide⟩ (by decide), ?_⟩
  exact (pair 0 63 (by decide)).2 ⟨rfl, rfl⟩

end SyncWord

end Piconet
