import Mathlib.GroupTheory.OrderOfElement
import Piconet.Proofs.Coding.CodeWord

/-!
# Powers of a root

In a field of characteristic two, let `root` satisfy `root ^ 6 = root + 1`.  Its
powers are sums of the first six, so that a word of six bits can stand for each
of them, and a power is reached by shifting such a word and reducing it.  The
root has order 63, and the generator of the sync words vanishes on thirteen
consecutive powers of it.
-/

namespace Piconet.RootPowers

open BinaryPolynomial Polynomial

/-- Multiplication with the root, on the six bits that stand for an element. -/
def timesRoot (word : BitVec 6) : BitVec 6 :=
  (word <<< 1) ^^^ (if word.msb then 3#6 else 0#6)

def timesPower : (exponent : Nat) → (word : BitVec 6) → BitVec 6
  | 0, word => word
  | exponent + 1, word => timesRoot (timesPower exponent word)

/-- The value, at a power of the root, of the polynomial with the given bits, the lowest first. -/
def evaluate (exponent : Nat) : List Bool → BitVec 6
  | [] => 0#6
  | bit :: rest => timesPower exponent (evaluate exponent rest) ^^^ (if bit then 1#6 else 0#6)

def bitList (word : BitVec 64) : List Bool :=
  (List.range 64).map word.getLsbD

theorem evaluate_generator :
    ∀ exponent < 13, evaluate exponent (bitList SyncWord.generator) = 0#6 := by
  decide +kernel

theorem timesPower_63 : timesPower 63 1#6 = 1#6 := by
  decide +kernel

theorem timesPower_21 : timesPower 21 1#6 ^^^ 1#6 = timesPower 42 1#6 := by
  decide +kernel

theorem timesPower_9 : timesPower 9 1#6 ^^^ 1#6 = timesPower 45 1#6 := by
  decide +kernel

/-! ## The elements that words stand for -/

section Field

variable {Element : Type*} [Field Element] [Algebra (ZMod 2) Element]

noncomputable def element (root : Element) (word : BitVec 6) : Element :=
  aeval root (toPolynomial word)

variable (root : Element)

@[simp] theorem element_zero : element root 0#6 = 0 := by
  rw [element, toPolynomial_zero, map_zero]

@[simp] theorem element_one : element root 1#6 = 1 := by
  simp [element, toPolynomial]

@[simp] theorem element_xor (first second : BitVec 6) :
    element root (first ^^^ second) = element root first + element root second := by
  rw [element, toPolynomial_xor, map_add]
  rfl

theorem one_add_one : (1 : Element) + 1 = 0 := by
  have doubled := element_xor (1 : Element) 1#6 1#6
  rw [BitVec.xor_self, element_one] at doubled
  exact doubled.symm.trans (element_zero 1)

variable {root} (isRoot : root ^ 6 = root + 1)
include isRoot

omit [Algebra (ZMod 2) Element] in
theorem root_ne_zero : root ≠ 0 := by
  rintro rfl
  simp at isRoot

theorem element_timesRoot (word : BitVec 6) :
    element root (timesRoot word) = root * element root word := by
  have shifted := congrArg (aeval root) (toPolynomial_shiftLeft_one word)
  have reduced : element root (if word.msb then 3#6 else 0#6) =
      aeval root (if word.msb then (X : (ZMod 2)[X]) ^ 6 else 0) := by
    cases word.msb with
    | false => simp
    | true => simp [element, toPolynomial, Finset.sum_range_succ, isRoot, add_comm]
  rw [timesRoot, element_xor, reduced, element, ← map_add, shifted, map_mul, aeval_X, element]

theorem element_timesPower (exponent : Nat) (word : BitVec 6) :
    element root (timesPower exponent word) = root ^ exponent * element root word := by
  induction exponent with
  | zero => rw [timesPower, pow_zero, one_mul]
  | succ exponent ih =>
      rw [timesPower, element_timesRoot isRoot, ih, pow_succ', mul_assoc]

theorem element_evaluate (exponent : Nat) (bits : List Bool) :
    element root (evaluate exponent bits) =
      ∑ place ∈ Finset.range bits.length,
        if (bits[place]?).getD false then (root ^ exponent) ^ place else 0 := by
  induction bits with
  | nil => simp [evaluate]
  | cons bit rest ih =>
      have constant : element root (if bit then 1#6 else 0#6) = if bit then 1 else 0 := by
        cases bit <;> simp
      rw [evaluate, element_xor, element_timesPower isRoot, ih, constant, List.length_cons,
        Finset.sum_range_succ', Finset.mul_sum]
      simp [pow_succ']

/-- The value of a word at a power of the root, computed on words of six bits. -/
theorem aeval_toPolynomial (exponent : Nat) (word : BitVec 64) :
    aeval (root ^ exponent) (toPolynomial word) =
      element root (evaluate exponent (bitList word)) := by
  rw [element_evaluate isRoot, toPolynomial, map_sum, bitList, List.length_map,
    List.length_range]
  refine Finset.sum_congr rfl fun place inside => ?_
  rw [List.getElem?_map, List.getElem?_range (Finset.mem_range.mp inside), Option.map_some,
    Option.getD_some]
  cases word.getLsbD place <;> simp

/-- The generator vanishes on thirteen consecutive powers of the root. -/
theorem aeval_generator {exponent : Nat} (below : exponent < 13) :
    aeval (root ^ exponent) (toPolynomial SyncWord.generator) = 0 := by
  rw [aeval_toPolynomial isRoot, evaluate_generator exponent below, element_zero]

/-! ## The order of the root -/

theorem element_timesPower_one (exponent : Nat) :
    element root (timesPower exponent 1#6) = root ^ exponent := by
  rw [element_timesPower isRoot, element_one, mul_one]

/-- A power that differs from one by another power is not one. -/
theorem pow_ne_one {exponent other : Nat}
    (sum : timesPower exponent 1#6 ^^^ 1#6 = timesPower other 1#6) : root ^ exponent ≠ 1 := by
  intro isOne
  have value := congrArg (element root) sum
  rw [element_xor, element_timesPower_one isRoot, element_timesPower_one isRoot, element_one,
    isOne, one_add_one] at value
  exact pow_ne_zero other (root_ne_zero isRoot) value.symm

theorem orderOf_root : orderOf root = 63 := by
  apply orderOf_eq_of_pow_and_pow_div_prime (by decide)
  · rw [← element_timesPower_one isRoot, timesPower_63, element_one]
  · intro prime isPrime divides
    have factors : prime = 3 ∨ prime = 7 := by
      have split : prime ∣ 3 * (3 * 7) := divides
      rw [isPrime.dvd_mul, isPrime.dvd_mul, Nat.prime_dvd_prime_iff_eq isPrime Nat.prime_three,
        Nat.prime_dvd_prime_iff_eq isPrime (by decide)] at split
      omega
    rcases factors with rfl | rfl
    · exact pow_ne_one isRoot timesPower_21
    · exact pow_ne_one isRoot timesPower_9

end Field

end Piconet.RootPowers
