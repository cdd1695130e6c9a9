import Mathlib.FieldTheory.IsAlgClosed.AlgebraicClosure
import Mathlib.LinearAlgebra.Vandermonde
import Piconet.Proofs.Coding.RootPowers
import Piconet.Proofs.Correlation

/-!
# How far sync words are apart

A word on which thirteen consecutive powers of a root vanish gives thirteen
linear equations between the powers at its ones.  Their matrix is a Vandermonde
matrix, so that fewer than fourteen ones admit only the zero solution.  The
sync words of two address parts differ by a multiple of the generator, which is
such a word, and correlators that tolerate few errors can tell them apart.
-/

namespace Piconet

open BinaryPolynomial Polynomial RootPowers

/--
Distinct powers whose first power sums vanish are more than those sums: the
equations on fewer of them form a square Vandermonde system.
-/
theorem card_gt_of_power_sums_eq_zero {Element : Type*} [Field Element] (root : Element)
    {places : Finset Nat} (count : Nat) (distinct : ∀ place ∈ places, place < orderOf root)
    (nonempty : places.Nonempty)
    (vanish : ∀ exponent < count, ∑ place ∈ places, (root ^ exponent) ^ place = 0) :
    count < places.card := by
  by_contra few
  let node : Fin places.card → Element := fun index => root ^ (places.equivFin.symm index : Nat)
  have nodeInjective : Function.Injective node := by
    intro first second same
    apply places.equivFin.symm.injective
    apply Subtype.ext
    exact pow_injOn_Iio_orderOf (distinct _ (places.equivFin.symm first).2)
      (distinct _ (places.equivFin.symm second).2) same
  have equations (exponent : Fin places.card) :
      ∑ index, (1 : Element) * node index ^ (exponent : Nat) = 0 := by
    rw [← vanish exponent (by omega), ← Finset.sum_coe_sort places,
      ← Equiv.sum_comp places.equivFin.symm]
    refine Finset.sum_congr rfl fun index _ => ?_
    rw [one_mul, ← pow_mul, ← pow_mul, Nat.mul_comm]
  have solution : (fun _ : Fin places.card => (1 : Element)) = 0 :=
    Matrix.eq_zero_of_forall_pow_sum_mul_pow_eq_zero nodeInjective equations
  exact one_ne_zero (congrFun solution ⟨0, nonempty.card_pos⟩)

def support (word : BitVec 64) : Finset Nat :=
  {place ∈ Finset.range 64 | word.getLsbD place}

theorem mem_support {word : BitVec 64} {place : Nat} :
    place ∈ support word ↔ word.getLsbD place = true := by
  simp only [support, Finset.mem_filter, Finset.mem_range, and_iff_right_iff_imp]
  exact BitVec.lt_of_getLsbD

theorem aeval_eq_sum_support {Element : Type*} [Field Element] [Algebra (ZMod 2) Element]
    (value : Element) (word : BitVec 64) :
    aeval value (toPolynomial word) = ∑ place ∈ support word, value ^ place := by
  rw [toPolynomial, map_sum, support, Finset.sum_filter]
  refine Finset.sum_congr rfl fun place _ => ?_
  cases word.getLsbD place <;> simp

theorem card_support_xor (first second : BitVec 64) :
    (support (first ^^^ second)).card = hammingDist (bitsOf first) (bitsOf second) := by
  symm
  refine Finset.card_bij (fun place _ => place.val) ?_ ?_ ?_
  · intro place differ
    rw [Finset.mem_filter] at differ
    rw [mem_support, BitVec.getLsbD_xor, Bool.xor_iff_ne]
    exact differ.2
  · intro place _ other _ same
    exact Fin.ext same
  · intro place one
    rw [mem_support] at one
    refine ⟨⟨place, BitVec.lt_of_getLsbD one⟩, ?_, rfl⟩
    rw [BitVec.getLsbD_xor, Bool.xor_iff_ne] at one
    rw [Finset.mem_filter]
    exact ⟨Finset.mem_univ _, one⟩

/-! ## Words on which the powers of the root vanish -/

section Weight

variable {Element : Type*} [Field Element] [Algebra (ZMod 2) Element] {root : Element}

/-- With places below the order of the root only, such a word has fourteen ones. -/
theorem fourteen_le_card_support_of_short (isRoot : root ^ 6 = root + 1) {word : BitVec 64}
    (vanish : ∀ exponent < 13, aeval (root ^ exponent) (toPolynomial word) = 0)
    (short : word.getLsbD 63 = false) (nonempty : (support word).Nonempty) :
    14 ≤ (support word).card := by
  apply card_gt_of_power_sums_eq_zero root 13
  · intro place one
    rw [mem_support] at one
    have inside := BitVec.lt_of_getLsbD one
    have other : place ≠ 63 := by
      rintro rfl
      rw [one] at short
      exact absurd short (by decide)
    rw [orderOf_root isRoot]
    omega
  · exact nonempty
  · intro exponent below
    rw [← aeval_eq_sum_support]
    exact vanish exponent below

/-- The ones at both ends, which no power of the root tells apart. -/
def ends : BitVec 64 := 0x8000000000000001

theorem support_ends : support ends = {0, 63} := by
  decide

theorem aeval_ends (isRoot : root ^ 6 = root + 1) (exponent : Nat) :
    aeval (root ^ exponent) (toPolynomial ends) = 0 := by
  rw [aeval_eq_sum_support, support_ends, Finset.sum_pair (by decide), pow_zero, ← pow_mul,
    Nat.mul_comm, pow_mul, ← orderOf_root isRoot, pow_orderOf_eq_one, one_pow, one_add_one]

/--
A last one may be moved to the first place, where it meets or cancels the one
there: the word gets no more ones, and the powers of the root still vanish.
-/
theorem fourteen_le_card_support (isRoot : root ^ 6 = root + 1) {word : BitVec 64}
    (vanish : ∀ exponent < 13, aeval (root ^ exponent) (toPolynomial word) = 0)
    {place : Nat} (inner : 0 < place ∧ place < 63) (one : word.getLsbD place = true) :
    14 ≤ (support word).card := by
  cases last : word.getLsbD 63 with
  | false =>
      exact fourteen_le_card_support_of_short isRoot vanish last ⟨place, mem_support.mpr one⟩
  | true =>
      have endBit (other : Nat) :
          ends.getLsbD other = true ↔ other = 0 ∨ other = 63 := by
        rw [← mem_support, support_ends]
        simp
      have moved : support (word ^^^ ends) ⊆ insert 0 ((support word).erase 63) := by
        intro other changed
        rw [mem_support, BitVec.getLsbD_xor, Bool.xor_iff_ne] at changed
        rw [Finset.mem_insert, Finset.mem_erase, mem_support]
        by_cases first : other = 0
        · exact Or.inl first
        by_cases final : other = 63
        · subst final
          rw [last, (endBit 63).mpr (Or.inr rfl)] at changed
          exact absurd rfl changed
        · have same : ends.getLsbD other = false := by
            rw [← Bool.not_eq_true, endBit]
            omega
          rw [same] at changed
          exact Or.inr ⟨final, by simpa using changed⟩
      have kept : place ∈ support (word ^^^ ends) := by
        have same : ends.getLsbD place = false := by
          rw [← Bool.not_eq_true, endBit]
          omega
        rw [mem_support, BitVec.getLsbD_xor, one, same]
        rfl
      have short : (word ^^^ ends).getLsbD 63 = false := by
        rw [BitVec.getLsbD_xor, last, (endBit 63).mpr (Or.inr rfl)]
        rfl
      have stillVanish (exponent : Nat) (below : exponent < 13) :
          aeval (root ^ exponent) (toPolynomial (word ^^^ ends)) = 0 := by
        rw [toPolynomial_xor, map_add, vanish exponent below, aeval_ends isRoot, add_zero]
      calc 14 ≤ (support (word ^^^ ends)).card :=
            fourteen_le_card_support_of_short isRoot stillVanish short ⟨place, kept⟩
        _ ≤ (insert 0 ((support word).erase 63)).card := Finset.card_le_card moved
        _ ≤ ((support word).erase 63).card + 1 := Finset.card_insert_le _ _
        _ = (support word).card :=
            Finset.card_erase_add_one (mem_support.mpr last)

end Weight

/-- The algebraic closure of the field of two elements has a root to work with. -/
theorem exists_root : ∃ root : AlgebraicClosure (ZMod 2), root ^ 6 = root + 1 := by
  have degree : (X ^ 6 + X + 1 : (AlgebraicClosure (ZMod 2))[X]).degree = 6 := by
    compute_degree!
  obtain ⟨root, zero⟩ := IsAlgClosed.exists_root
    (X ^ 6 + X + 1 : (AlgebraicClosure (ZMod 2))[X]) (by rw [degree]; decide)
  refine ⟨root, ?_⟩
  simp only [IsRoot.def, eval_add, eval_pow, eval_X, eval_one] at zero
  have twice : (1 : AlgebraicClosure (ZMod 2)) + 1 = 0 := one_add_one
  linear_combination zero - (root + 1) * twice

namespace SyncWord

/-- The sync words of different lower address parts have fourteen different bits. -/
theorem fourteen_le_hammingDist {first second : BitVec 24} (distinct : first ≠ second) :
    14 ≤ hammingDist (bitsOf (ofLap first).bits) (bitsOf (ofLap second).bits) := by
  obtain ⟨place, below, differ⟩ : ∃ place, place < 24 ∧
      first.getLsbD place ≠ second.getLsbD place := by
    by_contra same
    push Not at same
    exact distinct (BitVec.eq_of_getLsbD_eq same)
  have one : ((ofLap first).bits ^^^ (ofLap second).bits).getLsbD (34 + place) = true := by
    rw [BitVec.getLsbD_xor, getLsbD_ofLap first (by omega), getLsbD_ofLap second (by omega),
      BitVec.getLsbD_append, BitVec.getLsbD_append, if_pos below, if_pos below,
      Bool.xor_iff_ne]
    exact differ
  obtain ⟨root, isRoot⟩ := exists_root
  rw [← card_support_xor]
  refine fourteen_le_card_support isRoot (fun exponent small => ?_)
    (show 0 < 34 + place ∧ 34 + place < 63 by omega) one
  obtain ⟨quotient, multiple⟩ := generator_dvd_xor (isValid_ofLap first) (isValid_ofLap second)
  rw [multiple, map_mul, aeval_generator isRoot small, zero_mul]

/-- A window is at least as far from two words together as they are from each other. -/
theorem hammingDist_le_distanceAt_add (first second : SyncWord) (stream : List Bool)
    (offset : Nat) :
    hammingDist (bitsOf first.bits) (bitsOf second.bits) ≤
      first.distanceAt stream offset + second.distanceAt stream offset := by
  have code (word : SyncWord) (place : Fin 64) :
      word.symbols[(place : Nat)]? = some (bitsOf word.bits place) := by
    rw [symbols, List.getElem?_ofFn, dif_pos place.isLt]
    rfl
  simp only [distanceAt, code]
  rw [← hammingDist_comp (fun _ => some) (fun _ => Option.some_injective Bool)]
  exact hammingDist_triangle_left _ _ _

end SyncWord

/--
The sync words of different lower address parts differ in fourteen bits or
more, so that two correlators whose tolerances add up to at most fifteen never
both find their access code in one window.
-/
theorem correlators_never_both_accept (first second : BitVec 24) (distinct : first ≠ second) :
    14 ≤ hammingDist (bitsOf (SyncWord.ofLap first).bits)
      (bitsOf (SyncWord.ofLap second).bits) ∧
    ∀ (firstTolerance secondTolerance : Nat) (window : List UInt8),
      firstTolerance + secondTolerance ≤ 15 → window.length = 64 →
      (Correlator.mk (.ofLap first) firstTolerance).find? window = none ∨
        (Correlator.mk (.ofLap second) secondTolerance).find? window = none := by
  have apart := SyncWord.fourteen_le_hammingDist distinct
  refine ⟨apart, fun firstTolerance secondTolerance window small whole => ?_⟩
  have length : (window.map Symbols.bit).length = 64 := by
    rw [List.length_map, whole]
  cases one : (Correlator.mk (.ofLap first) firstTolerance).find? window with
  | none => exact Or.inl rfl
  | some found =>
      cases other : (Correlator.mk (.ofLap second) secondTolerance).find? window with
      | none => exact Or.inr rfl
      | some otherFound =>
          rw [Correlator.find?, Correlator.searchBits_eq_some_iff] at one other
          obtain ⟨⟨⟨fits, close⟩, -⟩, -⟩ := one
          obtain ⟨⟨⟨otherFits, otherClose⟩, -⟩, -⟩ := other
          have atStart : found.offset = 0 := by omega
          have otherAtStart : otherFound.offset = 0 := by omega
          rw [atStart] at close
          rw [otherAtStart] at otherClose
          dsimp only at close otherClose
          have bound := SyncWord.hammingDist_le_distanceAt_add (.ofLap first) (.ofLap second)
            (window.map Symbols.bit) 0
          omega

/-- A window that holds one sync word without errors is not taken for another one. -/
theorem correlators_never_both_accept_inquiry :
    let window := (SyncWord.ofLap 0x9e8b33).symbols.map fun bit => if bit then (1 : UInt8) else 0
    (0x9e8b33 : BitVec 24) ≠ 0x123456 ∧ 8 + 7 ≤ 15 ∧ window.length = 64 ∧
      ((Correlator.mk (.ofLap 0x9e8b33) 8).find? window = none ∨
        (Correlator.mk (.ofLap 0x123456) 7).find? window = none) := by
  intro window
  have whole : window.length = 64 := by
    rw [List.length_map, SyncWord.length_symbols]
  exact ⟨by decide, by decide, whole,
    (correlators_never_both_accept 0x9e8b33 0x123456 (by decide)).2 8 7 window (by decide) whole⟩

end Piconet
