import Piconet.Proofs.Coding.Product
import Piconet.SyncWord

/-!
# Long division in machine words

A round of the division finds the leading ones of the dividend and of the divisor
by counting the zeros in front of them, moves the divisor up by the difference, and
adds it.  A difference below zero, a shift by the width of a word or more, and a one
that is moved out of the word would each spoil it.  None of them occurs where the
divisor is not zero.  Each round removes the leading one of the dividend and changes
nothing above it; the division therefore ends, with the one word that lies below the
divisor and differs from the dividend by a multiple of it.
-/

namespace Piconet.BinaryPolynomial

/-- Zero, or a word whose leading one stands below a place. -/
def IsBelow (bound : Nat) (word : BitVec 64) : Prop :=
  word = 0 ∨ degree word < bound

instance (bound : Nat) (word : BitVec 64) : Decidable (IsBelow bound word) :=
  inferInstanceAs (Decidable (_ ∨ _))

/-- What can spoil a division, or stop it before it has ended. -/
inductive DivisionFault where
  | overflow
  | lostTerm
  | unfinished
  deriving DecidableEq, Repr

def subtract (first second : Nat) : Except DivisionFault Nat :=
  if second ≤ first then .ok (first - second) else .error .overflow

def leadingPlace (word : BitVec 64) : Except DivisionFault Nat :=
  subtract 63 word.clz.toNat

/-- A word moved up; moving it down again must bring all of its ones back. -/
def moveUp (word : BitVec 64) (places : Nat) : Except DivisionFault (BitVec 64) :=
  if 64 ≤ places then .error .overflow
  else if word <<< places >>> places = word then .ok (word <<< places)
  else .error .lostTerm

/-- What a round leaves of the dividend, or nothing where the division has ended. -/
def round (divisor : BitVec 64) (lead : Nat) (dividend : BitVec 64) :
    Except DivisionFault (Option (BitVec 64)) := do
  if dividend = 0 then return none
  let top ← leadingPlace dividend
  if top < lead then return none
  let places ← subtract top lead
  let moved ← moveUp divisor places
  return some (dividend ^^^ moved)

/-- The rounds of a division; the last one that is allowed must find that it has ended. -/
def rounds (divisor : BitVec 64) (lead : Nat) :
    (limit : Nat) → (dividend : BitVec 64) → Except DivisionFault (BitVec 64)
  | 0, _ => .error .unfinished
  | limit + 1, dividend => do
      match ← round divisor lead dividend with
      | none => return dividend
      | some rest => rounds divisor lead limit rest

/-- A division that must end within a number of rounds. -/
def divide (limit : Nat) (dividend divisor : BitVec 64) : Except DivisionFault (BitVec 64) := do
  let lead ← leadingPlace divisor
  rounds divisor lead limit dividend

/-! ## Leading ones -/

theorem isBelow_iff {bound : Nat} {word : BitVec 64} :
    IsBelow bound word ↔ ∀ place, bound ≤ place → word.getLsbD place = false := by
  constructor
  · rintro (rfl | low) place above
    · exact BitVec.getLsbD_zero
    · exact getLsbD_of_degree_lt (Nat.lt_of_lt_of_le low above)
  · intro clear
    by_contra high
    rw [IsBelow, not_or, Nat.not_lt] at high
    have leading := getLsbD_degree high.1
    rw [clear _ high.2] at leading
    exact Bool.false_ne_true leading

theorem leadingPlace_eq_ok {word : BitVec 64} (nonzero : word ≠ 0) :
    leadingPlace word = .ok (degree word) := by
  have zeros : word.clz.toNat < 64 := BitVec.lt_def.1 (BitVec.clz_lt_iff_ne_zero.2 nonzero)
  have lower : 2 ^ (63 - word.clz.toNat) ≤ word.toNat :=
    BitVec.two_pow_sub_clz_le_toNat_of_ne_zero (by decide) nonzero
  have upper : word.toNat < 2 ^ (64 - word.clz.toNat) := BitVec.toNat_lt_two_pow_sub_clz
  have place : degree word = 63 - word.clz.toNat := by
    refine (Nat.log2_eq_iff (BitVec.toNat_ne.1 nonzero)).2 ⟨lower, ?_⟩
    rwa [show 63 - word.clz.toNat + 1 = 64 - word.clz.toNat by omega]
  rw [leadingPlace, subtract, if_pos (by omega), place]

/-! ## One round -/

section Round

variable {dividend divisor : BitVec 64}

/-- Moving the divisor up under the leading one of a dividend drops none of its ones. -/
theorem aligned_shiftRight (smaller : degree divisor ≤ degree dividend) :
    aligned dividend divisor >>> (degree dividend - degree divisor) = divisor := by
  apply BitVec.eq_of_toNat_eq
  rw [BitVec.toNat_ushiftRight, toNat_aligned smaller, Nat.shiftLeft_shiftRight]

theorem moveUp_eq_ok (smaller : degree divisor ≤ degree dividend) :
    moveUp divisor (degree dividend - degree divisor) = .ok (aligned dividend divisor) := by
  have high := degree_lt dividend
  rw [moveUp, if_neg (by omega)]
  exact if_pos (aligned_shiftRight smaller)

/-- Adding the divisor removes the leading one of the dividend and changes nothing above it. -/
theorem isBelow_xor_aligned (nonzero : divisor ≠ 0) (positive : dividend ≠ 0)
    (smaller : degree divisor ≤ degree dividend) :
    IsBelow (degree dividend) (dividend ^^^ aligned dividend divisor) := by
  rw [isBelow_iff]
  intro place above
  have moved : (aligned dividend divisor).getLsbD place =
      divisor.getLsbD (place - (degree dividend - degree divisor)) := by
    rw [BitVec.getLsbD, toNat_aligned smaller, Nat.testBit_shiftLeft, decide_eq_true (by omega),
      Bool.true_and]
    rfl
  rw [BitVec.getLsbD_xor, moved]
  rcases Nat.eq_or_lt_of_le above with rfl | higher
  · rw [Nat.sub_sub_self smaller, getLsbD_degree positive, getLsbD_degree nonzero, Bool.xor_self]
  · rw [getLsbD_of_degree_lt higher, getLsbD_of_degree_lt (by omega), Bool.xor_self]

/-- A dividend below the divisor is what the division ends with. -/
theorem round_of_isBelow (below : IsBelow (degree divisor) dividend) :
    round divisor (degree divisor) dividend = .ok none := by
  by_cases zero : dividend = 0
  · rw [round, if_pos zero]
    rfl
  · rw [round, if_neg zero, leadingPlace_eq_ok zero]
    exact if_pos (below.resolve_left zero)

/-- Any other dividend has the aligned divisor added to it. -/
theorem round_of_not_isBelow (above : ¬IsBelow (degree divisor) dividend) :
    round divisor (degree divisor) dividend =
      .ok (some (dividend ^^^ aligned dividend divisor)) := by
  rw [IsBelow, not_or, Nat.not_lt] at above
  have difference : subtract (degree dividend) (degree divisor) =
      .ok (degree dividend - degree divisor) := if_pos above.2
  rw [round, if_neg above.1, leadingPlace_eq_ok above.1]
  change (if degree dividend < degree divisor then _ else _) = _
  rw [if_neg (Nat.not_lt.2 above.2), difference]
  change (moveUp _ _ >>= _) = _
  rw [moveUp_eq_ok above.2]
  rfl

end Round

/-! ## All rounds -/

theorem remainder_of_isBelow {dividend divisor : BitVec 64}
    (below : IsBelow (degree divisor) dividend) : remainder dividend divisor = dividend := by
  rw [remainder, dif_neg]
  rintro ⟨-, positive, smaller⟩
  exact absurd (below.resolve_left positive) (Nat.not_lt.2 smaller)

theorem remainder_of_not_isBelow {dividend divisor : BitVec 64} (nonzero : divisor ≠ 0)
    (above : ¬IsBelow (degree divisor) dividend) :
    remainder dividend divisor = remainder (dividend ^^^ aligned dividend divisor) divisor := by
  rw [IsBelow, not_or, Nat.not_lt] at above
  rw [remainder, dif_pos ⟨nonzero, above⟩]

/-- With its leading one among the next places from that of the divisor on, a dividend takes a
round for each of them at most, and one more to find that the division has ended. -/
theorem rounds_eq_ok {divisor : BitVec 64} (nonzero : divisor ≠ 0) (limit : Nat)
    {dividend : BitVec 64} (enough : IsBelow (degree divisor + limit) dividend) :
    rounds divisor (degree divisor) (limit + 1) dividend = .ok (remainder dividend divisor) := by
  induction limit generalizing dividend with
  | zero =>
      rw [rounds, round_of_isBelow enough, remainder_of_isBelow enough]
      rfl
  | succ limit ih =>
      by_cases below : IsBelow (degree divisor) dividend
      · rw [rounds, round_of_isBelow below, remainder_of_isBelow below]
        rfl
      · have fewer : IsBelow (degree divisor + limit) (dividend ^^^ aligned dividend divisor) := by
          have ⟨positive, smaller⟩ := not_or.1 below
          have lowered := isBelow_xor_aligned nonzero positive (Nat.not_lt.1 smaller)
          have bound := enough.resolve_left positive
          exact lowered.imp_right fun low => by omega
        rw [rounds, round_of_not_isBelow below, remainder_of_not_isBelow nonzero below]
        exact ih fewer

theorem divide_eq_ok {divisor : BitVec 64} (nonzero : divisor ≠ 0) {dividend : BitVec 64}
    {limit : Nat} (enough : degree dividend + 1 - degree divisor < limit) :
    divide limit dividend divisor = .ok (remainder dividend divisor) := by
  obtain ⟨fewer, rfl⟩ := Nat.exists_eq_succ_of_ne_zero (Nat.ne_zero_of_lt enough)
  rw [divide, leadingPlace_eq_ok nonzero]
  exact rounds_eq_ok nonzero fewer (Or.inr (by omega))

/-! ## The remainder -/

/-- The remainder is the word below the divisor that differs from the dividend by a multiple. -/
theorem eq_remainder_iff {divisor : BitVec 64} (nonzero : divisor ≠ 0) {dividend word : BitVec 64} :
    word = remainder dividend divisor ↔
      IsBelow (degree divisor) word ∧ IsMultiple divisor (dividend ^^^ word) := by
  have clear (place : Nat) (above : degree divisor ≤ place) :
      (remainder dividend divisor).getLsbD place = false :=
    getLsbD_remainder_of_ge dividend nonzero above
  have multiple := dvd_toPolynomial_xor_remainder dividend divisor
  rw [isBelow_iff, isMultiple_iff]
  constructor
  · rintro rfl
    exact ⟨clear, multiple⟩
  · rintro ⟨low, other⟩
    rw [BitVec.xor_comm] at other
    exact eq_of_dvd_toPolynomial_xor nonzero (dvd_toPolynomial_xor_trans other multiple)
      fun place above => by rw [low place above, clear place above]

/--
Division by a word other than zero ends.  A round for each place from the leading one of
the divisor up to that of the dividend is enough, with one more to find the end; nothing
overflows in them, and each time the divisor is moved up, moving it down again brings all
of it back.  What is left is zero or has its leading one below that of the divisor, and
differs from the dividend by a multiple of the divisor; no other word does.  The remainder
of a sum is therefore the sum of the remainders.
-/
theorem division_ends_in_remainder {divisor : BitVec 64} (nonzero : divisor ≠ 0) :
    (∀ (dividend : BitVec 64) (limit : Nat), degree dividend + 1 - degree divisor < limit →
      divide limit dividend divisor = .ok (remainder dividend divisor)) ∧
    (∀ dividend : BitVec 64, degree divisor ≤ degree dividend →
      aligned dividend divisor >>> (degree dividend - degree divisor) = divisor) ∧
    (∀ dividend word : BitVec 64, word = remainder dividend divisor ↔
      (word = 0 ∨ degree word < degree divisor) ∧ IsMultiple divisor (dividend ^^^ word)) ∧
    ∀ first second : BitVec 64, remainder (first ^^^ second) divisor =
      remainder first divisor ^^^ remainder second divisor :=
  ⟨fun _ _ enough => divide_eq_ok nonzero enough, fun _ smaller => aligned_shiftRight smaller,
    fun _ _ => eq_remainder_iff nonzero, fun first second => remainder_xor first second divisor⟩

/-- The top bit alone is divided by the generator in no more than 31 rounds, and leaves one. -/
theorem division_ends_in_remainder_top :
    let top : BitVec 64 := 0x8000000000000000
    SyncWord.generator ≠ 0 ∧ degree top + 1 - degree SyncWord.generator < 31 ∧
      divide 31 top SyncWord.generator = .ok 1 ∧ degree SyncWord.generator ≤ degree top ∧
      aligned top SyncWord.generator >>> (degree top - degree SyncWord.generator) =
        SyncWord.generator ∧
      IsMultiple SyncWord.generator (top ^^^ 1) := by
  intro top
  have nonzero : SyncWord.generator ≠ 0 := by decide
  have enough : degree top + 1 - degree SyncWord.generator < 31 := by decide
  have smaller : degree SyncWord.generator ≤ degree top := by decide
  have value : 1 = remainder top SyncWord.generator := by decide +kernel
  obtain ⟨ends, whole, unique, -⟩ := division_ends_in_remainder nonzero
  exact ⟨nonzero, enough, value ▸ ends top 31 enough, smaller, whole top smaller,
    ((unique top 1).1 value).2⟩

end Piconet.BinaryPolynomial
