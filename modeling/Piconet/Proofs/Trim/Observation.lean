import Mathlib.Algebra.Group.Nat.Defs
import Mathlib.Algebra.Ring.Int.Defs
import Piconet.TrimLoop

/-!
# What one observation does

A loop is due for a trim as long as it has not been calibrated, and once its
count has passed the threshold.  One observation of a loop that is due trims;
of the others, one inside the dead band settles the loop and one outside of it
is counted by its sign.
-/

namespace Piconet.TrimLoop

def Due (loop : TrimLoop) : Prop :=
  loop.calibrated = false ∨ loop.tuning.threshold.toInt < loop.count.toInt.natAbs

instance (loop : TrimLoop) : Decidable loop.Due :=
  inferInstanceAs (Decidable (_ ∨ _))

theorem due_iff_of_isDue {loop : TrimLoop} {due : Bool} (done : loop.isDue = .ok due) :
    due = true ↔ loop.Due := by
  unfold isDue at done
  cases calibrated : loop.calibrated with
  | false =>
      simp only [calibrated, Bool.false_eq_true, if_false] at done
      cases done
      exact ⟨fun _ => .inl calibrated, fun _ => rfl⟩
  | true =>
      simp only [calibrated, if_true] at done
      rw [Overflow.bind_eq_ok_iff] at done
      obtain ⟨magnitude, measured, same⟩ := done
      cases same
      have value := Overflow.guard32_eq_ok_iff.1 measured
      rw [decide_eq_true_iff, Int32.lt_iff_toInt_lt, value]
      constructor
      · exact .inr
      · rintro (uncalibrated | above)
        · exact absurd (uncalibrated.symm.trans calibrated) Bool.false_ne_true
        · exact above

/-- A count that has a magnitude can be held against the threshold. -/
theorem exists_isDue {loop : TrimLoop} (inside : loop.count.toInt.natAbs < 2 ^ 31) :
    ∃ due, loop.isDue = .ok due := by
  unfold isDue
  split
  · have fits : Overflow.Fits32 loop.count.toInt.natAbs := by
      constructor
      · omega
      · omega
    obtain ⟨magnitude, measured, -⟩ := @Overflow.guard32_toInt .negate _ fits
    exact ⟨_, Overflow.bind_eq_ok_iff.2 ⟨magnitude, measured, rfl⟩⟩
  · exact ⟨true, rfl⟩

theorem toInt_ofInt_sign (error : Int) : (Int32.ofInt error.sign).toInt = error.sign := by
  obtain positive | zero | negative := Int.sign_trichotomy error
  · rw [positive]
    rfl
  · rw [zero]
    rfl
  · rw [negative]
    rfl

def trimmed (loop : TrimLoop) (clock : UInt32) : TrimLoop :=
  { loop with count := 0, calibrated := true, trimmedAt := clock }

def counting (loop : TrimLoop) (count : Int32) : TrimLoop :=
  { loop with count }

/-- Where the error is known and the count has been held against the threshold. -/
theorem observe_eq {loop : TrimLoop} {phase : UInt32} {error : Int} {due : Bool} (clock : UInt32)
    (measured : loop.tuning.error phase = .ok error) (decided : loop.isDue = .ok due) :
    loop.observe phase clock =
      if due = true then .ok (loop.trim error clock)
      else if error.natAbs ≤ loop.tuning.band.toInt then .ok (loop.counting 0, .stable)
      else do
        let count ← Overflow.add32 loop.count (Int32.ofInt error.sign)
        return (loop.counting count, .pending count) := by
  rw [observe, measured, decided]
  rfl

/-- Everything that one observation can do. -/
theorem observe_cases {loop next : TrimLoop} {phase clock : UInt32} {decision : TrimDecision}
    (done : loop.observe phase clock = .ok (next, decision)) :
    ∃ error, loop.tuning.error phase = .ok error ∧
      ((loop.Due ∧ next = loop.trimmed clock ∧
          decision = .trim (UInt16.ofNat (error % 6250).toNat) (loop.drift error clock)) ∨
        (¬loop.Due ∧ error.natAbs ≤ loop.tuning.band.toInt ∧ next = loop.counting 0 ∧
          decision = .stable) ∨
        (¬loop.Due ∧ loop.tuning.band.toInt < error.natAbs ∧ ∃ count : Int32,
          count.toInt = loop.count.toInt + error.sign ∧ next = loop.counting count ∧
            decision = .pending count)) := by
  obtain ⟨error, measured, rest⟩ := Overflow.bind_eq_ok_iff.1 done
  obtain ⟨due, decided, -⟩ := Overflow.bind_eq_ok_iff.1 rest
  have means := due_iff_of_isDue decided
  rw [observe_eq clock measured decided] at done
  refine ⟨error, measured, ?_⟩
  cases due with
  | true =>
      cases done
      exact .inl ⟨means.1 rfl, rfl, rfl⟩
  | false =>
      have waits : ¬loop.Due := fun due => Bool.false_ne_true (means.2 due)
      rw [if_neg Bool.false_ne_true] at done
      split at done
      · rename_i near
        cases done
        exact .inr (.inl ⟨waits, near, rfl, rfl⟩)
      · rename_i far
        obtain ⟨count, counted, same⟩ := Overflow.bind_eq_ok_iff.1 done
        cases same
        have value := Overflow.guard32_eq_ok_iff.1 counted
        rw [toInt_ofInt_sign] at value
        exact .inr (.inr ⟨waits, Int.not_le.1 far, count, value, rfl, rfl⟩)

/-- The first trim has no earlier one to estimate a drift from. -/
theorem exists_trim_of_uncalibrated {loop next : TrimLoop} {phase clock : UInt32}
    {decision : TrimDecision} (fresh : loop.calibrated = false)
    (done : loop.observe phase clock = .ok (next, decision)) :
    ∃ offset, decision = .trim offset none := by
  obtain ⟨error, -, ⟨-, -, rfl⟩ | ⟨waits, -⟩ | ⟨waits, -⟩⟩ := observe_cases done
  · rw [drift, fresh]
    exact ⟨_, rfl⟩
  · exact absurd (.inl fresh) waits
  · exact absurd (.inl fresh) waits

/--
A count that has gone one beyond the threshold at most neither overflows nor
lacks a magnitude, as long as the threshold is not the greatest word there is.
-/
theorem exists_observe {loop : TrimLoop} {phase : UInt32} {error : Int} (clock : UInt32)
    (measured : loop.tuning.error phase = .ok error)
    (low : loop.tuning.threshold.toInt < 2 ^ 31 - 1)
    (inside : loop.count.toInt.natAbs ≤ max (loop.tuning.threshold.toInt + 1) 0) :
    ∃ next decision, loop.observe phase clock = .ok (next, decision) := by
  obtain ⟨due, decided⟩ : ∃ due, loop.isDue = .ok due := exists_isDue (by omega)
  rw [observe_eq clock measured decided]
  cases due with
  | true => exact ⟨_, _, rfl⟩
  | false =>
      have waits : ¬loop.Due := fun due => Bool.false_ne_true ((due_iff_of_isDue decided).2 due)
      have below : ¬loop.tuning.threshold.toInt < loop.count.toInt.natAbs :=
        fun above => waits (.inr above)
      rw [if_neg Bool.false_ne_true]
      split
      · exact ⟨_, _, rfl⟩
      · have step := Int.sign_trichotomy error
        have fits : Overflow.Fits32 (loop.count.toInt + (Int32.ofInt error.sign).toInt) := by
          rw [toInt_ofInt_sign, Overflow.Fits32]
          omega
        obtain ⟨count, counted, -⟩ := @Overflow.guard32_toInt .add _ fits
        exact ⟨_, _, Overflow.bind_eq_ok_iff.2 ⟨count, counted, rfl⟩⟩

/-- Only a loop within its threshold counts, so that the count goes one beyond it at most. -/
theorem natAbs_count_le_of_observe {loop next : TrimLoop} {phase clock : UInt32} {decision : TrimDecision}
    (done : loop.observe phase clock = .ok (next, decision)) :
    next.count.toInt.natAbs ≤ max (next.tuning.threshold.toInt + 1) 0 := by
  obtain ⟨error, -, ⟨-, rfl, -⟩ | ⟨-, -, rfl, -⟩ | ⟨waits, -, count, value, rfl, -⟩⟩ :=
    observe_cases done
  · exact Int.le_max_right _ _
  · exact Int.le_max_right _ _
  · have step := Int.sign_trichotomy error
    have below : ¬loop.tuning.threshold.toInt < loop.count.toInt.natAbs :=
      fun above => waits (.inr above)
    change (count.toInt.natAbs : Int) ≤ max (loop.tuning.threshold.toInt + 1) 0
    rw [value]
    omega

/-- What a decision says of the loop and the error that it answers. -/
structure Decides (loop : TrimLoop) (error : Int) (decision : TrimDecision) : Prop where
  trim : decision.isTrim = true ↔
    loop.calibrated = false ∨ loop.tuning.threshold.toInt < loop.count.toInt.natAbs
  stable : decision.isTrim = false →
    (decision = .stable ↔ error.natAbs ≤ loop.tuning.band.toInt)
  pending : decision.isTrim = false → ∀ count, decision = .pending count ↔
    ¬error.natAbs ≤ loop.tuning.band.toInt ∧ count.toInt = loop.count.toInt + error.sign

theorem decides_of_observe {loop next : TrimLoop} {phase clock : UInt32} {error : Int}
    {decision : TrimDecision} (measured : loop.tuning.error phase = .ok error)
    (done : loop.observe phase clock = .ok (next, decision)) : loop.Decides error decision := by
  obtain ⟨other, same, cases⟩ := observe_cases done
  obtain rfl := Except.ok.inj (measured.symm.trans same)
  rcases cases with ⟨due, -, rfl⟩ | ⟨waits, near, -, rfl⟩ | ⟨waits, far, count, value, -, rfl⟩
  · exact ⟨iff_of_true rfl due, nofun, nofun⟩
  · refine ⟨iff_of_false Bool.false_ne_true waits, fun _ => iff_of_true rfl near, ?_⟩
    intro _ count
    exact iff_of_false nofun fun far => far.1 near
  · refine ⟨iff_of_false Bool.false_ne_true waits, ?_, ?_⟩
    · exact fun _ => iff_of_false nofun (Int.not_le.2 far)
    · intro _ other
      constructor
      · intro same
        cases same
        exact ⟨Int.not_le.2 far, value⟩
      · rintro ⟨-, again⟩
        rw [Int32.toInt_inj.1 (again.trans value.symm)]

end Piconet.TrimLoop
