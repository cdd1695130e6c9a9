import Piconet.Proofs.Trim.Error
import Piconet.Proofs.Trim.Observation

/-!
# How a trim cancels an error

A trim carries the error of its observation as a time within one slot.  A phase that is
moved back by it is on time, and a loop that has just trimmed leaves it at that.
-/

namespace Piconet

/-- The phase that is left of a phase when the clock is moved by a time within one slot. -/
def Clock.movedBack (phase : UInt32) (offset : UInt16) : UInt32 :=
  .ofNat ((phase.toNat % 6250 + 6250 - offset.toNat) % 6250)

theorem Clock.toNat_movedBack (phase : UInt32) (offset : UInt16) :
    (movedBack phase offset).toNat = (phase.toNat % 6250 + 6250 - offset.toNat) % 6250 :=
  UInt32.toNat_ofNat_of_lt' (Nat.lt_trans (Nat.mod_lt _ (by decide)) (by decide))

namespace TrimLoop

/-- The time within one slot by which a trim moves the clock. -/
theorem toNat_trimOffset (error : Int) :
    ((UInt16.ofNat (error % 6250).toNat).toNat : Int) = error % 6250 := by
  have below : (error % 6250).toNat < 6250 := by omega
  rw [UInt16.toNat_ofNat_of_lt' (Nat.lt_trans below (by decide))]
  exact Int.toNat_of_nonneg (Int.emod_nonneg _ (by decide))

/-- A trim is by the error of its observation, and leaves the loop calibrated and at rest. -/
theorem trim_of_observe {loop next : TrimLoop} {phase clock : UInt32} {offset : UInt16}
    {drift : Option Int16} (done : loop.observe phase clock = .ok (next, .trim offset drift)) :
    next = loop.trimmed clock ∧
      ∃ error, loop.tuning.error phase = .ok error ∧ (offset.toNat : Int) = error % 6250 := by
  obtain ⟨error, measured, ⟨-, rfl, same⟩ | ⟨-, -, -, other⟩ | ⟨-, -, count, -, -, other⟩⟩ :=
    observe_cases done
  · cases same
    exact ⟨rfl, error, measured, toNat_trimOffset error⟩
  · cases other
  · cases other

/-- A phase that is moved back by its error has none left. -/
theorem hasError_movedBack {tuning : Tuning} {phase : UInt32} {offset : UInt16} {error : Int}
    (wrong : tuning.HasError phase error) (cancels : (offset.toNat : Int) = error % 6250) :
    tuning.HasError (Clock.movedBack phase offset) 0 where
  above := by decide
  below := by decide
  congruent := by
    have distance := wrong.congruent
    rw [Int.ModEq] at distance ⊢
    rw [Clock.toNat_movedBack]
    omega

/-- Zero is an error of the phase that is moved back, so nothing else is measured of it. -/
theorem error_movedBack {tuning : Tuning} {phase : UInt32} {offset : UInt16} {error : Int}
    (measured : tuning.error phase = .ok error) (cancels : (offset.toNat : Int) = error % 6250) :
    (∃ overflow, tuning.error (Clock.movedBack phase offset) = .error overflow) ∨
      tuning.error (Clock.movedBack phase offset) = .ok 0 := by
  have right := hasError_movedBack (Tuning.hasError_of_error measured) cancels
  cases again : tuning.error (Clock.movedBack phase offset) with
  | error overflow => exact .inl ⟨overflow, rfl⟩
  | ok rest =>
      obtain rfl := right.unique (Tuning.hasError_of_error again)
      exact .inr rfl

/-- A calibrated loop at rest, with room for no error, leaves a phase without one alone. -/
theorem observe_of_on_time {loop : TrimLoop} {phase : UInt32} (clock : UInt32)
    (onTime : loop.tuning.error phase = .ok 0) (calibrated : loop.calibrated = true)
    (atRest : loop.count = 0) (patient : 0 ≤ loop.tuning.threshold.toInt)
    (tolerant : 0 ≤ loop.tuning.band.toInt) :
    loop.observe phase clock = .ok (loop.counting 0, .stable) := by
  have count : loop.count.toInt = 0 := congrArg Int32.toInt atRest
  obtain ⟨due, decided⟩ := @exists_isDue loop (by omega)
  have waits : ¬loop.Due := by
    rintro (uncalibrated | above)
    · exact Bool.false_ne_true (uncalibrated.symm.trans calibrated)
    · omega
  rw [observe_eq clock onTime decided, if_neg fun due => waits ((due_iff_of_isDue decided).1 due),
    if_pos (by simpa using tolerant)]

/--
The error of a phase is measured unless its distance, with half a slot added, leaves a
word of 32 bits, and then it is the only number within half a slot that stands for the
distance.  A trim is by this error, as a time within one slot.  The phase that is moved
back by the trim has no error, unless its own distance leaves the word, and the loop
calls it stable, unless its threshold or its dead band is negative.
-/
theorem trim_cancels_error (tuning : Tuning) (phase : UInt32) :
    ((∃ overflow, tuning.error phase = .error overflow) ↔
      2 ^ 31 - 1 < ((phase.toNat % 6250 : Nat) : Int) - tuning.target.toInt + 3125) ∧
    (((phase.toNat % 6250 : Nat) : Int) - tuning.target.toInt + 3125 ≤ 2 ^ 31 - 1 →
      ∃ error, tuning.error phase = .ok error ∧ tuning.HasError phase error ∧
        ∀ other, tuning.HasError phase other → other = error) ∧
    ∀ (loop next : TrimLoop) (clock : UInt32) (offset : UInt16) (drift : Option Int16),
      loop.tuning = tuning → loop.observe phase clock = .ok (next, .trim offset drift) →
        (∃ error, tuning.error phase = .ok error ∧ offset.toNat < 6250 ∧
          offset.toNat ≡ error [ZMOD 6250]) ∧
        ((∃ overflow, tuning.error (Clock.movedBack phase offset) = .error overflow) ∨
          tuning.error (Clock.movedBack phase offset) = .ok 0 ∧
            (0 ≤ tuning.threshold.toInt → 0 ≤ tuning.band.toInt → ∀ later, ∃ last,
              next.observe (Clock.movedBack phase offset) later = .ok (last, .stable))) := by
  refine ⟨?_, fun early => ?_, ?_⟩
  · rw [Tuning.exists_overflow_iff, Tuning.distance]
    omega
  · have near : tuning.distance phase + 3125 < 2 ^ 31 := by
      rw [Tuning.distance]
      omega
    obtain ⟨error, measured⟩ := tuning.exists_error near
    have wrong := Tuning.hasError_of_error measured
    exact ⟨error, measured, wrong, fun _ => wrong.unique⟩
  · rintro loop next clock offset drift rfl done
    obtain ⟨rfl, error, measured, cancels⟩ := trim_of_observe done
    refine ⟨⟨error, measured, by omega, ?_⟩, ?_⟩
    · rw [cancels]
      exact Int.mod_modEq error 6250
    · obtain overflows | onTime := error_movedBack measured cancels
      · exact .inl overflows
      · refine .inr ⟨onTime, fun patient tolerant later => ⟨(loop.trimmed clock).counting 0, ?_⟩⟩
        exact observe_of_on_time later onTime rfl rfl patient tolerant

/-- An access code that is 30 microseconds early, in its second slot: the trim goes forward. -/
theorem trim_cancels_error_early :
    ∃ next last, ({ tuning := {} } : TrimLoop).observe 8200 0 = .ok (next, .trim 5950 none) ∧
      ({} : Tuning).error 8200 = .ok (-300) ∧ ({} : Tuning).HasError 8200 (-300) ∧
      (5950 : UInt16).toNat ≡ -300 [ZMOD 6250] ∧ Clock.movedBack 8200 5950 = 2250 ∧
      next.observe 2250 1000 = .ok (last, .stable) := by
  have target : ({} : Tuning).target.toInt = 2250 := rfl
  have done : ({ tuning := {} } : TrimLoop).observe 8200 0 =
      .ok (({ tuning := {} } : TrimLoop).trimmed 0, .trim 5950 none) := rfl
  have found : ({} : Tuning).error 8200 = .ok (-300) := rfl
  have moved : Clock.movedBack 8200 5950 = 2250 := rfl
  obtain ⟨-, finds, cancels⟩ := trim_cancels_error {} 8200
  obtain ⟨error, measured, wrong, -⟩ := finds (by rw [target]; decide)
  obtain rfl := Except.ok.inj (found.symm.trans measured)
  obtain ⟨⟨error, again, -, congruent⟩, rest⟩ := cancels _ _ _ _ _ rfl done
  obtain rfl := Except.ok.inj (found.symm.trans again)
  rw [moved] at rest
  obtain ⟨overflow, impossible⟩ | ⟨-, stable⟩ := rest
  · cases impossible
  · obtain ⟨last, settled⟩ := stable (by decide) (by decide) 1000
    exact ⟨_, last, done, found, wrong, congruent, moved, settled⟩

end TrimLoop

end Piconet
