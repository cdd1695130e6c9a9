import Mathlib.Data.Int.ModEq
import Piconet.TrimLoop

/-!
# The error of a phase

The error of a phase is its distance from the target, up to whole slots and half a
slot to either side.  It is the only number within these bounds that stands for the
distance; it is not found where the target is so far below zero that the distance, or
its sum with half a slot, leaves its word.
-/

namespace Piconet

namespace Tuning

def distance (tuning : Tuning) (phase : UInt32) : Int :=
  (phase.toNat % 6250 : Nat) - tuning.target.toInt

/-- What makes a number the error of a phase: its distance, wrapped to half a slot. -/
structure HasError (tuning : Tuning) (phase : UInt32) (error : Int) : Prop where
  above : -3125 ≤ error
  below : error < 3125
  congruent : error ≡ phase.toNat - tuning.target.toInt [ZMOD 6250]

theorem toInt_mod_slot (phase : UInt32) :
    (phase % Clock.slot).toInt32.toInt = (phase.toNat % 6250 : Nat) := by
  have value : (phase % Clock.slot).toNat = phase.toNat % 6250 := UInt32.toNat_mod _ _
  rw [← value]
  refine BitVec.toInt_eq_toNat_of_lt ?_
  change 2 * (phase % Clock.slot).toNat < 2 ^ 32
  omega

theorem fits32_distance_iff (tuning : Tuning) (phase : UInt32) :
    Overflow.Fits32 (tuning.distance phase) ↔ tuning.distance phase < 2 ^ 31 := by
  have highest := tuning.target.toInt_lt
  rw [Overflow.Fits32, distance]
  omega

/-- The distance may overflow, or only the sum with half a slot; else the error is found. -/
theorem error_eq (tuning : Tuning) (phase : UInt32) :
    tuning.error phase =
      if 2 ^ 31 ≤ tuning.distance phase then .error .subtract
      else if 2 ^ 31 ≤ tuning.distance phase + 3125 then .error .add
      else .ok ((tuning.distance phase + 3125) % 6250 - 3125) := by
  have half : (3125 : Int32).toInt = 3125 := rfl
  have fits := tuning.fits32_distance_iff phase
  rw [error, Overflow.subtract32, toInt_mod_slot, ← distance]
  split
  case isTrue far =>
    exact Overflow.guard32_bind_of_not_fits (fits.not.2 (Int.not_lt.2 far)) _
  case isFalse near =>
    have inside := fits.2 (Int.not_le.1 near)
    rw [Overflow.guard32_bind_of_fits inside, Overflow.add32,
      Int32.toInt_ofInt_of_le inside.1 inside.2, half]
    rw [Overflow.Fits32] at inside
    split
    case isTrue late =>
      exact Overflow.guard32_bind_of_not_fits (fun within => by
        rw [Overflow.Fits32] at within
        omega) _
    case isFalse early =>
      have within : Overflow.Fits32 (tuning.distance phase + 3125) := by
        rw [Overflow.Fits32]
        omega
      rw [Overflow.guard32_bind_of_fits within, Int32.toInt_ofInt_of_le within.1 within.2]
      rfl

theorem exists_overflow_iff (tuning : Tuning) (phase : UInt32) :
    (∃ overflow, tuning.error phase = .error overflow) ↔
      2 ^ 31 ≤ tuning.distance phase + 3125 := by
  rw [error_eq]
  split
  case isTrue far => exact iff_of_true ⟨_, rfl⟩ (by omega)
  case isFalse near =>
    split
    case isTrue late => exact iff_of_true ⟨_, rfl⟩ late
    case isFalse early => exact iff_of_false nofun early

theorem exists_error (tuning : Tuning) {phase : UInt32}
    (early : tuning.distance phase + 3125 < 2 ^ 31) : ∃ error, tuning.error phase = .ok error := by
  rw [error_eq, if_neg (by omega), if_neg (by omega)]
  exact ⟨_, rfl⟩

theorem hasError_of_error {tuning : Tuning} {phase : UInt32} {error : Int}
    (measured : tuning.error phase = .ok error) : tuning.HasError phase error := by
  have value : error = (tuning.distance phase + 3125) % 6250 - 3125 := by
    rw [error_eq] at measured
    split at measured
    · cases measured
    · split at measured
      · cases measured
      · exact (Except.ok.inj measured).symm
  rw [distance] at value
  exact {
    above := by omega
    below := by omega
    congruent := by
      rw [Int.ModEq]
      omega }

/-- No two numbers within a slot stand for the same distance. -/
theorem HasError.unique {tuning : Tuning} {phase : UInt32} {error other : Int}
    (first : tuning.HasError phase error) (second : tuning.HasError phase other) :
    other = error := by
  have same : other % 6250 = error % 6250 := second.congruent.trans first.congruent.symm
  have errorBounds : -3125 ≤ error ∧ error < 3125 := ⟨first.above, first.below⟩
  have otherBounds : -3125 ≤ other ∧ other < 3125 := ⟨second.above, second.below⟩
  omega

end Tuning

end Piconet
