import Piconet.Proofs.Hop.Words
import Piconet.Proofs.Trim.Error
import Piconet.Proofs.Trim.History

/-!
# The drift between two trims

A trim that follows another one since the latest reset says how fast the clocks
drift: its error, spread over the ticks since the trim before it.  The clock has
28 bits and may have wrapped in between; two trims on one tick show no drift.

The estimate is computed in signed words of 64 bits.  No word overflows on the
way, and nothing is divided by zero.
-/

namespace Piconet

namespace WordFault

def multiply64 (first second : Int64) : Except WordFault Int64 :=
  if -2 ^ 63 ≤ first.toInt * second.toInt ∧ first.toInt * second.toInt < 2 ^ 63 then
    .ok (first * second)
  else
    .error .overflow

/-- A quotient, cut toward zero; the lowest word by minus one is too large for a word. -/
def divide64 (dividend divisor : Int64) : Except WordFault Int64 :=
  if divisor = 0 then .error .zeroDivisor
  else if dividend.toInt.tdiv divisor.toInt < 2 ^ 63 then .ok (dividend / divisor)
  else .error .overflow

theorem multiply64_eq_ok {first second : Int64} (low : -2 ^ 63 ≤ first.toInt * second.toInt)
    (high : first.toInt * second.toInt < 2 ^ 63) :
    ∃ product, multiply64 first second = .ok product ∧
      product.toInt = first.toInt * second.toInt := by
  refine ⟨first * second, if_pos ⟨low, high⟩, ?_⟩
  rw [Int64.toInt_mul]
  exact Int.bmod_eq_of_le (by omega) (by omega)

/-- No quotient is larger than its dividend, so only the lowest word is ever too large. -/
theorem divide64_eq_ok {dividend divisor : Int64} (above : -2 ^ 63 < dividend.toInt)
    (nonzero : divisor ≠ 0) :
    ∃ quotient, divide64 dividend divisor = .ok quotient ∧
      quotient.toInt = dividend.toInt.tdiv divisor.toInt := by
  have below := dividend.toInt_lt
  have shrinks : (dividend.toInt.tdiv divisor.toInt).natAbs ≤ dividend.toInt.natAbs :=
    Int.natAbs_tdiv_le_natAbs _ _
  refine ⟨dividend / divisor, ?_, ?_⟩
  · rw [divide64, if_neg nonzero, if_pos (by omega)]
  · rw [Int64.toInt_div]
    exact Int.bmod_eq_of_le (by omega) (by omega)

end WordFault

namespace TrimLoop

/-! ## One estimate -/

def clampWord (word : Int64) : Int16 :=
  if word < -32768 then -32768 else if 32767 < word then 32767 else word.toInt16

/-- The drift over some ticks in signed words of 64 bits, with every step checked. -/
def driftWords (error : Int32) (ticks : UInt32) : Except WordFault (Option Int16) := do
  if ticks = 0 then
    return none
  else
    let scaled ← WordFault.multiply64 error.toInt64 320
    let rate ← WordFault.divide64 scaled (Int64.ofInt ticks.toNat)
    return some (clampWord rate)

theorem toInt_clamp16 (value : Int) :
    (clamp16 value).toInt = max (-32768) (min 32767 value) := by
  rw [clamp16]
  exact Int16.toInt_ofInt_of_le (by omega) (by omega)

theorem clampWord_eq (word : Int64) : clampWord word = clamp16 word.toInt := by
  have least : (-32768 : Int64).toInt = -32768 := rfl
  have greatest : (32767 : Int64).toInt = 32767 := rfl
  apply Int16.toInt_inj.1
  rw [toInt_clamp16, clampWord]
  split
  case isTrue low =>
    rw [Int64.lt_iff_toInt_lt, least] at low
    change (-32768 : Int) = _
    omega
  case isFalse notLow =>
    rw [Int64.lt_iff_toInt_lt, least] at notLow
    split
    case isTrue high =>
      rw [Int64.lt_iff_toInt_lt, greatest] at high
      change (32767 : Int) = _
      omega
    case isFalse notHigh =>
      rw [Int64.lt_iff_toInt_lt, greatest] at notHigh
      rw [Int64.toInt_toInt16, Int.bmod_eq_of_le (by omega) (by omega)]
      omega

/-- Whatever the error and the ticks are, no step of the estimate fails. -/
theorem driftWords_eq_ok (error : Int32) (ticks : UInt32) :
    driftWords error ticks = .ok (driftOver error.toInt ticks) := by
  rw [driftWords, driftOver]
  split
  case isTrue still => rfl
  case isFalse moved =>
    have zero : (0 : Int64).toInt = 0 := rfl
    have scale : (320 : Int64).toInt = 320 := rfl
    have low := error.le_toInt
    have high := error.toInt_lt
    have few := ticks.toNat_lt
    have divisor : (Int64.ofInt ticks.toNat).toInt = ticks.toNat :=
      Int64.toInt_ofInt_of_le (by omega) (by omega)
    have nonzero : Int64.ofInt ticks.toNat ≠ 0 := by
      intro same
      rw [same, zero] at divisor
      exact moved (UInt32.toNat_inj.1 (Int.ofNat_inj.1 divisor.symm))
    obtain ⟨scaled, multiplied, product⟩ := @WordFault.multiply64_eq_ok error.toInt64 320
      (by rw [Int32.toInt_toInt64, scale]; omega) (by rw [Int32.toInt_toInt64, scale]; omega)
    rw [Int32.toInt_toInt64, scale] at product
    have above : -2 ^ 63 < scaled.toInt := by omega
    obtain ⟨rate, divided, quotient⟩ := WordFault.divide64_eq_ok above nonzero
    rw [multiplied]
    change (WordFault.divide64 scaled (Int64.ofInt ticks.toNat) >>= _) = _
    rw [divided, ← product, ← divisor, ← quotient, ← clampWord_eq]
    rfl

theorem sign_clamp16 (value : Int) : (clamp16 value).toInt.sign = value.sign := by
  rw [toInt_clamp16]
  obtain falls | rfl | rises := Int.lt_trichotomy value 0
  · rw [Int.sign_eq_neg_one_of_neg falls]
    exact Int.sign_eq_neg_one_of_neg (by omega)
  · rfl
  · rw [Int.sign_eq_one_of_pos rises]
    exact Int.sign_eq_one_of_pos (by omega)

/-- An estimate is zero or has the sign of the error that it spreads. -/
theorem sign_of_driftOver {error : Int} {ticks : UInt32} {rate : Int16}
    (found : driftOver error ticks = some rate) : rate = 0 ∨ rate.toInt.sign = error.sign := by
  have zero : (0 : Int16).toInt = 0 := rfl
  rw [driftOver] at found
  split at found
  case isTrue still => cases found
  case isFalse moved =>
    cases found
    rw [← Int16.toInt_inj, zero, ← Int.sign_eq_zero_iff_zero, sign_clamp16, Int.sign_tdiv]
    split
    case isTrue small => exact .inl rfl
    case isFalse large =>
      have several : 0 < ticks.toNat :=
        Nat.pos_of_ne_zero fun none => moved (UInt32.toNat_inj.1 none)
      right
      rw [Int.sign_eq_one_of_pos (Int.natCast_pos.2 several), Int.sign_mul, Int.mul_one]
      exact Int.mul_one _

/-! ## The ticks between two clocks -/

/-- The ticks between two clocks are counted modulo the 28 bits of a clock. -/
theorem toNat_elapsed (clock earlier : UInt32) :
    ((elapsed clock earlier).toNat : Int) = ((clock.toNat : Int) - earlier.toNat) % 2 ^ 28 := by
  have low : (elapsed clock earlier).toNat = (clock - earlier).toNat % 2 ^ 28 := by
    rw [elapsed, UInt32.toNat_and]
    exact Nat.and_two_pow_sub_one_eq_mod _ 28
  have first := clock.toNat_lt
  have second := earlier.toNat_lt
  rw [low, UInt32.toNat_sub]
  omega

theorem elapsed_eq_zero_iff (clock earlier : UInt32) :
    elapsed clock earlier = 0 ↔ clock.toNat % 2 ^ 28 = earlier.toNat % 2 ^ 28 := by
  have ticks := toNat_elapsed clock earlier
  have zero : (0 : UInt32).toNat = 0 := rfl
  rw [← UInt32.toNat_inj, zero]
  omega

/-! ## The latest trim on record -/

def Record.trimClock? : Record → Option UInt32
  | observed _ clock (.trim _ _) => some clock
  | _ => none

/-- The clock at the latest trim since the latest reset, if there is one. -/
def latestTrim? (history : List Record) : Option UInt32 :=
  (sinceReset history).findSome? Record.trimClock?

def reference? (loop : TrimLoop) : Option UInt32 :=
  if loop.calibrated then some loop.trimmedAt else none

theorem drift_eq_bind (loop : TrimLoop) (error : Int) (clock : UInt32) :
    loop.drift error clock =
      loop.reference?.bind fun earlier => driftOver error (elapsed clock earlier) := by
  rw [drift, reference?]
  split
  · rfl
  · rfl

/-- A trim sets the reference and a reset drops it; other observations leave it as it is. -/
theorem reference?_of_perform {loop next : TrimLoop} {past : List Record} {event : Event}
    {entry : Record} (recorded : loop.reference? = latestTrim? past)
    (performed : loop.perform event = .ok (next, entry)) :
    next.reference? = latestTrim? (entry :: past) := by
  cases event with
  | reset =>
      cases performed
      rfl
  | observe phase clock =>
      obtain ⟨error, decision, -, observed, rfl⟩ := perform_observe_eq_ok_iff.1 performed
      obtain ⟨other, -, ⟨-, rfl, rfl⟩ | ⟨-, -, rfl, rfl⟩ | ⟨-, -, count, -, rfl, rfl⟩⟩ :=
        observe_cases observed
      · rfl
      · exact recorded
      · exact recorded

theorem reference?_of_run {tuning : Tuning} {events : List Event} {loop : TrimLoop}
    {history : List Record} (reached : run tuning events = .ok (loop, history)) :
    loop.reference? = latestTrim? history := by
  induction events using List.reverseRecOn generalizing loop history with
  | nil =>
      cases reached
      rfl
  | append_singleton events event ih =>
      obtain ⟨former, past, entry, before, performed, rfl⟩ := run_concat_eq_ok_iff.1 reached
      exact reference?_of_perform (ih before) performed

/-- The drift on record of a trim is measured from the latest trim before it. -/
theorem drift_of_run {tuning : Tuning} {events : List Event} {last : TrimLoop}
    {later past : List Record} {error : Int} {clock : UInt32} {offset : UInt16}
    {drift : Option Int16}
    (reached : run tuning events =
      .ok (last, later ++ .observed error clock (.trim offset drift) :: past)) :
    (∃ phase, tuning.error phase = .ok error) ∧
      drift = (latestTrim? past).bind fun earlier => driftOver error (elapsed clock earlier) := by
  obtain ⟨before, loop, event, next, start, performed⟩ := exists_origin reached
  cases event with
  | reset => cases performed
  | observe phase time =>
      obtain ⟨found, decision, measured, observed, same⟩ := perform_observe_eq_ok_iff.1 performed
      cases same
      refine ⟨⟨phase, ?_⟩, ?_⟩
      · rw [← (accounts_of_run start).tuned, measured]
      · obtain ⟨other, again, ⟨-, -, same⟩ | ⟨-, -, -, same⟩ | ⟨-, -, count, -, -, same⟩⟩ :=
          observe_cases observed
        · obtain rfl := Except.ok.inj (measured.symm.trans again)
          cases same
          rw [drift_eq_bind, reference?_of_run start]
        · cases same
        · cases same

theorem toInt_ofInt_error {tuning : Tuning} {phase : UInt32} {error : Int}
    (measured : tuning.error phase = .ok error) : (Int32.ofInt error).toInt = error := by
  have bounds := Tuning.hasError_of_error measured
  have low := bounds.above
  have high := bounds.below
  exact Int32.toInt_ofInt_of_le (by omega) (by omega)

/--
A trim on record comes with a drift exactly when there is another trim before it, since
the latest reset, and its clock differs from the clock of the latest such trim in the 28
bits of a clock.  The drift is then 320 times the error, divided by the ticks between the
two clocks, cut toward zero and held within 16 bits; so it is zero or has the sign of the
error.  In words of 64 bits it is computed without an overflow or a division by zero.
-/
theorem drift_spans_trims {tuning : Tuning} {events : List Event} {last : TrimLoop}
    {later past : List Record} {error : Int} {clock : UInt32} {offset : UInt16}
    {drift : Option Int16}
    (reached : run tuning events =
      .ok (last, later ++ .observed error clock (.trim offset drift) :: past)) :
    (drift.isSome = true ↔ ∃ earlier, latestTrim? past = some earlier ∧
      clock.toNat % 2 ^ 28 ≠ earlier.toNat % 2 ^ 28) ∧
    (∀ earlier rate, latestTrim? past = some earlier → drift = some rate →
      rate.toInt = max (-32768) (min 32767
        ((320 * error).tdiv (((clock.toNat : Int) - earlier.toNat) % 2 ^ 28))) ∧
      (rate = 0 ∨ rate.toInt.sign = error.sign)) ∧
    ∀ earlier, latestTrim? past = some earlier →
      (Int32.ofInt error).toInt = error ∧
        driftWords (Int32.ofInt error) (elapsed clock earlier) = .ok drift := by
  obtain ⟨⟨phase, measured⟩, rfl⟩ := drift_of_run reached
  have word := toInt_ofInt_error measured
  refine ⟨?_, fun earlier rate known found => ?_, fun earlier known => ⟨word, ?_⟩⟩
  · cases known : latestTrim? past with
    | none => exact iff_of_false Bool.false_ne_true nofun
    | some earlier =>
        have still := elapsed_eq_zero_iff clock earlier
        rw [Option.bind_some, driftOver]
        split
        case isTrue zero =>
          refine iff_of_false Bool.false_ne_true ?_
          rintro ⟨_, ⟨⟩, moved⟩
          exact moved (still.1 zero)
        case isFalse moved => exact iff_of_true rfl ⟨earlier, rfl, fun same => moved (still.2 same)⟩
  · rw [known, Option.bind_some] at found
    refine ⟨?_, sign_of_driftOver found⟩
    rw [driftOver] at found
    split at found
    case isTrue zero => cases found
    case isFalse moved =>
      cases found
      rw [toInt_clamp16, toNat_elapsed, Int.mul_comm error 320]
  · rw [driftWords_eq_ok, word, known, Option.bind_some]

/-- A clock that is 100 microseconds early, over the wrap of the clock: 320 ticks pass. -/
theorem drift_spans_trims_wrapped :
    let events : List Event :=
      [.observe 2250 268435356, .observe 1250 100, .observe 1250 220]
    let past : List Record :=
      [.observed (-1000) 100 (.pending (-1)), .observed 0 268435356 (.trim 0 none)]
    let estimate : Option Int16 := some (-1000)
    ∃ last, run { threshold := 0 } events =
        .ok (last, [] ++ .observed (-1000) 220 (.trim 5250 estimate) :: past) ∧
      latestTrim? past = some 268435356 ∧ estimate.isSome = true ∧
      driftWords (Int32.ofInt (-1000)) (elapsed 220 268435356) = .ok estimate ∧
      (-1000 : Int16).toInt = max (-32768) (min 32767
        ((320 * (-1000)).tdiv
          (((220 : UInt32).toNat - (268435356 : UInt32).toNat : Int) % 2 ^ 28))) := by
  intro events past estimate
  have reached : run { threshold := 0 } events =
      .ok (_, [] ++ .observed (-1000) 220 (.trim 5250 estimate) :: past) := rfl
  have known : latestTrim? past = some 268435356 := rfl
  obtain ⟨estimates, value, words⟩ := drift_spans_trims reached
  exact ⟨_, reached, known, estimates.2 ⟨_, known, by decide⟩, (words _ known).2,
    (value _ _ known rfl).1⟩

end TrimLoop

end Piconet
