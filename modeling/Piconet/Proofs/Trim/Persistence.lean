import Mathlib.Algebra.BigOperators.Group.List.Basic
import Piconet.Proofs.Trim.History

/-!
# What a trim follows

A calibrated loop trims when its balance has passed the threshold.  The latest
observations, one more than the threshold, were then all outside the dead band;
but the balance does not tell their order.  Errors of the other sign may stand
among them, and they do exactly when the observations pending before them had
not cancelled each other.
-/

namespace Piconet.TrimLoop

def Record.IsOutside (tuning : Tuning) : Record → Prop
  | observed error _ _ => tuning.band.toInt < error.natAbs
  | restarted => False

/-- How many errors in one direction it takes to pass the threshold. -/
def patience (tuning : Tuning) : Nat :=
  tuning.threshold.toInt.toNat + 1

/-- An error outside the dead band that has persisted in one direction. -/
structure Persists (tuning : Tuning) (history : List Record) : Prop where
  full : (history.take (patience tuning)).length = patience tuning
  outside : ∀ record ∈ history.take (patience tuning), record.IsOutside tuning
  oneSign : ∀ first ∈ history.take (patience tuning), ∀ second ∈ history.take (patience tuning),
    first.sign = second.sign

/-! ## Sums of signs -/

theorem sum_sign_of_forall {records : List Record} {direction : Int}
    (same : ∀ record ∈ records, record.sign = direction) :
    (records.map Record.sign).sum = records.length * direction := by
  have constant : ∀ sign ∈ records.map Record.sign, sign = direction := by
    intro sign member
    obtain ⟨record, recorded, rfl⟩ := List.mem_map.1 member
    exact same record recorded
  rw [List.sum_eq_card_nsmul _ direction constant, List.length_map, nsmul_eq_mul]

/-- A sum of signs is only as large as it can be when all of them are the same. -/
theorem sign_eq_of_sum {records : List Record} {direction : Int}
    (unit : direction = 1 ∨ direction = -1)
    (extreme : (records.map Record.sign).sum = records.length * direction) :
    ∀ record ∈ records, record.sign = direction := by
  induction records with
  | nil => exact nofun
  | cons record rest ih =>
      have step := natAbs_sign_le record
      have others := natAbs_sum_sign_le rest
      rw [List.map_cons, List.sum_cons, List.length_cons, Int.natCast_succ, Int.add_mul,
        Int.one_mul] at extreme
      have split : record.sign = direction ∧
          (rest.map Record.sign).sum = rest.length * direction := by
        obtain rfl | rfl := unit
        · omega
        · omega
      intro other member
      obtain rfl | later := List.mem_cons.1 member
      · exact split.1
      · exact ih split.2 other later

/-- Pending observations in front add their signs to the balance. -/
theorem balance_append {recent : List Record}
    (pending : ∀ record ∈ recent, record.isPending = true) (past : List Record) :
    balance (recent ++ past) = (recent.map Record.sign).sum + balance past := by
  induction recent with
  | nil => exact (Int.zero_add _).symm
  | cons record rest ih =>
      rw [List.cons_append, balance_of_pending (pending record List.mem_cons_self),
        ih fun other member => pending other (List.mem_cons_of_mem _ member), List.map_cons,
        List.sum_cons]
      omega

/-! ## Pending observations -/

/-- An observation pends when its error is outside the band and the balance within the threshold. -/
theorem pending_of_run {tuning : Tuning} {events : List Event} {last : TrimLoop}
    {later past : List Record} {record : Record}
    (reached : run tuning events = .ok (last, later ++ record :: past))
    (pending : record.isPending = true) :
    record.IsOutside tuning ∧ (balance past).natAbs ≤ tuning.threshold.toInt := by
  obtain ⟨before, loop, event, next, start, performed⟩ := exists_origin reached
  have accounts := accounts_of_run start
  cases event with
  | reset =>
      cases performed
      cases pending
  | observe phase clock =>
      obtain ⟨error, decision, measured, observed, rfl⟩ := perform_observe_eq_ok_iff.1 performed
      obtain ⟨other, same, cases⟩ := observe_cases observed
      obtain rfl := Except.ok.inj (measured.symm.trans same)
      rcases cases with ⟨-, -, rfl⟩ | ⟨-, -, -, rfl⟩ | ⟨waits, far, count, -, -, rfl⟩
      · cases pending
      · cases pending
      · rw [accounts.tuned] at far
        refine ⟨far, Int.not_lt.1 fun above => waits (.inr ?_)⟩
        rw [accounts.tuned, accounts.count]
        exact above

/-- A calibrated loop trims when its balance is the first one above the threshold. -/
theorem natAbs_balance_of_trim {tuning : Tuning} {events : List Event} {loop next : TrimLoop}
    {past : List Record} {phase clock : UInt32} {offset : UInt16} {drift : Option Int16}
    (reached : run tuning events = .ok (loop, past)) (calibrated : loop.calibrated = true)
    (patient : 0 ≤ tuning.threshold.toInt)
    (trims : loop.observe phase clock = .ok (next, .trim offset drift)) :
    (balance past).natAbs = patience tuning := by
  have accounts := accounts_of_run reached
  have bounded := accounts.bounded
  obtain ⟨error, measured, -⟩ := observe_cases trims
  obtain uncalibrated | above := (decides_of_observe measured trims).trim.1 rfl
  · exact absurd (uncalibrated.symm.trans calibrated) Bool.false_ne_true
  · rw [accounts.tuned] at above
    rw [← accounts.count, patience]
    omega

/-- As many observations as the balance is large are pending. -/
theorem pending_of_mem_take {history : List Record} {number : Nat}
    (large : number ≤ (balance history).natAbs) :
    (history.take number).length = number ∧
      ∀ record ∈ history.take number, record.isPending = true := by
  have long := Nat.le_trans large (natAbs_balance_le history)
  obtain ⟨rest, whole⟩ := List.takeWhile_prefix (l := history) Record.isPending
  have front : history.take number = (pendingRun history).take number := by
    conv_lhs => rw [← whole]
    exact List.take_append_of_le_length long
  rw [front]
  refine ⟨List.length_take_of_le long, fun record member => ?_⟩
  exact List.all_eq_true.1 List.all_takeWhile record (List.mem_of_mem_take member)

/-- The observations pending before the latest ones have not passed the threshold. -/
theorem natAbs_balance_drop_lt {tuning : Tuning} {events : List Event} {loop : TrimLoop}
    {past : List Record} (reached : run tuning events = .ok (loop, past))
    (patient : 0 ≤ tuning.threshold.toInt)
    (full : (past.take (patience tuning)).length = patience tuning)
    (pending : ∀ record ∈ past.take (patience tuning), record.isPending = true) :
    (balance (past.drop (patience tuning))).natAbs < patience tuning := by
  obtain none | ⟨newer, oldest, whole⟩ := List.eq_nil_or_concat' (past.take (patience tuning))
  · rw [none] at full
    cases full
  · have split : past = newer ++ oldest :: past.drop (patience tuning) := by
      conv_lhs => rw [← List.take_append_drop (patience tuning) past, whole]
      rw [List.append_assoc, List.singleton_append]
    have last : oldest.isPending = true := by
      refine pending oldest ?_
      rw [whole]
      exact List.mem_append_right _ List.mem_cons_self
    rw [split] at reached
    have within := (pending_of_run reached last).2
    rw [patience]
    rw [patience] at within
    omega

/-- Errors that pass the threshold have one sign exactly when those before them cancel. -/
theorem oneSign_iff_of_balance {recent past : List Record}
    (pending : ∀ record ∈ recent, record.isPending = true)
    (large : (balance (recent ++ past)).natAbs = recent.length)
    (small : (balance past).natAbs < recent.length) :
    (∀ first ∈ recent, ∀ second ∈ recent, first.sign = second.sign) ↔ balance past = 0 := by
  rw [balance_append pending] at large
  constructor
  · intro same
    obtain ⟨record, member⟩ := List.exists_mem_of_length_pos (Nat.zero_lt_of_lt small)
    have step := natAbs_sign_le record
    have total := sum_sign_of_forall fun other recorded => same other recorded record member
    obtain one | zero | minus : record.sign = 1 ∨ record.sign = 0 ∨ record.sign = -1 := by omega
    · rw [one, Int.mul_one] at total
      omega
    · rw [zero, Int.mul_zero] at total
      omega
    · rw [minus] at total
      omega
  · intro cancelled
    rw [cancelled, Int.add_zero] at large
    obtain ahead | behind :
        (recent.map Record.sign).sum = recent.length * 1 ∨
          (recent.map Record.sign).sum = recent.length * -1 := by omega
    · have same := sign_eq_of_sum (.inl rfl) ahead
      exact fun first member second other => (same first member).trans (same second other).symm
    · have same := sign_eq_of_sum (.inr rfl) behind
      exact fun first member second other => (same first member).trans (same second other).symm

/--
A calibrated loop with a threshold of at least zero trims behind as many pending
observations as it takes to pass the threshold, all with errors outside the dead band, and
on a balance of just this size.  The error has persisted in one direction exactly when the
observations pending before these had cancelled each other.
-/
theorem persists_iff_of_trim {tuning : Tuning} {events : List Event} {loop next : TrimLoop}
    {past : List Record} {phase clock : UInt32} {offset : UInt16} {drift : Option Int16}
    (reached : run tuning events = .ok (loop, past)) (calibrated : loop.calibrated = true)
    (patient : 0 ≤ tuning.threshold.toInt)
    (trims : loop.observe phase clock = .ok (next, .trim offset drift)) :
    (past.take (patience tuning)).length = patience tuning ∧
      (∀ record ∈ past.take (patience tuning), record.IsOutside tuning) ∧
      (balance past).natAbs = patience tuning ∧
      (Persists tuning past ↔ balance (past.drop (patience tuning)) = 0) := by
  have size := natAbs_balance_of_trim reached calibrated patient trims
  obtain ⟨full, pending⟩ := pending_of_mem_take (Nat.le_of_eq size.symm)
  have outside : ∀ record ∈ past.take (patience tuning), record.IsOutside tuning := by
    intro record member
    obtain ⟨newer, older, whole⟩ := List.append_of_mem member
    have split : past = newer ++ record :: (older ++ past.drop (patience tuning)) := by
      conv_lhs => rw [← List.take_append_drop (patience tuning) past, whole]
      rw [List.append_assoc, List.cons_append]
    rw [split] at reached
    exact (pending_of_run reached (pending record member)).1
  have small := natAbs_balance_drop_lt reached patient full pending
  have large := size
  rw [← List.take_append_drop (patience tuning) past] at large
  have signs := oneSign_iff_of_balance pending (large.trans full.symm) (by rwa [full])
  exact ⟨full, outside, size, fun persists => signs.1 persists.oneSign,
    fun cancelled => ⟨full, outside, signs.2 cancelled⟩⟩

/-- One late error and four early ones: the first two cancel, and the others persist. -/
theorem persists_iff_of_trim_cancelled :
    let events : List Event := [.observe 2250 0, .observe 2750 1000, .observe 1750 2000,
      .observe 1750 3000, .observe 1750 4000, .observe 1750 5000]
    ∃ loop next past, run {} events = .ok (loop, past) ∧ loop.calibrated = true ∧
      0 ≤ ({} : Tuning).threshold.toInt ∧
      loop.observe 1750 6000 = .ok (next, .trim 5750 (some (-26))) ∧
      (balance past).natAbs = 3 ∧ balance (past.drop 3) = 0 ∧ Persists {} past := by
  intro events
  have reached : run {} events = .ok (_, _) := rfl
  have trims : ({ tuning := {}, count := -3, calibrated := true } : TrimLoop).observe 1750 6000 =
      .ok ({ tuning := {}, calibrated := true, trimmedAt := 6000 }, .trim 5750 (some (-26))) := by
    decide
  obtain ⟨-, -, size, persists⟩ := persists_iff_of_trim reached rfl (by decide) trims
  exact ⟨_, _, _, reached, rfl, by decide, trims, size, rfl, persists.2 rfl⟩

/-- Of the last three errors before this trim only two have the same direction. -/
theorem not_persists_of_trim :
    let events : List Event := [.observe 2250 0, .observe 2750 1000, .observe 2750 2000,
      .observe 1750 3000, .observe 2750 4000, .observe 2750 5000]
    ∃ loop next past, run {} events = .ok (loop, past) ∧ loop.calibrated = true ∧
      0 ≤ ({} : Tuning).threshold.toInt ∧
      loop.observe 2250 6000 = .ok (next, .trim 0 (some 0)) ∧ ¬Persists {} past := by
  intro events
  refine ⟨{ tuning := {}, count := 3, calibrated := true },
    { tuning := {}, calibrated := true, trimmedAt := 6000 }, _, rfl, rfl, by decide, by decide,
    fun persists => ?_⟩
  have late : Record.sign (.observed 500 5000 (.pending 3)) = 1 := rfl
  have early : Record.sign (.observed (-500) 3000 (.pending 1)) = -1 := rfl
  have same := persists.oneSign (.observed 500 5000 (.pending 3)) (.head _)
    (.observed (-500) 3000 (.pending 1)) (.tail _ (.tail _ (.head _)))
  rw [late, early] at same
  exact absurd same (by decide)

end Piconet.TrimLoop
