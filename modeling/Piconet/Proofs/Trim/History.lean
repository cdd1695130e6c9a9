import Mathlib.Data.List.Induction
import Piconet.Proofs.Trim.Observation

/-!
# The trim loop and its history

A loop is run by observations and resets, and every one of them is put on
record.  The state of the loop says no more than its history does: the count is
the balance of the observations pending since something else happened, and a
loop is calibrated when something was observed since the latest reset.

The count therefore has to be built up again after every trim, one pending
observation at a time, and trims keep a distance from one another.
-/

namespace Piconet.TrimLoop

inductive Event where
  | observe (phase clock : UInt32)
  | reset
  deriving DecidableEq, Repr

/-- What is put on record: an observation with its error and the decision, or a reset. -/
inductive Record where
  | observed (error : Int) (clock : UInt32) (decision : TrimDecision)
  | restarted
  deriving DecidableEq, Repr

namespace Record

def isObserved : Record → Bool
  | observed _ _ _ => true
  | restarted => false

def isPending : Record → Bool
  | observed _ _ (.pending _) => true
  | _ => false

def isTrim : Record → Bool
  | observed _ _ decision => decision.isTrim
  | restarted => false

def sign : Record → Int
  | observed error _ _ => error.sign
  | restarted => 0

end Record

def perform (loop : TrimLoop) : Event → Except Overflow (TrimLoop × Record)
  | .observe phase clock => do
      let error ← loop.tuning.error phase
      let (next, decision) ← loop.observe phase clock
      return (next, .observed error clock decision)
  | .reset => .ok (loop.reset, .restarted)

/-- One more event; the latest record stands in front. -/
def extend (state : TrimLoop × List Record) (event : Event) :
    Except Overflow (TrimLoop × List Record) := do
  let (next, entry) ← state.1.perform event
  return (next, entry :: state.2)

def run (tuning : Tuning) (events : List Event) : Except Overflow (TrimLoop × List Record) :=
  events.foldlM extend ({ tuning }, [])

def sinceReset (history : List Record) : List Record :=
  history.takeWhile Record.isObserved

/-- The pending observations since the latest record of another kind. -/
def pendingRun (history : List Record) : List Record :=
  history.takeWhile Record.isPending

def balance (history : List Record) : Int :=
  ((pendingRun history).map Record.sign).sum

/-! ## Histories -/

theorem sinceReset_ne_nil_iff (entry : Record) (past : List Record) :
    sinceReset (entry :: past) ≠ [] ↔ entry.isObserved = true := by
  rw [sinceReset, List.takeWhile_cons]
  cases entry.isObserved with
  | false => exact iff_of_false (fun nonempty => nonempty rfl) Bool.false_ne_true
  | true => exact iff_of_true (List.cons_ne_nil _ _) rfl

theorem pendingRun_of_pending {entry : Record} (pending : entry.isPending = true)
    (past : List Record) : pendingRun (entry :: past) = entry :: pendingRun past :=
  List.takeWhile_cons_of_pos pending

theorem pendingRun_of_settled {entry : Record} (settled : entry.isPending = false)
    (past : List Record) : pendingRun (entry :: past) = [] :=
  List.takeWhile_cons_of_neg (Bool.eq_false_iff.1 settled)

theorem balance_of_pending {entry : Record} (pending : entry.isPending = true)
    (past : List Record) : balance (entry :: past) = balance past + entry.sign := by
  rw [balance, pendingRun_of_pending pending, List.map_cons, List.sum_cons, Int.add_comm]
  rfl

theorem balance_of_settled {entry : Record} (settled : entry.isPending = false)
    (past : List Record) : balance (entry :: past) = 0 := by
  rw [balance, pendingRun_of_settled settled]
  rfl

theorem natAbs_sign_le (entry : Record) : entry.sign.natAbs ≤ 1 := by
  cases entry with
  | observed error clock decision =>
      have step := Int.sign_trichotomy error
      rw [Record.sign]
      omega
  | restarted => exact Nat.zero_le 1

/-- The signs of some records add up to their number at most. -/
theorem natAbs_sum_sign_le (records : List Record) :
    ((records.map Record.sign).sum).natAbs ≤ records.length := by
  induction records with
  | nil => exact Nat.le_refl 0
  | cons record rest ih =>
      have step := natAbs_sign_le record
      rw [List.map_cons, List.sum_cons, List.length_cons]
      omega

/-- Every pending observation moves the balance by one at most. -/
theorem natAbs_balance_le (history : List Record) :
    (balance history).natAbs ≤ (pendingRun history).length :=
  natAbs_sum_sign_le (pendingRun history)

/-- Behind a record of another kind no pending observation is counted. -/
theorem length_pendingRun_le {settled : Record} (other : settled.isPending = false)
    (between earlier : List Record) :
    (pendingRun (between ++ settled :: earlier)).length ≤ between.countP Record.isPending := by
  induction between with
  | nil =>
      rw [List.nil_append, pendingRun_of_settled other]
      exact Nat.le_refl 0
  | cons entry rest ih =>
      rw [List.cons_append]
      cases pending : entry.isPending with
      | false =>
          rw [pendingRun_of_settled pending]
          exact Nat.zero_le _
      | true =>
          rw [pendingRun_of_pending pending, List.length_cons, List.countP_cons_of_pos pending]
          exact Nat.succ_le_succ ih

/-! ## Runs -/

theorem perform_observe_eq_ok_iff {loop next : TrimLoop} {phase clock : UInt32} {entry : Record} :
    loop.perform (.observe phase clock) = .ok (next, entry) ↔
      ∃ error decision, loop.tuning.error phase = .ok error ∧
        loop.observe phase clock = .ok (next, decision) ∧
          entry = .observed error clock decision := by
  rw [perform, Overflow.bind_eq_ok_iff]
  constructor
  · rintro ⟨error, measured, rest⟩
    obtain ⟨⟨next, decision⟩, observed, same⟩ := Overflow.bind_eq_ok_iff.1 rest
    cases same
    exact ⟨error, decision, measured, observed, rfl⟩
  · rintro ⟨error, decision, measured, observed, rfl⟩
    exact ⟨error, measured, Overflow.bind_eq_ok_iff.2 ⟨_, observed, rfl⟩⟩

theorem run_concat_eq_ok_iff {tuning : Tuning} {events : List Event} {event : Event}
    {last : TrimLoop} {history : List Record} :
    run tuning (events ++ [event]) = .ok (last, history) ↔
      ∃ loop past entry, run tuning events = .ok (loop, past) ∧
        loop.perform event = .ok (last, entry) ∧ history = entry :: past := by
  rw [run, List.foldlM_append, Overflow.bind_eq_ok_iff]
  simp only [List.foldlM_cons, List.foldlM_nil, bind_pure]
  constructor
  · rintro ⟨⟨loop, past⟩, before, extended⟩
    obtain ⟨⟨next, entry⟩, performed, same⟩ := Overflow.bind_eq_ok_iff.1 extended
    cases same
    exact ⟨loop, past, entry, before, performed, rfl⟩
  · rintro ⟨loop, past, entry, before, performed, rfl⟩
    exact ⟨(loop, past), before, Overflow.bind_eq_ok_iff.2 ⟨_, performed, rfl⟩⟩

/-- Every record comes from an event, done to the loop as it was with the history before it. -/
theorem exists_origin {tuning : Tuning} {events : List Event} {last : TrimLoop}
    {later past : List Record} {entry : Record}
    (reached : run tuning events = .ok (last, later ++ entry :: past)) :
    ∃ before loop event next, run tuning before = .ok (loop, past) ∧
      loop.perform event = .ok (next, entry) := by
  induction events using List.reverseRecOn generalizing last later with
  | nil =>
      cases later with
      | nil => cases reached
      | cons _ _ => cases reached
  | append_singleton events event ih =>
      obtain ⟨loop, former, newest, before, performed, same⟩ := run_concat_eq_ok_iff.1 reached
      cases later with
      | nil =>
          cases same
          exact ⟨events, loop, event, last, before, performed⟩
      | cons _ _ =>
          cases same
          exact ih before

/-- A loop whose state is what its history makes of it. -/
structure Accounts (tuning : Tuning) (loop : TrimLoop) (history : List Record) : Prop where
  tuned : loop.tuning = tuning
  /-- The count is made of the observations pending since something else happened. -/
  count : loop.count.toInt = balance history
  /-- It never goes beyond the first value above the threshold. -/
  bounded : loop.count.toInt.natAbs ≤ max (tuning.threshold.toInt + 1) 0
  /-- Whatever is observed first after a reset is a trim. -/
  calibrated : loop.calibrated = true ↔ sinceReset history ≠ []

theorem accounts_start (tuning : Tuning) : Accounts tuning { tuning } [] where
  tuned := rfl
  count := rfl
  bounded := Int.le_max_right _ _
  calibrated := iff_of_false Bool.false_ne_true fun nonempty => nonempty rfl

theorem tuning_of_observe {loop next : TrimLoop} {phase clock : UInt32} {decision : TrimDecision}
    (done : loop.observe phase clock = .ok (next, decision)) : next.tuning = loop.tuning := by
  obtain ⟨error, -, ⟨-, rfl, -⟩ | ⟨-, -, rfl, -⟩ | ⟨-, -, count, -, rfl, -⟩⟩ := observe_cases done
  · rfl
  · rfl
  · rfl

/-- What one event keeps: a trim and a stable observation clear the count, as no pending one does. -/
theorem Accounts.perform {tuning : Tuning} {loop next : TrimLoop} {past : List Record}
    {event : Event} {entry : Record} (accounts : Accounts tuning loop past)
    (performed : loop.perform event = .ok (next, entry)) :
    Accounts tuning next (entry :: past) := by
  cases event with
  | reset =>
      cases performed
      exact {
        tuned := accounts.tuned
        count := (balance_of_settled rfl past).symm
        bounded := Int.le_max_right _ _
        calibrated := iff_of_false Bool.false_ne_true
          ((sinceReset_ne_nil_iff _ past).not.2 Bool.false_ne_true) }
  | observe phase clock =>
      obtain ⟨error, decision, measured, observed, rfl⟩ := perform_observe_eq_ok_iff.1 performed
      have kept := (tuning_of_observe observed).trans accounts.tuned
      have bounded := natAbs_count_le_of_observe observed
      rw [kept] at bounded
      have seen : sinceReset (.observed error clock decision :: past) ≠ [] :=
        (sinceReset_ne_nil_iff _ past).2 rfl
      obtain ⟨other, same, cases⟩ := observe_cases observed
      obtain rfl := Except.ok.inj (measured.symm.trans same)
      have calibrated (waits : ¬loop.Due) : loop.calibrated = true :=
        Bool.of_not_eq_false fun uncalibrated => waits (.inl uncalibrated)
      rcases cases with ⟨-, rfl, rfl⟩ | ⟨waits, -, rfl, rfl⟩ | ⟨waits, -, count, value, rfl, rfl⟩
      · exact ⟨kept, (balance_of_settled rfl past).symm, bounded, iff_of_true rfl seen⟩
      · exact ⟨kept, (balance_of_settled rfl past).symm, bounded,
          iff_of_true (calibrated waits) seen⟩
      · refine ⟨kept, ?_, bounded, iff_of_true (calibrated waits) seen⟩
        rw [balance_of_pending rfl, ← accounts.count]
        exact value

theorem accounts_of_run {tuning : Tuning} {events : List Event} {loop : TrimLoop}
    {history : List Record} (reached : run tuning events = .ok (loop, history)) :
    Accounts tuning loop history := by
  induction events using List.reverseRecOn generalizing loop history with
  | nil =>
      cases reached
      exact accounts_start tuning
  | append_singleton events event ih =>
      obtain ⟨former, past, entry, before, performed, rfl⟩ := run_concat_eq_ok_iff.1 reached
      exact (ih before).perform performed

/-- A loop whose threshold is not the greatest word runs as long as the errors can be measured. -/
theorem exists_run {tuning : Tuning} (low : tuning.threshold < Int32.maxValue)
    {events : List Event}
    (measured : ∀ phase clock, .observe phase clock ∈ events →
      ∃ error, tuning.error phase = .ok error) :
    ∃ loop history, run tuning events = .ok (loop, history) := by
  induction events using List.reverseRecOn with
  | nil => exact ⟨_, _, rfl⟩
  | append_singleton events event ih =>
      obtain ⟨loop, past, before⟩ := ih fun phase clock member =>
        measured phase clock (List.mem_append_left _ member)
      cases event with
      | reset => exact ⟨_, _, run_concat_eq_ok_iff.2 ⟨loop, past, _, before, rfl, rfl⟩⟩
      | observe phase clock =>
          have accounts := accounts_of_run before
          obtain ⟨error, known⟩ := measured phase clock (List.mem_append_right _ List.mem_cons_self)
          rw [← accounts.tuned] at known
          obtain ⟨next, decision, observed⟩ := exists_observe clock known
            (by rw [accounts.tuned]; exact Int32.lt_iff_toInt_lt.1 low)
            (by rw [accounts.tuned]; exact accounts.bounded)
          exact ⟨_, _, run_concat_eq_ok_iff.2 ⟨loop, past, _, before,
            perform_observe_eq_ok_iff.2 ⟨error, decision, known, observed, rfl⟩, rfl⟩⟩

/-! ## The distance of trims -/

/-- A trim on record was due by the history before it. -/
theorem due_of_isTrim {tuning : Tuning} {events : List Event} {last : TrimLoop}
    {later past : List Record} {entry : Record}
    (reached : run tuning events = .ok (last, later ++ entry :: past))
    (trims : entry.isTrim = true) :
    sinceReset past = [] ∨ tuning.threshold.toInt < (balance past).natAbs := by
  obtain ⟨before, loop, event, next, start, performed⟩ := exists_origin reached
  have accounts := accounts_of_run start
  cases event with
  | reset =>
      cases performed
      exact absurd trims Bool.false_ne_true
  | observe phase clock =>
      obtain ⟨error, decision, measured, observed, rfl⟩ := perform_observe_eq_ok_iff.1 performed
      rcases (decides_of_observe measured observed).trim.1 trims with uncalibrated | above
      · left
        by_contra nonempty
        exact Bool.false_ne_true (uncalibrated.symm.trans (accounts.calibrated.2 nonempty))
      · right
        rwa [accounts.tuned, accounts.count] at above

/-- Between two trims without a reset the count is built up beyond the threshold. -/
theorem threshold_lt_countP_pending {tuning : Tuning} {events : List Event} {last : TrimLoop}
    {later between earlier : List Record} {second first : Record}
    (reached : run tuning events =
      .ok (last, later ++ second :: (between ++ first :: earlier)))
    (secondTrims : second.isTrim = true) (firstTrims : first.isTrim = true)
    (unbroken : .restarted ∉ between) :
    tuning.threshold.toInt < between.countP Record.isPending := by
  have observed : first.isObserved = true ∧ first.isPending = false := by
    cases first with
    | restarted => exact absurd firstTrims Bool.false_ne_true
    | observed error clock decision =>
        cases decision with
        | trim offset drift => exact ⟨rfl, rfl⟩
        | stable => exact absurd firstTrims Bool.false_ne_true
        | pending count => exact absurd firstTrims Bool.false_ne_true
  have nonempty : sinceReset (between ++ first :: earlier) ≠ [] := by
    cases between with
    | nil => exact (sinceReset_ne_nil_iff _ _).2 observed.1
    | cons entry rest =>
        refine (sinceReset_ne_nil_iff _ _).2 ?_
        cases entry with
        | observed error clock decision => rfl
        | restarted => exact absurd List.mem_cons_self unbroken
  have above := (due_of_isTrim reached secondTrims).resolve_left nonempty
  have size := natAbs_balance_le (between ++ first :: earlier)
  have counted := length_pendingRun_le observed.2 between earlier
  omega

/--
A run of observations whose errors can be measured, with resets in between,
comes to an end without an overflow.  The state of the loop is then what its
history makes of it, the next observation is decided by this state and the
error alone, and any two trims without a reset between them are kept apart by
more pending observations than the threshold.
-/
theorem run_follows_history (tuning : Tuning) (low : tuning.threshold < Int32.maxValue)
    (events : List Event)
    (measured : ∀ phase clock, .observe phase clock ∈ events →
      ∃ error, tuning.error phase = .ok error) :
    ∃ loop history, run tuning events = .ok (loop, history) ∧
      Accounts tuning loop history ∧
      (∀ phase clock error, tuning.error phase = .ok error →
        ∃ next decision, loop.observe phase clock = .ok (next, decision) ∧
          loop.Decides error decision) ∧
      (∀ later second between first earlier,
        history = later ++ second :: (between ++ first :: earlier) →
        second.isTrim = true → first.isTrim = true → .restarted ∉ between →
          tuning.threshold.toInt + 1 ≤ between.countP Record.isPending) := by
  obtain ⟨loop, history, reached⟩ := exists_run low measured
  have accounts := accounts_of_run reached
  refine ⟨loop, history, reached, accounts, ?_, ?_⟩
  · intro phase clock error known
    rw [← accounts.tuned] at known
    obtain ⟨next, decision, observed⟩ := exists_observe clock known
      (by rw [accounts.tuned]; exact Int32.lt_iff_toInt_lt.1 low)
      (by rw [accounts.tuned]; exact accounts.bounded)
    exact ⟨next, decision, observed, decides_of_observe known observed⟩
  · rintro later second between first earlier rfl secondTrims firstTrims unbroken
    exact threshold_lt_countP_pending reached secondTrims firstTrims unbroken

/-- A clock that is 50 microseconds late: three observations pend before the second trim. -/
theorem run_follows_history_late :
    let events : List Event := [.observe 2250 0, .observe 2750 1000, .observe 2750 2000,
      .observe 2750 3000, .observe 2750 4000, .observe 2750 5000]
    let between : List Record := [.observed 500 3000 (.pending 3),
      .observed 500 2000 (.pending 2), .observed 500 1000 (.pending 1)]
    ({} : Tuning).threshold < Int32.maxValue ∧
      (∀ phase clock, .observe phase clock ∈ events →
        ∃ error, ({} : Tuning).error phase = .ok error) ∧
      ∃ loop history, run {} events = .ok (loop, history) ∧
        history = [.observed 500 5000 (.pending 1)] ++
          .observed 500 4000 (.trim 500 (some 40)) ::
            (between ++ .observed 0 0 (.trim 0 none) :: []) ∧
        Accounts {} loop history ∧ balance history = 1 ∧
        2 + 1 ≤ between.countP Record.isPending := by
  intro events between
  have measured : ∀ phase clock, .observe phase clock ∈ events →
      ∃ error, ({} : Tuning).error phase = .ok error := by
    intro phase clock member
    simp only [events, List.mem_cons, Event.observe.injEq, List.not_mem_nil, or_false] at member
    rcases member with ⟨rfl, -⟩ | ⟨rfl, -⟩ | ⟨rfl, -⟩ | ⟨rfl, -⟩ | ⟨rfl, -⟩ | ⟨rfl, -⟩
    · exact ⟨0, rfl⟩
    all_goals exact ⟨500, rfl⟩
  obtain ⟨loop, history, reached, accounts, -, spaced⟩ :=
    run_follows_history {} (by decide) events measured
  have same : history = [.observed 500 5000 (.pending 1)] ++
      .observed 500 4000 (.trim 500 (some 40)) ::
        (between ++ .observed 0 0 (.trim 0 none) :: []) := by
    cases reached
    rfl
  refine ⟨by decide, measured, loop, history, reached, same, accounts, ?_, ?_⟩
  · rw [same]
    rfl
  · have apart := spaced _ _ _ _ _ same rfl rfl (by decide)
    have threshold : ({} : Tuning).threshold.toInt = 2 := rfl
    rw [threshold] at apart
    exact_mod_cast apart

end Piconet.TrimLoop
