import Mathlib.Algebra.Group.Nat.Defs
import Mathlib.Data.List.DropRight
import Mathlib.Data.List.Induction
import Piconet.Proofs.Hop.Changes
import Piconet.Proofs.Session.Step

/-!
# Hits and misses

A basic-rate record either holds the access code or it does not.  Over any run
the counter of a session says how many records have missed it since the latest
one that held it, modulo the size of the counter; nothing else that is asked of
a session has a part in this.
-/

namespace Piconet.Session

def correlatorFor (address : Address) (settings : Settings) : Correlator where
  syncWord := address.syncWord
  tolerance := settings.tolerance

namespace Operation

def isHit (correlator : Correlator) : Operation → Bool
  | process capture => capture.isBasicRate && (correlator.find? capture.symbols).isSome
  | _ => false

def isMiss (correlator : Correlator) : Operation → Bool
  | process capture => capture.isBasicRate && (correlator.find? capture.symbols).isNone
  | _ => false

def mapChange? : Operation → Option HopSequence.Change
  | setMap map => some (.setMap map)
  | clearMap => some .clearMap
  | _ => none

end Operation

theorem isHit_of_isMiss {correlator : Correlator} {operation : Operation}
    (miss : operation.isMiss correlator = true) : operation.isHit correlator = false := by
  cases operation with
  | process capture =>
      rw [Operation.isMiss, Bool.and_eq_true, Option.isNone_iff_eq_none] at miss
      rw [Operation.isHit, miss.2, Option.isSome_none, Bool.and_false]
  | _ => rfl

/-- How many misses there were since the latest hit, or since the start. -/
def missesSinceHit (correlator : Correlator) (operations : List Operation) : Nat :=
  (operations.rtakeWhile fun operation => !operation.isHit correlator).countP
    (Operation.isMiss correlator)

theorem missesSinceHit_of_hit {correlator : Correlator} (operations : List Operation)
    {operation : Operation} (hit : operation.isHit correlator = true) :
    missesSinceHit correlator (operations ++ [operation]) = 0 := by
  rw [missesSinceHit, List.rtakeWhile_concat_neg]
  · rfl
  · rw [hit]
    exact Bool.false_ne_true

theorem missesSinceHit_of_not_hit {correlator : Correlator} (operations : List Operation)
    {operation : Operation} (other : operation.isHit correlator = false) :
    missesSinceHit correlator (operations ++ [operation]) =
      missesSinceHit correlator operations + (operation.isMiss correlator).toNat := by
  rw [missesSinceHit, List.rtakeWhile_concat_pos, List.countP_append]
  · cases miss : operation.isMiss correlator with
    | false => rw [List.countP_singleton, miss]; rfl
    | true => rw [List.countP_singleton, miss]; rfl
  · rw [other]
    rfl

/-! ## What an operation does to the counter -/

def missing (session : Session) (capture : Capture) : Session :=
  { (session.counted.note capture).1 with misses := session.misses + 1 }

theorem miss_note_eq (session : Session) (capture : Capture) :
    (session.counted.note capture).1.miss =
      if session.losesAt (session.misses + 1) = true then (session.missing capture).lose
      else session.missing capture :=
  rfl

/-- What an operation leaves alone that is no basic-rate record. -/
structure Aside (before after : Session) : Prop where
  misses : after.misses = before.misses
  losses : after.stats.losses = before.stats.losses
  loop : after.loop = before.loop ∨ after.loop = before.loop.reset

/-- What a hit does besides the trim. -/
structure Heard (before after : Session) : Prop where
  misses : after.misses = 0
  losses : after.stats.losses = before.stats.losses
  outbox : after.outbox = before.outbox

theorem heard_of_trimFor {session next : Session} {capture : Capture} {found : AccessCode}
    {action : Option TrimDecision} (trimmed : session.trimFor capture found = .ok (next, action)) :
    Heard session next := by
  obtain ⟨-, rfl, -⟩ | ⟨-, loop, decision, -, rfl, -⟩ := (trim_eq_ok_iff _).1 trimmed
  · exact ⟨rfl, rfl, rfl⟩
  · exact ⟨rfl, rfl, rfl⟩

theorem aside_setMap (session : Session) (map : ChannelMap) :
    Aside session (session.setMap map).1 :=
  ⟨rfl, rfl, .inl rfl⟩

theorem exists_perform_setMap (session : Session) (map : ChannelMap) :
    ∃ answer, session.perform (.setMap map) = .ok ((session.setMap map).1, answer) := by
  rw [perform]
  cases session.setMap map with
  | mk changed reply =>
      cases reply with
      | ok command => exact ⟨_, rfl⟩
      | error refusal => exact ⟨_, rfl⟩

theorem perform_process_eq_ok_iff {session next : Session} {capture : Capture} {answer : Answer} :
    session.perform (.process capture) = .ok (next, answer) ↔
      ∃ result, session.process capture = .ok (next, result) ∧ answer = .packet result := by
  rw [perform, Overflow.bind_eq_ok_iff]
  constructor
  · rintro ⟨⟨processed, result⟩, step, same⟩
    cases same
    exact ⟨result, step, rfl⟩
  · rintro ⟨result, step, rfl⟩
    exact ⟨(next, result), step, rfl⟩

/-- An operation is a miss, or a hit, or it has nothing to do with either. -/
theorem perform_cases {session next : Session} {operation : Operation} {answer : Answer}
    (done : session.perform operation = .ok (next, answer)) :
    (∃ capture, operation = .process capture ∧ operation.isHit session.correlator = false ∧
      operation.isMiss session.correlator = true ∧
        next = (session.counted.note capture).1.miss ∧ answer = .packet none) ∨
    (∃ capture found action, operation = .process capture ∧
      operation.isHit session.correlator = true ∧
        operation.isMiss session.correlator = false ∧
          session.trimFor capture found = .ok (next, action) ∧
            answer = .packet (some (session.packetFor capture found action))) ∨
    (operation.isHit session.correlator = false ∧
      operation.isMiss session.correlator = false ∧ Aside session next) := by
  cases operation with
  | process capture =>
      obtain ⟨result, step, rfl⟩ := perform_process_eq_ok_iff.1 done
      simp only [Operation.isHit, Operation.isMiss]
      obtain ⟨rejected, rfl, rfl⟩ | ⟨valid, missed, rfl, rfl⟩ |
        ⟨valid, found, action, heard, trimmed, rfl⟩ := session.process_cases step
      · rw [rejected]
        exact .inr (.inr ⟨rfl, rfl, rfl, rfl, .inl rfl⟩)
      · rw [valid, missed]
        exact .inl ⟨capture, rfl, rfl, rfl, rfl, rfl⟩
      · rw [valid, heard]
        exact .inr (.inl ⟨capture, found, action, rfl, rfl, rfl, trimmed, rfl⟩)
  | drain =>
      cases done
      exact .inr (.inr ⟨rfl, rfl, rfl, rfl, .inl rfl⟩)
  | hop clock =>
      cases done
      exact .inr (.inr ⟨rfl, rfl, rfl, rfl, .inl rfl⟩)
  | start native =>
      cases done
      exact .inr (.inr ⟨rfl, rfl, rfl, rfl, .inl rfl⟩)
  | setMap map =>
      obtain ⟨reply, performed⟩ := session.exists_perform_setMap map
      cases performed.symm.trans done
      exact .inr (.inr ⟨rfl, rfl, session.aside_setMap map⟩)
  | clearMap =>
      cases done
      exact .inr (.inr ⟨rfl, rfl, rfl, rfl, .inl rfl⟩)
  | resetTrim =>
      cases done
      exact .inr (.inr ⟨rfl, rfl, rfl, rfl, .inr rfl⟩)

/-! ## Runs read from their end -/

theorem run_cons_eq_ok_iff {session last : Session} {operation : Operation}
    {rest : List Operation} {answers : List Answer} :
    session.run (operation :: rest) = .ok (last, answers) ↔
      ∃ next answer later, session.perform operation = .ok (next, answer) ∧
        next.run rest = .ok (last, later) ∧ answers = answer :: later := by
  rw [run, Overflow.bind_eq_ok_iff]
  constructor
  · rintro ⟨⟨next, answer⟩, performed, continued⟩
    obtain ⟨⟨finish, later⟩, reached, same⟩ := Overflow.bind_eq_ok_iff.1 continued
    cases same
    exact ⟨next, answer, later, performed, reached, rfl⟩
  · rintro ⟨next, answer, later, performed, reached, rfl⟩
    exact ⟨(next, answer), performed, Overflow.bind_eq_ok_iff.2 ⟨(last, later), reached, rfl⟩⟩

theorem run_concat_eq_ok_iff {session last : Session} {operations : List Operation}
    {operation : Operation} {answers : List Answer} :
    session.run (operations ++ [operation]) = .ok (last, answers) ↔
      ∃ middle former answer, session.run operations = .ok (middle, former) ∧
        middle.perform operation = .ok (last, answer) ∧ answers = former ++ [answer] := by
  induction operations generalizing session answers with
  | nil =>
      rw [List.nil_append, run_cons_eq_ok_iff]
      constructor
      · rintro ⟨next, answer, later, performed, same, rfl⟩
        cases same
        exact ⟨session, [], answer, rfl, performed, rfl⟩
      · rintro ⟨middle, former, answer, same, performed, rfl⟩
        cases same
        exact ⟨last, answer, [], performed, rfl, rfl⟩
  | cons first rest ih =>
      rw [List.cons_append, run_cons_eq_ok_iff]
      constructor
      · rintro ⟨next, answer, later, performed, reached, rfl⟩
        obtain ⟨middle, former, latest, before, final, rfl⟩ := ih.1 reached
        exact ⟨middle, answer :: former, latest,
          run_cons_eq_ok_iff.2 ⟨next, answer, former, performed, before, rfl⟩, final, rfl⟩
      · rintro ⟨middle, former, latest, reached, final, rfl⟩
        obtain ⟨next, answer, later, performed, before, rfl⟩ := run_cons_eq_ok_iff.1 reached
        exact ⟨next, answer, later ++ [latest], performed,
          ih.2 ⟨middle, later, latest, before, final, rfl⟩, rfl⟩

/-- Each answer of a run is that of one operation, asked of the session as it was by then. -/
theorem exists_perform_of_answer {session last : Session} {operations : List Operation}
    {answers : List Answer} (reached : session.run operations = .ok (last, answers))
    {index : Nat} {answer : Answer} (given : answers[index]? = some answer) :
    ∃ before operation after middle former next, operations = before ++ operation :: after ∧
      before.length = index ∧ session.run before = .ok (middle, former) ∧
        middle.perform operation = .ok (next, answer) := by
  induction operations generalizing session answers index with
  | nil =>
      cases reached
      cases given
  | cons operation rest ih =>
      obtain ⟨next, first, later, performed, continued, rfl⟩ := run_cons_eq_ok_iff.1 reached
      cases index with
      | zero =>
          cases given
          exact ⟨[], operation, rest, session, [], next, rfl, rfl, rfl, performed⟩
      | succ index =>
          obtain ⟨before, asked, after, middle, former, following, rfl, rfl, start, done⟩ :=
            ih continued given
          exact ⟨operation :: before, asked, after, middle, first :: former, following, rfl, rfl,
            run_cons_eq_ok_iff.2 ⟨next, first, former, performed, start, rfl⟩, done⟩

/-- What holds in the beginning and is carried on by every operation holds of a run as a whole. -/
theorem run_induction (Holds : List Operation → Session → Prop) {session : Session}
    (start : Holds [] session)
    (carries : ∀ operations answers middle operation next answer,
      session.run operations = .ok (middle, answers) →
      middle.perform operation = .ok (next, answer) →
      Holds operations middle → Holds (operations ++ [operation]) next)
    {last : Session} {operations : List Operation} {answers : List Answer}
    (reached : session.run operations = .ok (last, answers)) : Holds operations last := by
  induction operations using List.reverseRecOn generalizing last answers with
  | nil =>
      cases reached
      exact start
  | append_singleton operations operation ih =>
      obtain ⟨middle, former, answer, before, performed, -⟩ := run_concat_eq_ok_iff.1 reached
      exact carries operations former middle operation last answer before performed (ih before)

/-! ## The hop sequence over a run -/

/-- A record changes neither the hop sequence nor the map. -/
theorem hopping_of_process {session next : Session} {capture : Capture}
    {result : Option Packet} (done : session.process capture = .ok (next, result)) :
    next.sequence = session.sequence ∧ next.map = session.map := by
  obtain ⟨-, rfl, -⟩ | ⟨-, -, rfl, -⟩ | ⟨-, found, action, -, trimmed, -⟩ :=
    session.process_cases done
  · exact ⟨rfl, rfl⟩
  · rw [miss_note_eq]
    split
    · exact ⟨rfl, rfl⟩
    · exact ⟨rfl, rfl⟩
  · obtain ⟨-, rfl, -⟩ | ⟨-, loop, decision, -, rfl, -⟩ := (trim_eq_ok_iff _).1 trimmed
    · exact ⟨rfl, rfl⟩
    · exact ⟨rfl, rfl⟩

/-- The hop sequence of a session is the one that it was made with, after the changes of the map. -/
theorem sequence_of_run {address : Address} {map : Option ChannelMap} {settings : Settings}
    {session : Session} {operations : List Operation} {answers : List Answer}
    (reached : (Session.new address map settings).run operations = .ok (session, answers)) :
    session.sequence =
      (HopSequence.new address map).changed (operations.filterMap Operation.mapChange?) := by
  refine run_induction (fun operations session => session.sequence =
    (HopSequence.new address map).changed (operations.filterMap Operation.mapChange?))
      rfl ?_ reached
  intro operations answers middle operation next answer before performed former
  rw [List.filterMap_append]
  cases operation with
  | process capture =>
      obtain ⟨result, step, rfl⟩ := perform_process_eq_ok_iff.1 performed
      rw [(hopping_of_process step).1, former]
      exact congrArg _ (List.append_nil _).symm
  | setMap map =>
      obtain ⟨reply, changes⟩ := middle.exists_perform_setMap map
      cases changes.symm.trans performed
      refine Eq.trans ?_ (HopSequence.changed_concat _ _ (.setMap map)).symm
      rw [← former]
      rfl
  | clearMap =>
      cases performed
      refine Eq.trans ?_ (HopSequence.changed_concat _ _ .clearMap).symm
      rw [← former]
      rfl
  | drain | hop clock | start native | resetTrim =>
      cases performed
      exact former.trans (congrArg _ (List.append_nil _).symm)

/-- The map that a session notes is the one in force. -/
theorem map_eq_of_run {address : Address} {map : Option ChannelMap} {settings : Settings}
    {session : Session} {operations : List Operation} {answers : List Answer}
    (reached : (Session.new address map settings).run operations = .ok (session, answers)) :
    session.map = session.sequence.map := by
  refine run_induction (fun _ session => session.map = session.sequence.map) rfl ?_ reached
  intro operations answers middle operation next answer before performed noted
  cases operation with
  | process capture =>
      obtain ⟨result, step, rfl⟩ := perform_process_eq_ok_iff.1 performed
      obtain ⟨sequence, kept⟩ := hopping_of_process step
      rw [sequence, kept, noted]
  | setMap map =>
      obtain ⟨reply, changes⟩ := middle.exists_perform_setMap map
      cases changes.symm.trans performed
      rfl
  | clearMap =>
      cases performed
      rfl
  | drain | hop clock | start native | resetTrim =>
      cases performed
      exact noted

/-! ## The counter over a run -/

theorem FollowsSame.correlator {before after : Session} (same : FollowsSame before after) :
    after.correlator = before.correlator := by
  rw [Session.correlator, Session.correlator, same.address, same.settings]

theorem correlator_of_run {address : Address} {map : Option ChannelMap} {settings : Settings}
    {session : Session} {operations : List Operation} {answers : List Answer}
    (reached : (Session.new address map settings).run operations = .ok (session, answers)) :
    session.correlator = correlatorFor address settings := by
  rw [correlator, address_of_run reached, settings_of_run reached]
  rfl

/-- The misses in a row are counted by a word that starts again after its greatest value. -/
theorem misses_of_run {address : Address} {map : Option ChannelMap} {settings : Settings}
    {session : Session} {operations : List Operation} {answers : List Answer}
    (reached : (Session.new address map settings).run operations = .ok (session, answers)) :
    session.misses.toNat =
      missesSinceHit (correlatorFor address settings) operations % 2 ^ 32 := by
  refine run_induction (fun operations session => session.misses.toNat =
    missesSinceHit (correlatorFor address settings) operations % 2 ^ 32) rfl ?_ reached
  intro operations answers middle operation next answer before performed counted
  rw [← correlator_of_run before] at counted ⊢
  obtain ⟨capture, rfl, other, miss, rfl, -⟩ |
    ⟨capture, found, action, -, hit, -, trimmed, -⟩ | ⟨other, rest, aside⟩ :=
    perform_cases performed
  · have next : (middle.counted.note capture).1.miss.misses = middle.misses + 1 := by
      rw [miss_note_eq]
      split
      · rfl
      · rfl
    rw [next, missesSinceHit_of_not_hit _ other, miss, UInt32.toNat_add, counted]
    exact Nat.mod_add_mod _ _ _
  · rw [missesSinceHit_of_hit _ hit, (heard_of_trimFor trimmed).misses]
    rfl
  · rw [missesSinceHit_of_not_hit _ other, rest, aside.misses]
    exact counted

end Piconet.Session
