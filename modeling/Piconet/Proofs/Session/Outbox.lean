import Piconet.Proofs.Session.Loss
import Piconet.Proofs.Session.Reception

/-!
# Commands that no packet carries

Only a declared loss queues commands, and only draining takes them.  What was
drained in a run and what is still queued at its end are therefore, in order,
the commands of all losses; each set is made from the hop sequence in force at
the loss and from the very record that brought it about.
-/

namespace Piconet.Session

/-- A declared loss: the hop sequence at that time and the record that brought it about. -/
structure Loss where
  sequence : HopSequence
  capture : Capture

def Loss.commands (loss : Loss) : Option UInt32 → List Command
  | none => []
  | some ahead =>
      let native := Clock.native loss.capture.clockHigh loss.capture.counter 0
      let master := UInt32.ofNat ((native.toNat + ahead.toNat) % 2 ^ 28)
      [.setChannel (loss.sequence.frequency master), .startHopping ahead 0]

def lossIn (before after : Session) : Operation → List Loss
  | .process capture =>
      if after.stats.losses = before.stats.losses then [] else [⟨before.sequence, capture⟩]
  | _ => []

def losses (session : Session) : List Operation → List Loss
  | [] => []
  | operation :: rest =>
      match session.perform operation with
      | .ok (next, _) => lossIn session next operation ++ next.losses rest
      | .error _ => []

def drainedBy : Operation → Answer → List Command
  | .drain, .commands commands => commands
  | _, _ => []

def drained (operations : List Operation) (answers : List Answer) : List Command :=
  (List.zipWith drainedBy operations answers).flatten

/-! ## One operation -/

theorem startCommands_eq (session : Session) (capture : Capture) :
    session.startCommands (Clock.native capture.clockHigh capture.counter 0) =
      Loss.commands ⟨session.sequence, capture⟩ session.settings.clockOffset := by
  rw [startCommands, Loss.commands.eq_def]
  cases known : session.settings.clockOffset with
  | none => rfl
  | some ahead =>
      have master : session.masterClock (Clock.native capture.clockHigh capture.counter 0) =
          UInt32.ofNat (((Clock.native capture.clockHigh capture.counter 0).toNat +
            ahead.toNat) % 2 ^ 28) := by
        rw [masterClock, known, ← Clock.toNat_master, UInt32.ofNat_toNat]
        rfl
      rw [master]
      rfl

theorem lossIn_of_kept {before after : Session} (operation : Operation)
    (kept : after.stats.losses = before.stats.losses) : lossIn before after operation = [] := by
  cases operation with
  | process capture => exact if_pos kept
  | _ => rfl

/-- The commands that a loss queues are those of the loss. -/
theorem outbox_of_miss (session : Session) (capture : Capture) :
    (session.counted.note capture).1.miss.outbox = session.outbox ++
      (lossIn session (session.counted.note capture).1.miss (.process capture)).flatMap
        (Loss.commands · session.settings.clockOffset) := by
  cases lost : session.losesAt (session.misses + 1) with
  | true =>
      have grown := (loses_of_losesAt capture lost).losses
      rw [lossIn, if_neg (by omega), miss_note_eq, if_pos lost, List.flatMap_singleton]
      exact congrArg (session.outbox ++ ·) (session.startCommands_eq capture)
  | false =>
      have kept := endures_of_not_losesAt capture lost
      rw [lossIn_of_kept _ kept.losses, kept.outbox]
      exact (List.append_nil _).symm

/-- One operation queues the commands of the loss that it declares, or drains the queue. -/
theorem outbox_of_perform {session next : Session} {operation : Operation} {answer : Answer}
    (done : session.perform operation = .ok (next, answer)) :
    drainedBy operation answer ++ next.outbox = session.outbox ++
      (lossIn session next operation).flatMap
        (Loss.commands · session.settings.clockOffset) := by
  cases operation with
  | process capture =>
      obtain ⟨result, step, rfl⟩ := perform_process_eq_ok_iff.1 done
      rw [drainedBy, List.nil_append]
      · obtain ⟨-, rfl, -⟩ | ⟨-, -, rfl, -⟩ | ⟨-, found, action, -, trimmed, -⟩ :=
          session.process_cases step
        · have kept : session.counted.stats.losses = session.stats.losses := rfl
          rw [lossIn_of_kept _ kept]
          exact (List.append_nil _).symm
        · exact session.outbox_of_miss capture
        · have heard := heard_of_trimFor trimmed
          rw [lossIn_of_kept _ heard.losses, heard.outbox]
          exact (List.append_nil _).symm
      · exact nofun
  | drain =>
      cases done
      rfl
  | hop clock =>
      cases done
      exact (List.append_nil _).symm
  | start native =>
      cases done
      exact (List.append_nil _).symm
  | setMap map =>
      obtain ⟨reply, performed⟩ := session.exists_perform_setMap map
      cases performed.symm.trans done
      exact (List.append_nil _).symm
  | clearMap =>
      cases done
      exact (List.append_nil _).symm
  | resetTrim =>
      cases done
      exact (List.append_nil _).symm

/-- The losses on record are those that the session has counted. -/
theorem length_lossIn {session next : Session} {operation : Operation} {answer : Answer}
    (done : session.perform operation = .ok (next, answer)) :
    next.stats.losses = session.stats.losses + (lossIn session next operation).length := by
  by_cases same : next.stats.losses = session.stats.losses
  · rw [same, lossIn_of_kept _ same, List.length_nil, Nat.add_zero]
  · obtain ⟨capture, rfl, -, rfl⟩ := loses_of_losses_ne done same
    rw [lossIn, if_neg same]
    rfl

/-! ## Runs -/

/-- What was queued in the beginning comes first, then the commands of the losses in order. -/
theorem drained_append_outbox {session last : Session} {operations : List Operation}
    {answers : List Answer} (reached : session.run operations = .ok (last, answers)) :
    drained operations answers ++ last.outbox = session.outbox ++
      (session.losses operations).flatMap (Loss.commands · session.settings.clockOffset) := by
  induction operations generalizing session answers with
  | nil =>
      cases reached
      exact (List.append_nil _).symm
  | cons operation rest ih =>
      obtain ⟨next, answer, later, performed, continued, rfl⟩ := run_cons_eq_ok_iff.1 reached
      have settings := (perform_followsSame performed).settings
      have first := outbox_of_perform performed
      have onward := ih continued
      rw [settings] at onward
      rw [losses, performed]
      calc drained (operation :: rest) (answer :: later) ++ last.outbox
          = drainedBy operation answer ++ (drained rest later ++ last.outbox) :=
            List.append_assoc _ _ _
        _ = drainedBy operation answer ++ next.outbox ++ (next.losses rest).flatMap
              (Loss.commands · session.settings.clockOffset) := by
            rw [onward, List.append_assoc]
        _ = session.outbox ++ (lossIn session next operation ++ next.losses rest).flatMap
              (Loss.commands · session.settings.clockOffset) := by
            rw [first, List.flatMap_append, List.append_assoc]

theorem length_losses {session last : Session} {operations : List Operation}
    {answers : List Answer} (reached : session.run operations = .ok (last, answers)) :
    last.stats.losses = session.stats.losses + (session.losses operations).length := by
  induction operations generalizing session answers with
  | nil =>
      cases reached
      rfl
  | cons operation rest ih =>
      obtain ⟨next, answer, later, performed, continued, rfl⟩ := run_cons_eq_ok_iff.1 reached
      have first := length_lossIn performed
      have onward := ih continued
      rw [losses, performed]
      change last.stats.losses =
        session.stats.losses + (lossIn session next operation ++ next.losses rest).length
      rw [List.length_append]
      omega

theorem mem_lossIn {before after : Session} {operation : Operation} {loss : Loss}
    (member : loss ∈ lossIn before after operation) :
    operation = .process loss.capture ∧ loss.sequence = before.sequence := by
  cases operation with
  | process capture =>
      rw [lossIn] at member
      split at member
      · cases member
      · cases List.mem_singleton.1 member
        exact ⟨rfl, rfl⟩
  | _ => cases member

/-- A loss comes from one of the records, processed with the hop sequence as it was then. -/
theorem exists_record_of_loss {session : Session} {operations : List Operation} {loss : Loss}
    (member : loss ∈ session.losses operations) :
    ∃ before after middle answers, operations = before ++ .process loss.capture :: after ∧
      session.run before = .ok (middle, answers) ∧ loss.sequence = middle.sequence := by
  induction operations generalizing session with
  | nil => cases member
  | cons operation rest ih =>
      rw [losses] at member
      cases performed : session.perform operation with
      | error overflow =>
          rw [performed] at member
          cases member
      | ok outcome =>
          obtain ⟨next, answer⟩ := outcome
          rw [performed] at member
          rcases List.mem_append.1 member with first | later
          · obtain ⟨rfl, same⟩ := mem_lossIn first
            exact ⟨[], rest, session, [], rfl, rfl, same⟩
          · obtain ⟨before, after, middle, answers, rfl, reached, same⟩ := ih later
            exact ⟨operation :: before, after, middle, answer :: answers, rfl,
              run_cons_eq_ok_iff.2 ⟨next, answer, answers, performed, reached, rfl⟩, same⟩

/--
Whatever is asked of a session, the commands drained from it and those still
queued are, in order, the commands of the losses that it has declared.  Each
loss comes from one of the records processed, with the hop sequence as the
changes of the map before this record had left it.
-/
theorem drained_and_queued_are_restarts {address : Address} {map : Option ChannelMap}
    {settings : Settings} {operations : List Operation} {session : Session}
    {answers : List Answer}
    (reached : (Session.new address map settings).run operations = .ok (session, answers)) :
    drained operations answers ++ session.outbox =
      ((Session.new address map settings).losses operations).flatMap
        (Loss.commands · settings.clockOffset) ∧
    ((Session.new address map settings).losses operations).length = session.stats.losses ∧
    ∀ loss ∈ (Session.new address map settings).losses operations,
      ∃ before after, operations = before ++ .process loss.capture :: after ∧
        loss.sequence =
          (HopSequence.new address map).changed (before.filterMap Operation.mapChange?) := by
  have all := drained_append_outbox reached
  have count := length_losses reached
  refine ⟨all, (count.trans (Nat.zero_add _)).symm, ?_⟩
  intro loss member
  obtain ⟨before, after, middle, former, split, start, same⟩ := exists_record_of_loss member
  exact ⟨before, after, split, same.trans (sequence_of_run start)⟩

/-- Two losses, with a drain and the end of a map between them. -/
theorem drained_and_queued_are_restarts_twice :
    let settings : Settings := { clockOffset := some 0x100, lostAfter := 1 }
    let map : ChannelMap := ⟨#v[0xff, 0xff, 0, 0, 0, 0, 0, 0, 0, 0]⟩
    let start := Session.new (.ofNat 0x9e8b33) (some map) settings
    let operations : List Operation := [.process (quietRecord 100000), .drain, .clearMap,
      .process (quietRecord 300000)]
    ∃ session answers, start.run operations = .ok (session, answers) ∧
      drained operations answers = [.setChannel 2416, .startHopping 0x100 0] ∧
      session.outbox = [.setChannel 2477, .startHopping 0x100 0] ∧
      (start.losses operations).flatMap (Loss.commands · settings.clockOffset) =
        [.setChannel 2416, .startHopping 0x100 0, .setChannel 2477, .startHopping 0x100 0] := by
  intro settings map start operations
  have quiet {former : List Operation} {session : Session} {answers : List Answer}
      (reached : start.run former = .ok (session, answers)) (counter : UInt32) :
      start.run (former ++ [.process (quietRecord counter)]) =
        .ok ((session.counted.note (quietRecord counter)).1.miss, answers ++ [.packet none]) := by
    have miss := isMiss_quietRecord counter settings rfl
    rw [← correlator_of_run reached] at miss
    exact run_concat_eq_ok_iff.2 ⟨session, answers, _, reached,
      perform_process_eq_ok_iff.2 ⟨none, process_of_miss miss, rfl⟩, rfl⟩
  have first := quiet start.run_nil 100000
  have second := run_concat_eq_ok_iff.2 ⟨_, _, _, first, (rfl : perform _ .drain = _), rfl⟩
  have third := run_concat_eq_ok_iff.2 ⟨_, _, _, second, (rfl : perform _ .clearMap = _), rfl⟩
  have fourth := quiet third 300000
  have all := (drained_and_queued_are_restarts fourth).1
  refine ⟨_, _, fourth, ?_, ?_, all.symm.trans ?_⟩
  all_goals
    clear all fourth third second first quiet
    subst operations start map settings
    decide +kernel

end Piconet.Session
