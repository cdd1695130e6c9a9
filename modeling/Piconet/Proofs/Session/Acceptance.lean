import Piconet.Proofs.Session.RadioMap
import Piconet.Proofs.Trim.Cancellation

/-!
# What the radio is asked to do

A radio takes a command only within bounds: a frequency in band, and on a channel
in use where a map is in force, a time within one slot, a map that leaves a
channel, and the clock offset that the session was set up with.  Every command
that a session hands out keeps them.  Those made on the spot keep to the map in
force; those that draining hands out were made at a loss, and keep to the map in
force then, which may have changed since.

A correction of the drift stands behind a trim in a packet, and needs an earlier
trim since the latest loss or reset.
-/

namespace Piconet

/-- What the radio takes from a session with some settings while a map is in force. -/
def Command.Acceptable (settings : Settings) (map : Option ChannelMap) : Command → Prop
  | setChannel megahertz =>
      2402 ≤ megahertz.toNat ∧ megahertz.toNat ≤ 2480 ∧
        ∀ active, map = some active →
          ∃ channel, active.isUsed channel = true ∧ megahertz.toNat = 2402 + channel.toNat
  | trimClock offset => offset.toNat < 6250
  | setChannelMap next => ∃ channel : UInt8, channel.toNat < 79 ∧ next.isUsed channel = true
  | startHopping ahead counter => settings.clockOffset = some ahead ∧ counter = 0
  | correctDrift _ | clearChannelMap => True

/-- A session tunes to a channel of its sequence. -/
theorem HopSequence.frequency_acceptable (sequence : HopSequence) (settings : Settings)
    (clock : UInt32) :
    (Command.setChannel (sequence.frequency clock)).Acceptable settings sequence.map := by
  have value := sequence.toNat_frequency clock
  have inBand : (sequence.channel clock).toNat < 79 := sequence.channel_lt clock
  refine ⟨by omega, by omega, fun active inForce => ⟨sequence.channel clock, ?_, value⟩⟩
  have used := sequence.uses_channel clock
  rwa [Uses, inForce] at used

theorem ChannelMap.Usable.acceptable {next : ChannelMap} (usable : next.Usable)
    (settings : Settings) (map : Option ChannelMap) :
    (Command.setChannelMap next).Acceptable settings map := by
  obtain ⟨channel, used⟩ := usable
  refine ⟨channel, ?_, used⟩
  by_contra outside
  rw [isUsed_of_ge (Nat.not_lt.1 outside)] at used
  exact Bool.false_ne_true used

namespace TrimLoop

/-- A trim stays within one slot. -/
theorem toNat_lt_of_observe {loop next : TrimLoop} {phase clock : UInt32} {offset : UInt16}
    {drift : Option Int16} (done : loop.observe phase clock = .ok (next, .trim offset drift)) :
    offset.toNat < 6250 := by
  obtain ⟨-, error, -, within⟩ := trim_of_observe done
  omega

/-- Only the first trim comes without an estimate of the drift. -/
theorem calibrated_of_ne_first {loop next : TrimLoop} {phase clock : UInt32}
    {decision : TrimDecision} (later : ∀ offset, decision ≠ .trim offset none)
    (done : loop.observe phase clock = .ok (next, decision)) : loop.calibrated = true := by
  cases calibrated : loop.calibrated with
  | true => rfl
  | false =>
      obtain ⟨offset, first⟩ := exists_trim_of_uncalibrated calibrated done
      exact absurd first (later offset)

end TrimLoop

namespace Session

variable {start session next : Session} {operations : List Operation} {answers : List Answer}

/-! ## When a command was made -/

/-- A record of a run that lost the piconet, and the session as it was before this record. -/
def LostAt (start : Session) (operations : List Operation) (moment : Session)
    (capture : Capture) : Prop :=
  ∃ before after former lost answer, operations = before ++ .process capture :: after ∧
    start.run before = .ok (moment, former) ∧
    moment.perform (.process capture) = .ok (lost, answer) ∧
    lost.stats.losses = moment.stats.losses + 1

def QueuedAt (start : Session) (operations : List Operation) (command : Command)
    (moment : Session) : Prop :=
  ∃ capture, LostAt start operations moment capture ∧
    command ∈ moment.startCommands (Clock.native capture.clockHigh capture.counter 0)

/--
The session as it was when a command was made that an operation hands out.  What
is drained was made at the loss that queued it, and anything else on the spot.
-/
def MadeAt (start : Session) (operations : List Operation) (session : Session)
    (command : Command) (moment : Session) : Operation → Prop
  | .drain => QueuedAt start operations command moment
  | .process _ | .hop _ | .start _ | .setMap _ | .clearMap | .resetTrim => moment = session

theorem LostAt.append {moment : Session} {capture : Capture}
    (lost : LostAt start operations moment capture) (operation : Operation) :
    LostAt start (operations ++ [operation]) moment capture := by
  obtain ⟨before, after, former, last, answer, rfl, rest⟩ := lost
  exact ⟨before, after ++ [operation], former, last, answer, by simp, rest⟩

/-- Whatever is queued after an operation was queued before, or by the loss that it declares. -/
theorem queued_of_perform {operation : Operation} {answer : Answer}
    (reached : start.run operations = .ok (session, answers))
    (performed : session.perform operation = .ok (next, answer)) {command : Command}
    (queued : command ∈ next.outbox) :
    command ∈ session.outbox ∨ QueuedAt start (operations ++ [operation]) command session := by
  have all := outbox_of_perform performed
  have either : command ∈ session.outbox ++ (lossIn session next operation).flatMap
      (Loss.commands · session.settings.clockOffset) := by
    rw [← all]
    exact List.mem_append_right _ queued
  rcases List.mem_append.1 either with old | new
  · exact .inl old
  · obtain ⟨⟨sequence, capture⟩, declared, made⟩ := List.mem_flatMap.1 new
    obtain ⟨rfl, rfl⟩ := mem_lossIn declared
    by_cases kept : next.stats.losses = session.stats.losses
    · rw [lossIn_of_kept _ kept] at declared
      cases declared
    · obtain ⟨record, -, -, rfl⟩ := loses_of_losses_ne performed kept
      rw [← startCommands_eq] at made
      exact .inr ⟨capture, ⟨operations, [], answers, _, answer, rfl, reached, performed, rfl⟩, made⟩

/-- Everything in the queue was put there by a loss. -/
theorem queued_of_run {address : Address} {map : Option ChannelMap} {settings : Settings}
    (reached : (Session.new address map settings).run operations = .ok (session, answers)) :
    ∀ command ∈ session.outbox,
      ∃ moment, QueuedAt (Session.new address map settings) operations command moment := by
  refine run_induction (fun operations session => ∀ command ∈ session.outbox,
    ∃ moment, QueuedAt (Session.new address map settings) operations command moment)
      ?_ ?_ reached
  · intro command member
    cases member
  · intro operations answers middle operation next answer before performed carried command queued
    rcases queued_of_perform before performed queued with old | new
    · obtain ⟨moment, capture, lost, made⟩ := carried command old
      exact ⟨moment, capture, lost.append operation, made⟩
    · exact ⟨middle, new⟩

/-! ## Trims since the latest reset -/

/-- A trim comes first, and then the correction of the drift, where there is one. -/
theorem mem_trimCommands_iff {action : Option TrimDecision} {command : Command} :
    command ∈ trimCommands action ↔
      (∃ offset drift, action = some (.trim offset drift) ∧ command = .trimClock offset) ∨
      ∃ offset rate, action = some (.trim offset (some rate)) ∧ command = .correctDrift rate := by
  match action with
  | none | some .stable | some (.pending _) => simp [trimCommands]
  | some (.trim offset none) => simp [trimCommands]
  | some (.trim offset (some rate)) => simp [trimCommands]

/-- A packet of a run had its radio trim, and since then nothing was lost or reset. -/
def TrimmedSince (start : Session) (operations : List Operation) (session : Session) : Prop :=
  ∃ before capture after middle former heard packet offset,
    operations = before ++ .process capture :: after ∧
    start.run before = .ok (middle, former) ∧
    middle.process capture = .ok (heard, some packet) ∧
    .trimClock offset ∈ packet.commands ∧
    session.stats.losses = heard.stats.losses ∧ .resetTrim ∉ after

theorem TrimmedSince.append (trimmed : TrimmedSince start operations session)
    {operation : Operation} (kept : next.stats.losses = session.stats.losses)
    (other : operation ≠ .resetTrim) : TrimmedSince start (operations ++ [operation]) next := by
  obtain ⟨before, capture, after, middle, former, heard, packet, offset, rfl, reached, done,
    moved, same, unbroken⟩ := trimmed
  refine ⟨before, capture, after ++ [operation], middle, former, heard, packet, offset,
    by simp, reached, done, moved, kept.trans same, ?_⟩
  intro member
  rcases List.mem_append.1 member with old | new
  · exact unbroken old
  · exact other (List.mem_singleton.1 new).symm

/-- A loop that is calibrated owes this to a trim that a packet has carried. -/
theorem trimmedSince_of_calibrated {address : Address} {map : Option ChannelMap}
    {settings : Settings}
    (reached : (Session.new address map settings).run operations = .ok (session, answers)) :
    session.loop.calibrated = true →
      TrimmedSince (Session.new address map settings) operations session := by
  refine run_induction (fun operations session => session.loop.calibrated = true →
    TrimmedSince (Session.new address map settings) operations session)
      (fun fresh => absurd fresh Bool.false_ne_true) ?_ reached
  intro operations answers middle operation next answer before performed carried calibrated
  have other : operation ≠ .resetTrim := by
    rintro rfl
    cases performed
    exact Bool.false_ne_true calibrated
  obtain ⟨capture, rfl, -, -, rfl, -⟩ | ⟨capture, found, action, rfl, -, -, trimmed, rfl⟩ |
    ⟨-, -, aside⟩ := perform_cases performed
  · cases lost : middle.losesAt (middle.misses + 1) with
    | true =>
        rw [(loses_of_losesAt capture lost).uncalibrated] at calibrated
        exact absurd calibrated Bool.false_ne_true
    | false =>
        have kept := endures_of_not_losesAt capture lost
        rw [kept.loop] at calibrated
        exact (carried calibrated).append kept.losses other
  · have kept := heard_of_trimFor trimmed
    obtain ⟨result, done, same⟩ := perform_process_eq_ok_iff.1 performed
    cases same
    obtain ⟨-, rfl, -⟩ | ⟨-, loop, decision, observed, rfl, rfl⟩ := (trim_eq_ok_iff _).1 trimmed
    · exact (carried calibrated).append kept.losses other
    · cases decision with
      | trim offset drift =>
          exact ⟨operations, capture, [], middle, answers, _, _, offset, rfl, before, done,
            mem_trimCommands_iff.2 (.inl ⟨offset, drift, rfl, rfl⟩), rfl, List.not_mem_nil⟩
      | stable | pending count =>
          have former := TrimLoop.calibrated_of_ne_first (fun _ first => by cases first) observed
          exact (carried former).append kept.losses other
  · obtain kept | restarted := aside.loop
    · rw [kept] at calibrated
      exact (carried calibrated).append aside.losses other
    · rw [restarted] at calibrated
      exact absurd calibrated Bool.false_ne_true

/-! ## One answer -/

theorem mem_startCommands {native : UInt32} {command : Command}
    (member : command ∈ session.startCommands native) :
    command = session.hopCommand (session.masterClock native) ∨
      ∃ ahead, session.settings.clockOffset = some ahead ∧ command = .startHopping ahead 0 := by
  rw [startCommands] at member
  cases known : session.settings.clockOffset with
  | none =>
      rw [known] at member
      cases member
  | some ahead =>
      rw [known] at member
      rcases List.mem_cons.1 member with rfl | later
      · exact .inl rfl
      · exact .inr ⟨ahead, rfl, List.mem_singleton.1 later⟩

theorem startCommands_acceptable {native : UInt32} {command : Command}
    (member : command ∈ session.startCommands native) :
    command.Acceptable session.settings session.sequence.map := by
  obtain rfl | ⟨ahead, known, rfl⟩ := mem_startCommands member
  · exact session.sequence.frequency_acceptable session.settings _
  · exact ⟨known, rfl⟩

theorem QueuedAt.acceptable {address : Address} {map : Option ChannelMap} {settings : Settings}
    {command : Command} {moment : Session}
    (queued : QueuedAt (Session.new address map settings) operations command moment) :
    command.Acceptable settings moment.map := by
  obtain ⟨capture, ⟨before, after, former, lost, answer, -, reached, -⟩, made⟩ := queued
  have acceptable := startCommands_acceptable made
  rwa [settings_of_run reached, ← map_eq_of_run reached] at acceptable

theorem commands_of_packet {capture : Capture} {packet : Packet}
    (done : session.process capture = .ok (next, some packet)) :
    packet.commands = trimCommands packet.trim := by
  obtain ⟨found, action, -, rfl⟩ := trimFor_of_packet done
  rfl

/-- What a packet asks for was decided by one observation of the trim loop. -/
theorem observed_of_packet {capture : Capture} {packet : Packet}
    (done : session.process capture = .ok (next, some packet)) {decision : TrimDecision}
    (decided : packet.trim = some decision) :
    ∃ loop, session.loop.observe packet.phase packet.nativeClock = .ok (loop, decision) := by
  obtain ⟨found, action, trimmed, rfl⟩ := trimFor_of_packet done
  obtain ⟨-, -, rfl⟩ | ⟨-, loop, other, observed, -, rfl⟩ := (trim_eq_ok_iff _).1 trimmed
  · cases decided
  · cases decided
    exact ⟨loop, observed⟩

theorem packet_acceptable {capture : Capture} {packet : Packet}
    (done : session.process capture = .ok (next, some packet)) (settings : Settings)
    (map : Option ChannelMap) : ∀ command ∈ packet.commands, command.Acceptable settings map := by
  intro command member
  rw [commands_of_packet done] at member
  obtain ⟨offset, drift, decided, rfl⟩ | ⟨offset, rate, -, rfl⟩ := mem_trimCommands_iff.1 member
  · obtain ⟨loop, observed⟩ := observed_of_packet done decided
    exact TrimLoop.toNat_lt_of_observe observed
  · trivial

/-- A correction of the drift is not made without a trim before it, in this packet and earlier. -/
theorem trims_of_correctDrift {capture : Capture} {packet : Packet} {rate : Int16}
    (done : session.process capture = .ok (next, some packet))
    (member : .correctDrift rate ∈ packet.commands) :
    (∃ offset, packet.commands = [.trimClock offset, .correctDrift rate]) ∧
      session.loop.calibrated = true := by
  rw [commands_of_packet done] at member ⊢
  obtain ⟨offset, drift, -, other⟩ | ⟨offset, other, decided, same⟩ :=
    mem_trimCommands_iff.1 member
  · cases other
  · cases same
    obtain ⟨loop, observed⟩ := observed_of_packet done decided
    rw [decided]
    exact ⟨⟨offset, rfl⟩, TrimLoop.calibrated_of_ne_first (fun _ first => by cases first) observed⟩

theorem mem_handedOut_setMap {map : ChannelMap} {answer : Answer}
    (done : session.perform (.setMap map) = .ok (next, answer)) {command : Command}
    (member : command ∈ answer.handedOut) : command = .setChannelMap map ∧ map.Usable := by
  rw [perform, Session.setMap, HopSequence.setMap, ReducedBank.ofMap?] at done
  by_cases usable : map.Usable
  · rw [dif_pos (map.bank_ne_nil_iff.2 usable)] at done
    cases done
    exact ⟨List.mem_singleton.1 member, usable⟩
  · rw [dif_neg (map.bank_ne_nil_iff.not.2 usable)] at done
    cases done
    cases member

/-- Every command is acceptable under the map that was in force when it was made. -/
theorem exists_madeAt {address : Address} {map : Option ChannelMap} {settings : Settings}
    (reached : (Session.new address map settings).run operations = .ok (session, answers))
    {operation : Operation} {answer : Answer}
    (performed : session.perform operation = .ok (next, answer)) :
    ∀ command ∈ answer.handedOut, ∃ moment,
      MadeAt (Session.new address map settings) operations session command moment operation ∧
        command.Acceptable settings moment.map := by
  intro command member
  have chosen := settings_of_run reached
  cases operation with
  | process capture =>
      obtain ⟨result, step, rfl⟩ := perform_process_eq_ok_iff.1 performed
      cases result with
      | none => cases member
      | some packet => exact ⟨session, rfl, packet_acceptable step settings _ command member⟩
  | drain =>
      cases performed
      obtain ⟨moment, queued⟩ := queued_of_run reached command member
      exact ⟨moment, queued, queued.acceptable⟩
  | hop clock =>
      cases performed
      cases List.mem_singleton.1 member
      have acceptable := session.sequence.frequency_acceptable settings clock
      rw [← map_eq_of_run reached] at acceptable
      exact ⟨session, rfl, acceptable⟩
  | start native =>
      cases performed
      have acceptable := startCommands_acceptable member
      rw [chosen, ← map_eq_of_run reached] at acceptable
      exact ⟨session, rfl, acceptable⟩
  | setMap map =>
      obtain ⟨rfl, usable⟩ := mem_handedOut_setMap performed member
      exact ⟨session, rfl, usable.acceptable settings _⟩
  | clearMap =>
      cases performed
      cases List.mem_singleton.1 member
      exact ⟨session, rfl, trivial⟩
  | resetTrim =>
      cases performed
      cases member

/-- A correction of the drift is in a packet and nowhere else. -/
theorem exists_packet_of_correctDrift {address : Address} {map : Option ChannelMap}
    {settings : Settings}
    (reached : (Session.new address map settings).run operations = .ok (session, answers))
    {operation : Operation} {answer : Answer}
    (performed : session.perform operation = .ok (next, answer)) {rate : Int16}
    (member : .correctDrift rate ∈ answer.handedOut) :
    ∃ capture packet, answer = .packet (some packet) ∧
      session.process capture = .ok (next, some packet) := by
  cases operation with
  | process capture =>
      obtain ⟨result, step, rfl⟩ := perform_process_eq_ok_iff.1 performed
      cases result with
      | none => cases member
      | some packet => exact ⟨capture, packet, rfl, step⟩
  | drain =>
      cases performed
      obtain ⟨moment, capture, -, made⟩ := queued_of_run reached _ member
      obtain other | ⟨ahead, -, other⟩ := mem_startCommands made
      · cases other
      · cases other
  | start native =>
      cases performed
      obtain other | ⟨ahead, -, other⟩ := mem_startCommands member
      · cases other
      · cases other
  | setMap map =>
      obtain ⟨other, -⟩ := mem_handedOut_setMap performed member
      cases other
  | hop clock | clearMap =>
      cases performed
      cases List.mem_singleton.1 member
  | resetTrim =>
      cases performed
      cases member

/--
In every state that a session can reach, every command that it hands out is
acceptable to the radio under the settings and under the map in force when the
command was made: at the loss for what is drained, on the spot for the rest.  A
correction of the drift is the second of the two commands of a packet, behind a
trim, and an earlier packet has trimmed since the latest loss, reset or start.
-/
theorem handedOut_acceptable {address : Address} {map : Option ChannelMap} {settings : Settings}
    (reached : (Session.new address map settings).run operations = .ok (session, answers))
    {operation : Operation} {answer : Answer}
    (performed : session.perform operation = .ok (next, answer)) :
    (∀ command ∈ answer.handedOut, ∃ moment,
      MadeAt (Session.new address map settings) operations session command moment operation ∧
        command.Acceptable settings moment.map) ∧
    ∀ rate, .correctDrift rate ∈ answer.handedOut →
      (∃ packet offset, answer = .packet (some packet) ∧
        packet.commands = [.trimClock offset, .correctDrift rate]) ∧
      TrimmedSince (Session.new address map settings) operations session := by
  refine ⟨exists_madeAt reached performed, ?_⟩
  intro rate member
  obtain ⟨capture, packet, rfl, done⟩ := exists_packet_of_correctDrift reached performed member
  obtain ⟨⟨offset, both⟩, calibrated⟩ := trims_of_correctDrift done member
  exact ⟨⟨packet, offset, rfl, both⟩, trimmedSince_of_calibrated reached calibrated⟩

/-- An inquiry is answered as the trim loop decides, if it runs. -/
theorem exists_process_of_observed (follows : session.address = .ofNat 0x9e8b33)
    (usual : session.settings.tolerance = Correlator.defaultTolerance)
    (runs : session.settings.trims = true) (counter : UInt32) {loop : TrimLoop}
    {decision : TrimDecision}
    (observed : session.loop.observe (Clock.slotPhase counter 16) (Clock.native 3 counter 16) =
      .ok (loop, decision)) :
    ∃ next packet, session.process { inquiryRecord with counter } = .ok (next, some packet) ∧
      next.loop = loop ∧ packet.commands = trimCommands (some decision) := by
  exact ⟨_, _, process_inquiryRecord follows usual 3 counter
    ((trim_eq_ok_iff _).2 (.inr ⟨runs, loop, decision, observed, rfl, rfl⟩)), rfl, rfl⟩

/-- A loop that trims at once: the second of two packets corrects the drift as well. -/
theorem handedOut_acceptable_drift :
    let settings : Settings := { tuning := { threshold := -1 } }
    let start := Session.new (.ofNat 0x9e8b33) none settings
    let first : Operation := .process { inquiryRecord with counter := 100000 }
    let second : Operation := .process { inquiryRecord with counter := 400500 }
    ∃ session answers next answer,
      start.run [first] = .ok (session, answers) ∧
      session.perform second = .ok (next, answer) ∧
      answer.handedOut = [.trimClock 660, .correctDrift 2200] ∧
      (Command.trimClock 660).Acceptable settings session.map ∧
      TrimmedSince start [first] session := by
  intro settings start first second
  have trims : start.loop.observe (Clock.slotPhase 100000 16) (Clock.native 3 100000 16) =
      .ok (start.loop.trimmed 3145758, .trim 160 none) := by
    decide +kernel
  obtain ⟨session, packet, heard, calibrated, -⟩ :=
    exists_process_of_observed rfl rfl rfl 100000 trims
  have reached : start.run [first] = .ok (session, [.packet (some packet)]) :=
    run_cons_eq_ok_iff.2 ⟨_, _, _, perform_process_eq_ok_iff.2 ⟨_, heard, rfl⟩, rfl, rfl⟩
  have drifts : session.loop.observe (Clock.slotPhase 400500 16) (Clock.native 3 400500 16) =
      .ok (start.loop.trimmed 3145854, .trim 660 (some 2200)) := by
    rw [calibrated]
    decide +kernel
  obtain ⟨next, later, again, -, both⟩ :=
    exists_process_of_observed (address_of_run reached)
      (congrArg Settings.tolerance (settings_of_run reached))
      (congrArg Settings.trims (settings_of_run reached)) 400500 drifts
  have performed : session.perform second = .ok (next, .packet (some later)) :=
    perform_process_eq_ok_iff.2 ⟨_, again, rfl⟩
  obtain ⟨acceptable, trimmed⟩ := handedOut_acceptable reached performed
  have trim : Command.trimClock 660 ∈ later.commands := by
    rw [both]
    exact List.mem_cons_self
  have drift : Command.correctDrift 2200 ∈ later.commands := by
    rw [both]
    exact List.mem_cons_of_mem _ List.mem_cons_self
  obtain ⟨moment, rfl, inSlot⟩ := acceptable _ trim
  exact ⟨_, _, next, _, reached, performed, both, inSlot, (trimmed _ drift).2⟩

/-- A map that is put in force between a loss and the drain does not reach what the loss queued. -/
theorem handedOut_not_acceptable_after_change :
    let settings : Settings := { clockOffset := some 0x100, lostAfter := 1 }
    let start := Session.new (.ofNat 0x9e8b33) none settings
    ∃ session answers next answer,
      start.run [.process (quietRecord 100000), .setMap singleChannel] =
        .ok (session, answers) ∧
      session.perform .drain = .ok (next, answer) ∧
      answer.handedOut = [.setChannel 2469, .startHopping 0x100 0] ∧
      session.map = some singleChannel ∧
      ¬(Command.setChannel 2469).Acceptable settings session.map := by
  intro settings start
  have lost := @process_of_miss start _ (isMiss_quietRecord 100000 settings rfl)
  have reached : start.run [.process (quietRecord 100000), .setMap singleChannel] =
      .ok (_, _) :=
    run_cons_eq_ok_iff.2 ⟨_, _, _, perform_process_eq_ok_iff.2 ⟨none, lost, rfl⟩, rfl, rfl⟩
  have queued : (start.counted.note (quietRecord 100000)).1.miss.outbox =
      [.setChannel 2469, .startHopping 0x100 0] := by
    decide +kernel
  refine ⟨_, _, _, _, reached, rfl, queued, rfl, ?_⟩
  rintro ⟨-, -, onMap⟩
  obtain ⟨channel, used, value⟩ := onMap singleChannel rfl
  have number : channel.toNat = 67 := Nat.add_left_cancel (value.symm.trans rfl : _ = 2402 + 67)
  obtain rfl : channel = 67 := UInt8.toNat_inj.1 number
  exact absurd used (by decide)

end Session

end Piconet
