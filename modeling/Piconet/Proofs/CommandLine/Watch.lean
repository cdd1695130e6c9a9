import Piconet.CommandLine.Follow
import Piconet.Proofs.Capture.Transfer
import Piconet.Proofs.CommandLine.Gathering
import Piconet.Proofs.CommandLine.Script
import Piconet.Proofs.Session.Loss
import Piconet.Proofs.Session.Reception

/-!
# A watch is a fold over the records

A watch takes the records of all transfers that succeed, one after the other, as
if they had come in a single list.  What it prints and sends is what the session
makes of them, up to the last packet that was asked for, and neither a transfer
nor a command that fails has a part in it.  Whenever it waits, as many requests
are pending as were asked for.
-/

namespace Piconet.CommandLine.Follow

open Script Session

def received (completion : Radio.Reply) : List Capture :=
  match Radio.Receiver.capturesOf completion with
  | .ok captures => captures
  | .error _ => []

def broken (overflow : Overflow) : Complaint where
  ending := .abortion
  message := overflow.message

def Watch.fed (watch : Watch) (yields : List Yield) (session : Session) : Watch :=
  { watch with session, packets := watch.packets + (Yield.packets yields).length }

def linesOf (yields : List Yield) : List String :=
  (Yield.packets yields).map Packet.text

def eventsOf (yields : List Yield) : List Radio.Event :=
  (yields.flatMap Yield.commands).map Command.event

theorem linesOf_append (first second : List Yield) :
    linesOf (first ++ second) = linesOf first ++ linesOf second := by
  rw [linesOf, Yield.packets_append, List.map_append]
  rfl

theorem eventsOf_append (first second : List Yield) :
    eventsOf (first ++ second) = eventsOf first ++ eventsOf second := by
  rw [eventsOf, List.flatMap_append, List.map_append]
  rfl

theorem filter_isControl_eventsOf (yields : List Yield) :
    (eventsOf yields).filter Radio.Event.isControl = eventsOf yields := by
  rw [List.filter_eq_self]
  intro event sent
  obtain ⟨command, _, rfl⟩ := List.mem_map.1 sent
  exact command.isControl_event

theorem Watch.fed_fed (watch : Watch) (first second : List Yield) (middle last : Session) :
    (watch.fed first middle).fed second last = watch.fed (first ++ second) last := by
  rw [fed, fed, fed, Yield.packets_append, List.length_append, Nat.add_assoc]

def Watch.relieved (watch : Watch) : Watch :=
  { watch with receiver := watch.receiver.withPending (watch.receiver.pending - 1) }

def Watch.filled (watch : Watch) (depth : Nat) : Watch :=
  { watch with
    receiver := watch.receiver.withPending
      (watch.receiver.pending + (depth - watch.receiver.pending)) }

/-! ## Commands and one record -/

theorem sendAll_run {watch : Watch} (calm : watch.patience = none) (commands : List Command)
    (terminal : Terminal) :
    (sendAll watch commands).run terminal =
      (.ok (watch, false), terminal.advanced [] (commands.map Command.event)) := by
  induction commands generalizing terminal with
  | nil => rfl
  | cons command rest ih =>
      rw [sendAll, Radio.run_bind, attempt_send_run]
      simp only [calm]
      rw [ih, Terminal.advanced_advanced]
      rfl

theorem take_run_of_error {watch : Watch} {capture : Capture} {overflow : Overflow}
    (stopped : watch.session.process capture = .error overflow) (limit : Option Nat)
    (terminal : Terminal) :
    (take limit watch capture).run terminal = (.error (broken overflow), terminal) := by
  rw [take, stopped]
  rfl

/-- One record prints its packet and sends the commands of its yield. -/
theorem take_run_of_ok {watch : Watch} (calm : watch.patience = none) {capture : Capture}
    {processed : Session} {packet : Option Packet}
    (done : watch.session.process capture = .ok (processed, packet)) (limit : Option Nat)
    (terminal : Terminal) :
    (take limit watch capture).run terminal =
      (.ok (watch.fed [⟨processed.outbox, packet⟩] processed.drain.1,
          packet.isSome && enough limit (watch.packets + packet.toList.length)),
        terminal.advanced (linesOf [⟨processed.outbox, packet⟩])
          (eventsOf [⟨processed.outbox, packet⟩])) := by
  have first : ({ watch with session := processed.drain.1 } : Watch).patience = none := calm
  have sent : eventsOf [⟨processed.outbox, packet⟩] =
      (Yield.commands ⟨processed.outbox, packet⟩).map Command.event := by
    rw [eventsOf, List.flatMap_singleton]
  rw [take, done, sent]
  dsimp only
  rw [Radio.run_bind, sendAll_run first]
  cases packet with
  | none =>
      rw [Yield.commands, Option.elim_none, List.append_nil]
      rfl
  | some packet =>
      have second : ({ watch with
          session := processed.drain.1, packets := watch.packets + 1 } : Watch).patience = none :=
        calm
      dsimp only
      rw [if_neg Bool.false_ne_true, Radio.run_bind, print_run]
      dsimp only
      rw [Radio.run_bind, sendAll_run second, Terminal.advanced_advanced,
        Terminal.advanced_advanced, Yield.commands, Option.elim_some, List.map_append]
      rfl

/-! ## The records of transfers -/

variable {limit : Option Nat} {yields : List Yield} {ending : Except Overflow (Session × Bool)}

theorem takeAll_run {watch : Watch} (calm : watch.patience = none) {captures : List Capture}
    (gathered : gather limit watch.packets watch.session captures = (yields, ending))
    (terminal : Terminal) :
    (takeAll limit watch captures).run terminal =
      ((ending.map fun reached => (watch.fed yields reached.1, reached.2)).mapError broken,
        terminal.advanced (linesOf yields) (eventsOf yields)) := by
  induction captures generalizing watch yields terminal with
  | nil =>
      cases gathered
      rfl
  | cons capture rest ih =>
      rw [takeAll, Radio.run_bind]
      cases done : watch.session.process capture with
      | error overflow =>
          rw [gather_cons_of_error done] at gathered
          cases gathered
          rw [take_run_of_error done]
          rfl
      | ok outcome =>
          rw [take_run_of_ok calm done]
          cases final : outcome.2.isSome &&
              enough limit (watch.packets + outcome.2.toList.length) with
          | true =>
              rw [gather_cons_of_last done final] at gathered
              cases gathered
              rfl
          | false =>
              have counted : (watch.fed [⟨outcome.1.outbox, outcome.2⟩] outcome.1.drain.1).packets =
                  watch.packets + outcome.2.toList.length := by
                rw [Watch.fed, Yield.packets_cons]
                exact congrArg (watch.packets + List.length ·) (List.append_nil _)
              have next : (watch.fed [⟨outcome.1.outbox, outcome.2⟩] outcome.1.drain.1).patience =
                  none := calm
              rw [gather_cons_of_few done final, ← counted] at gathered
              obtain ⟨rfl, rest⟩ := Prod.mk.inj gathered
              dsimp only
              rw [if_neg Bool.false_ne_true, ih next (Prod.ext rfl rest),
                Terminal.advanced_advanced, ← linesOf_append, ← eventsOf_append]
              simp only [Watch.fed_fed]
              rfl

/-! ## The queue of requests -/

def asking : Radio.Event :=
  .submit Radio.Receiver.transferLength

theorem submitMore_run (missing : Nat) (receiver : Radio.Receiver) (terminal : Terminal) :
    (submitMore missing receiver).run terminal =
      (.ok (receiver.withPending (receiver.pending + missing)),
        terminal.advanced [] (List.replicate missing asking)) := by
  induction missing generalizing receiver terminal with
  | zero => rfl
  | succ missing ih =>
      change (submitMore missing (receiver.withPending (receiver.pending + 1))).run
        (terminal.advanced [] [asking]) = _
      rw [ih, Terminal.advanced_advanced, Radio.Receiver.pending_withPending,
        Nat.add_right_comm]
      rfl

theorem refill_run (depth : Nat) (watch : Watch) (terminal : Terminal) :
    (refill depth watch).run terminal =
      (.ok (watch.filled depth),
        terminal.advanced [] (List.replicate (depth - watch.receiver.pending) asking)) := by
  rw [refill, Radio.run_bind, submitMore_run]
  rfl

theorem filter_isControl_asking (count : Nat) :
    (List.replicate count asking).filter Radio.Event.isControl = [] := by
  rw [List.filter_replicate]
  rfl

theorem pending_filled (watch : Watch) (depth : Nat) :
    (watch.filled depth).receiver.pending = max watch.receiver.pending depth := by
  change watch.receiver.pending + (depth - watch.receiver.pending) = _
  omega

/-- A queue that is full is left as it is. -/
theorem filled_filled (watch : Watch) (depth : Nat) :
    (watch.filled depth).filled depth = watch.filled depth := by
  have full : depth - (watch.filled depth).receiver.pending = 0 := by
    rw [pending_filled]
    omega
  rw [Watch.filled, full]
  rfl

/-- A completion, be it a success or not, is a queue that is filled and records that are taken. -/
theorem watchAll_cons (depth : Nat) (limit : Option Nat) (watch : Watch)
    (completion : Radio.Reply) (rest : List Radio.Reply) :
    watchAll depth limit watch (completion :: rest) = (do
      let filled ← refill depth watch
      talk (Radio.note (.complete completion))
      let (next, finished) ← takeAll limit filled.relieved (received completion)
      if finished then return next else watchAll depth limit next rest) := by
  rw [watchAll]
  refine congrArg (refill depth watch >>= ·) (funext fun filled => ?_)
  have completed : talk (filled.receiver.next completion) = (do
      talk (Radio.note (.complete completion))
      return (filled.relieved.receiver, Radio.Receiver.capturesOf completion)) := rfl
  rw [completed, bind_assoc, received]
  cases Radio.Receiver.capturesOf completion with
  | error fault => rfl
  | ok captures => rfl

/--
What passes over the link while a queue is filled, a request completes, and the commands
of yields are sent.
-/
def exchanged (depth : Nat) (watch : Watch) (completion : Radio.Reply) (yields : List Yield) :
    List Radio.Event :=
  List.replicate (depth - watch.receiver.pending) asking ++ .complete completion :: eventsOf yields

theorem filter_isControl_exchanged (depth : Nat) (watch : Watch) (completion : Radio.Reply)
    (yields : List Yield) :
    (exchanged depth watch completion yields).filter Radio.Event.isControl = eventsOf yields := by
  rw [exchanged, List.filter_append, filter_isControl_asking,
    List.filter_cons_of_neg Bool.false_ne_true, filter_isControl_eventsOf]
  rfl

theorem complete_run (completion : Radio.Reply) (terminal : Terminal) :
    (talk (Radio.note (.complete completion))).run terminal =
      (.ok (), terminal.advanced [] [.complete completion]) :=
  rfl

/-- Whether a watch goes on behind a completion is for the records of the completion to say. -/
theorem watchAll_cons_run {watch : Watch} (calm : watch.patience = none) (depth : Nat)
    {completion : Radio.Reply}
    (gathered : gather limit watch.packets watch.session (received completion) =
      (yields, ending)) (rest : List Radio.Reply) (terminal : Terminal) :
    (watchAll depth limit watch (completion :: rest)).run terminal =
      match ending with
      | .error overflow =>
          (.error (broken overflow),
            terminal.advanced (linesOf yields) (exchanged depth watch completion yields))
      | .ok (last, true) =>
          (.ok ((watch.filled depth).relieved.fed yields last),
            terminal.advanced (linesOf yields) (exchanged depth watch completion yields))
      | .ok (last, false) =>
          (watchAll depth limit ((watch.filled depth).relieved.fed yields last) rest).run
            (terminal.advanced (linesOf yields) (exchanged depth watch completion yields)) := by
  have next : (watch.filled depth).relieved.patience = none := calm
  rw [watchAll_cons, Radio.run_bind, refill_run]
  dsimp only
  rw [Radio.run_bind, complete_run]
  dsimp only
  rw [Radio.run_bind, takeAll_run next gathered, Terminal.advanced_advanced,
    Terminal.advanced_advanced]
  match ending with
  | .error overflow => rfl
  | .ok (last, true) => rfl
  | .ok (last, false) => rfl

/-- A watch is carried out as the records of its transfers are gathered. -/
theorem watchAll_run {watch : Watch} (calm : watch.patience = none) (depth : Nat)
    {completions : List Radio.Reply}
    (gathered : gather limit watch.packets watch.session (completions.flatMap received) =
      (yields, ending)) (terminal : Terminal) :
    ∃ receiver events,
      (watchAll depth limit watch completions).run terminal =
        ((ending.map fun reached => { watch.fed yields reached.1 with receiver }).mapError broken,
          terminal.advanced (linesOf yields) events) ∧
      events.filter Radio.Event.isControl = eventsOf yields := by
  induction completions generalizing watch yields terminal with
  | nil =>
      cases gathered
      refine ⟨(watch.filled depth).receiver, _, ?_,
        filter_isControl_asking (depth - watch.receiver.pending)⟩
      rw [watchAll, refill_run]
      rfl
  | cons completion rest ih =>
      rw [List.flatMap_cons] at gathered
      obtain ⟨first, reached, head⟩ : ∃ first reached,
          gather limit watch.packets watch.session (received completion) = (first, reached) :=
        ⟨_, _, rfl⟩
      have heard := filter_isControl_exchanged depth watch completion first
      rw [watchAll_cons_run calm depth head]
      match reached with
      | .error overflow =>
          rw [gather_append_of_over head rfl] at gathered
          cases gathered
          exact ⟨watch.receiver, exchanged depth watch completion yields, rfl, heard⟩
      | .ok (last, true) =>
          rw [gather_append_of_over head rfl] at gathered
          cases gathered
          exact ⟨(watch.filled depth).relieved.receiver, exchanged depth watch completion yields, rfl, heard⟩
      | .ok (last, false) =>
          rw [gather_append_of_few head] at gathered
          obtain ⟨rfl, others⟩ := Prod.mk.inj gathered
          have next : ((watch.filled depth).relieved.fed first last).patience = none := calm
          obtain ⟨receiver, events, done, sent⟩ :=
            ih next (Prod.ext rfl others)
              (terminal.advanced (linesOf first) (exchanged depth watch completion first))
          refine ⟨receiver, exchanged depth watch completion first ++ events, ?_, ?_⟩
          · rw [Terminal.advanced_advanced, ← linesOf_append] at done
            simp only [Watch.fed_fed] at done
            exact done
          · rw [List.filter_append, heard, sent, eventsOf_append]
            rfl

/-! ## Waiting -/

/-- Whatever a watch waits for, it fills the queue before. -/
theorem watchAll_filled (depth : Nat) (limit : Option Nat) (watch : Watch)
    (completions : List Radio.Reply) (terminal : Terminal) :
    (watchAll depth limit (watch.filled depth) completions).run
        (terminal.advanced []
          (List.replicate (depth - watch.receiver.pending) asking)) =
      (watchAll depth limit watch completions).run terminal := by
  have full : depth - (watch.filled depth).receiver.pending = 0 := by
    rw [pending_filled]
    omega
  have again : (refill depth (watch.filled depth)).run
      (terminal.advanced [] (List.replicate (depth - watch.receiver.pending) asking)) =
      (refill depth watch).run terminal := by
    rw [refill_run, refill_run, filled_filled, full, Terminal.advanced_advanced]
    exact congrArg (fun events => (Except.ok (watch.filled depth), terminal.advanced [] events))
      (List.append_nil _)
  cases completions with
  | nil =>
      rw [watchAll, watchAll]
      exact again
  | cons completion rest => rw [watchAll_cons, watchAll_cons, Radio.run_bind, again, Radio.run_bind]

/--
A watch that some completions have not ended waits for the next one with a full
queue, and goes on from there.
-/
theorem watchAll_append {watch : Watch} (calm : watch.patience = none) {depth : Nat}
    (room : watch.receiver.pending ≤ depth) {before : List Radio.Reply} {last : Session}
    (gathered : gather limit watch.packets watch.session (before.flatMap received) =
      (yields, .ok (last, false))) (terminal : Terminal) :
    ∃ waiting later, (watchAll depth limit watch before).run terminal = (.ok waiting, later) ∧
      waiting.receiver.pending = depth ∧
      ∀ after, (watchAll depth limit watch (before ++ after)).run terminal =
        (watchAll depth limit waiting after).run later := by
  induction before generalizing watch yields terminal with
  | nil =>
      refine ⟨watch.filled depth, _, by rw [watchAll, refill_run], ?_, fun after => ?_⟩
      · rw [pending_filled]
        exact Nat.max_eq_right room
      · exact (watchAll_filled depth limit watch after terminal).symm
  | cons completion rest ih =>
      rw [List.flatMap_cons] at gathered
      obtain ⟨first, reached, head⟩ : ∃ first reached,
          gather limit watch.packets watch.session (received completion) = (first, reached) :=
        ⟨_, _, rfl⟩
      simp only [List.cons_append, watchAll_cons_run calm depth head]
      match reached with
      | .error overflow =>
          rw [gather_append_of_over head rfl] at gathered
          cases gathered
      | .ok (next, true) =>
          rw [gather_append_of_over head rfl] at gathered
          cases gathered
      | .ok (next, false) =>
          rw [gather_append_of_few head] at gathered
          have still : ((watch.filled depth).relieved.fed first next).patience = none := calm
          have space : ((watch.filled depth).relieved.fed first next).receiver.pending ≤ depth := by
            change (watch.filled depth).receiver.pending - 1 ≤ depth
            rw [pending_filled]
            omega
          exact ih still space (Prod.ext rfl (Prod.mk.inj gathered).2) _

/--
A watch prints the packets that the session finds in the records of the transfers
that succeed, up to the last one that was asked for, and sends for each of these
records the commands drained behind it and those of its packet.  No record behind
the last packet reaches the session.  Whenever the watch waits, as many requests
are pending as were asked for, and at least one.
-/
theorem follow_is_a_fold {options : FollowOptions} (wanted : options.limit ≠ some 0)
    {receiver : Radio.Receiver} (room : receiver.pending ≤ max 1 options.depth)
    (session : Session) (completions : List Radio.Reply) (terminal : Terminal) :
    let captures := completions.flatMap received
    let packets := (session.packetsOf captures).1
    let seen := seenOf options.limit (session.harvest captures).1
    ∃ result events,
      (follow options completions none receiver session).run terminal =
        (result, terminal.advanced ((printedOf options.limit packets).map Packet.text) events) ∧
      events.filter Radio.Event.isControl = (seen.flatMap Yield.commands).map Command.event ∧
      (enough options.limit packets.length = true → ∃ watch, result = .ok watch ∧
        session.harvest (captures.take seen.length) = (seen, .ok watch.session)) ∧
      (enough options.limit packets.length = false →
        result.map Watch.session = (session.harvest captures).2.mapError broken) ∧
      ∀ before after, completions = before ++ after →
        (session.packetsOf (before.flatMap received)).2 = none →
        enough options.limit (session.packetsOf (before.flatMap received)).1.length = false →
        ∃ waiting later,
          (follow options before none receiver session).run terminal = (.ok waiting, later) ∧
          waiting.receiver.pending = max 1 options.depth ∧
          (follow options completions none receiver session).run terminal =
            (watchAll (max 1 options.depth) options.limit waiting after).run later := by
  intro captures packets seen
  have calm : ({ receiver, session } : Watch).patience = none := rfl
  have found : packets = Yield.packets (session.harvest captures).1 :=
    congrArg Prod.fst (session.packetsOf_eq captures)
  obtain ⟨ending, gathered, reached, short⟩ := gather_eq wanted session captures
  obtain ⟨last, events, done, sent⟩ :=
    watchAll_run calm (max 1 options.depth) gathered terminal
  rw [linesOf, packets_seenOf, ← found] at done
  rw [← found] at reached short
  refine ⟨_, events, done, sent, ?_, ?_, ?_⟩
  · intro limited
    obtain ⟨final, rfl, fed⟩ := reached limited
    exact ⟨_, rfl, fed⟩
  · intro few
    rw [short few]
    cases (session.harvest captures).2 with
    | ok final => rfl
    | error overflow => rfl
  · rintro before after rfl whole few
    rw [packetsOf_eq] at whole few
    have gathered := gather_of_few 0 (by rw [Nat.zero_add]; exact few)
    cases reached : (session.harvest (before.flatMap received)).2 with
    | error overflow =>
        rw [reached] at whole
        cases whole
    | ok last =>
        rw [reached] at gathered
        obtain ⟨waiting, later, stopped, full, goesOn⟩ :=
          watchAll_append calm room gathered terminal
        exact ⟨waiting, later, stopped, full, goesOn after⟩

theorem received_flatMap_toBytes {records : List Capture}
    (coded : ∀ record ∈ records, record.kind.IsCoded) :
    received (.ok (records.flatMap Capture.toBytes)) = records := by
  rw [received, Radio.Receiver.capturesOf, Capture.ofTransfer?_flatMap_toBytes coded]

/-- A miss that loses the piconet, and the inquiry behind it. -/
theorem harvest_lost_inquiry {session : Session} (follows : session.address = .ofNat 0x9e8b33)
    (hasty : session.settings = { clockOffset := some 0, lostAfter := 1 })
    (tuned : session.loop.tuning = {}) (quiet : session.outbox = []) (rest : List Capture) :
    ∃ packet offset others,
      (session.harvest (quietRecord 100000 :: inquiryRecord :: rest)).1 =
        ⟨session.startCommands (Clock.native 3 100000 0), none⟩ ::
          ⟨[], some packet⟩ :: others ∧
      packet.commands = [.trimClock offset] := by
  have miss := isMiss_quietRecord 100000 session.settings (by rw [hasty])
  rw [correlatorFor, ← follows] at miss
  have gone : session.losesAt (session.misses + 1) = true :=
    (session.losesAt_iff _).2 ⟨by rw [hasty]; decide, by rw [hasty]; exact Nat.one_dvd _⟩
  have lost := process_of_miss miss
  rw [miss_note_eq, if_pos gone] at lost
  obtain ⟨restarted, same⟩ : ∃ restarted,
      restarted = (session.missing (quietRecord 100000)).lose.drain.1 := ⟨_, rfl⟩
  have settings : restarted.settings = { clockOffset := some 0, lostAfter := 1 } := by
    rw [same, ← hasty]
    rfl
  have fresh : restarted.loop = { tuning := {} } := by
    rw [same, ← tuned]
    rfl
  have kept : restarted.address = .ofNat 0x9e8b33 := by
    rw [same, ← follows]
    rfl
  obtain ⟨valid, heard⟩ := hears_inquiryRecord kept (by rw [settings]) 100000
  obtain ⟨next, action, trimmed⟩ : ∃ next action,
      restarted.trimFor inquiryRecord { offset := 16, errors := 0 } = .ok (next, action) :=
    restarted.exists_trimFor fun _ => by
      rw [fresh]
      exact ⟨_, rfl⟩
  have found : restarted.process inquiryRecord = .ok (next, _) :=
    process_of_trimmed valid heard trimmed
  obtain ⟨offset, trim⟩ := exists_trim_of_packet (by rw [settings]) (by rw [fresh]) found
  have silent : next.outbox = restarted.outbox := by
    obtain ⟨-, rfl, -⟩ | ⟨-, loop, decision, -, rfl, -⟩ := (trim_eq_ok_iff _).1 trimmed
    · rfl
    · rfl
  have asked : (session.missing (quietRecord 100000)).lose.outbox =
      session.startCommands (Clock.native 3 100000 0) := by
    change session.outbox ++ session.startCommands (Clock.native 3 100000 0) = _
    rw [quiet, List.nil_append]
  refine ⟨restarted.packetFor inquiryRecord { offset := 16, errors := 0 } action, offset,
    (next.drain.1.harvest rest).1, ?_, congrArg trimCommands trim⟩
  rw [harvest_cons_of_ok lost, asked, ← same, harvest_cons_of_ok found, silent, same]
  rfl

/-- Options under which every miss loses the piconet, and one packet is enough. -/
def hastyOptions : FollowOptions where
  address := .ofNat 0x9e8b33
  map := none
  settings := { clockOffset := some 0, lostAfter := 1 }
  channel := 2441
  limit := some 1
  depth := 0

def restartingRecords : List Capture :=
  [quietRecord 100000, inquiryRecord, inquiryRecord]

def restartingCompletions : List Radio.Reply :=
  [.error .stalled, .ok [0], .ok (restartingRecords.flatMap Capture.toBytes)]

theorem received_restartingCompletions :
    restartingCompletions.flatMap received = restartingRecords := by
  have read : received (.ok (restartingRecords.flatMap Capture.toBytes)) = restartingRecords :=
    received_flatMap_toBytes (by decide)
  rw [restartingCompletions, List.flatMap_cons, List.flatMap_cons, List.flatMap_cons, read,
    List.flatMap_nil, List.append_nil]
  rfl

/-- The miss restarts the hopping, and the first inquiry is the last packet. -/
theorem follow_is_a_fold_restarted :
    let session := Session.new hastyOptions.address hastyOptions.map hastyOptions.settings
    let receiver : Radio.Receiver := { radio := { model := .one, version := 0x0107 } }
    ∃ (watch : Watch) (packet : Packet) (offset : UInt16) (events : List Radio.Event),
      (follow hastyOptions restartingCompletions none receiver session).run {} =
        (.ok watch, ({} : Terminal).advanced [packet.text] events) ∧
      events.filter Radio.Event.isControl =
        (session.startCommands (Clock.native 3 100000 0) ++ [Command.trimClock offset]).map
          Command.event := by
  intro session receiver
  obtain ⟨packet, offset, others, harvested, trims⟩ :=
    @harvest_lost_inquiry session rfl rfl rfl rfl [inquiryRecord]
  have packets : (session.packetsOf restartingRecords).1 = packet :: Yield.packets others := by
    rw [packetsOf_eq, restartingRecords, harvested]
    rfl
  obtain ⟨result, events, done, sent, ending, -⟩ :=
    @follow_is_a_fold hastyOptions (by nofun) receiver (Nat.zero_le _) session
      restartingCompletions {}
  rw [received_restartingCompletions, packets] at done ending
  rw [received_restartingCompletions, restartingRecords, harvested] at sent
  have limited : enough hastyOptions.limit (packet :: Yield.packets others).length = true :=
    decide_eq_true (Nat.le_add_left 1 (Yield.packets others).length)
  obtain ⟨watch, rfl, -⟩ := ending limited
  have seen : seenOf hastyOptions.limit
      (⟨session.startCommands (Clock.native 3 100000 0), none⟩ :: ⟨[], some packet⟩ :: others) =
        [⟨session.startCommands (Clock.native 3 100000 0), none⟩, ⟨[], some packet⟩] :=
    @Yield.upTo_append_of_last 1 [_] _ rfl rfl others
  refine ⟨watch, packet, offset, events, done, ?_⟩
  rw [sent, seen, ← trims]
  simp [Yield.commands]

end Piconet.CommandLine.Follow
