import Piconet.Proofs.Radio.Refusal

/-!
# Pending requests

The driver beneath a radio keeps the queue of its receive requests, of which nothing
is assumed here but that it keeps each request until it completes, and that cancelled
requests do complete.  A radio that streams then has as many requests pending as were
submitted and have not completed, and an idle one has none, whatever the steps were
that led there, however the requests completed and whatever the radio replied.
-/

namespace Piconet.Radio

/-! ## The queue beneath a radio -/

/-- A queue of receive requests, as a driver keeps it. -/
structure Queue (State : Type) where
  /-- The queue of a radio that was just opened. -/
  opened : State
  submit : State → State
  /-- Asks for the end of all that is pending, and waits for none of it. -/
  cancel : State → State
  pending : State → Nat
  /-- A request may complete with a reply, which leaves another queue. -/
  Completes : State → Reply → State → Prop

namespace Queue

variable {State : Type}

/-- The queue was cancelled, and nothing was submitted since. -/
inductive Cancelled (queue : Queue State) : State → Prop
  | cancel (state : State) : Cancelled queue (queue.cancel state)
  | complete {state after : State} {reply : Reply} (before : Cancelled queue state)
      (completes : queue.Completes state reply after) : Cancelled queue after

/-- A request is pending from when it is submitted until it completes. -/
structure Keeps (queue : Queue State) : Prop where
  opened : queue.pending queue.opened = 0
  submit : ∀ state, queue.pending (queue.submit state) = queue.pending state + 1
  cancel : ∀ state, queue.pending (queue.cancel state) = queue.pending state
  complete : ∀ state reply after, queue.Completes state reply after →
    queue.pending after + 1 = queue.pending state
  /-- What was cancelled completes. -/
  settles : ∀ state, queue.Cancelled state → 0 < queue.pending state →
    ∃ reply after, queue.Completes state reply after

/-- What an event is for the queue. -/
def Takes (queue : Queue State) : Event → State → State → Prop
  | .openQueue _, _, after => after = queue.opened
  | .submit _, before, after => after = queue.submit before
  | .cancel, before, after => after = queue.cancel before
  | .complete reply, before, after => queue.Completes before reply after
  | _, before, after => after = before

/-- Where events may lead a queue, one after another. -/
def Follows (queue : Queue State) : List Event → State → State → Prop
  | [], before, after => after = before
  | event :: rest, before, after =>
      ∃ between, queue.Takes event before between ∧ queue.Follows rest between after

variable {queue : Queue State} {before after : State}

theorem follows_append {first second : List Event} :
    queue.Follows (first ++ second) before after ↔
      ∃ between, queue.Follows first before between ∧ queue.Follows second between after := by
  induction first generalizing before with
  | nil =>
      constructor
      · exact fun follows => ⟨before, rfl, follows⟩
      · rintro ⟨between, rfl, follows⟩
        exact follows
  | cons event rest ih =>
      constructor
      · rintro ⟨next, takes, follows⟩
        obtain ⟨between, first, second⟩ := ih.1 follows
        exact ⟨between, ⟨next, takes, first⟩, second⟩
      · rintro ⟨between, ⟨next, takes, first⟩, second⟩
        exact ⟨next, takes, ih.2 ⟨between, first, second⟩⟩

/-- Control transfers are nothing to the queue. -/
theorem eq_of_follows_control {events : List Event}
    (control : ∀ event ∈ events, event.isControl = true) (follows : queue.Follows events before after) :
    after = before := by
  induction events generalizing before with
  | nil => exact follows
  | cons event rest ih =>
      obtain ⟨between, takes, follows⟩ := follows
      obtain ⟨here, others⟩ := List.forall_mem_cons.1 control
      have same : between = before := by
        cases event with
        | write request value data => exact takes
        | read request length => exact takes
        | _ => cases here
      exact (ih others follows).trans same

/-- Every completion takes one request from the queue. -/
theorem pending_of_completions (keeps : queue.Keeps) {completions : List Reply}
    (follows : queue.Follows (completions.map .complete) before after) :
    queue.pending after + completions.length = queue.pending before := by
  induction completions generalizing before with
  | nil => exact congrArg queue.pending follows
  | cons reply rest ih =>
      obtain ⟨between, completes, follows⟩ := follows
      have fewer := keeps.complete _ _ _ completes
      have left := ih follows
      rw [List.length_cons]
      omega

/-- Waiting for what was cancelled comes to an end. -/
theorem exists_completions (keeps : queue.Keeps) (cancelled : queue.Cancelled before) :
    ∃ (completions : List Reply) (after : State), completions.length = queue.pending before ∧
      queue.Follows (completions.map .complete) before after := by
  generalize left : queue.pending before = waiting
  induction waiting generalizing before with
  | zero => exact ⟨[], before, rfl, rfl⟩
  | succ waiting ih =>
      have some : 0 < queue.pending before := by omega
      obtain ⟨reply, next, completes⟩ := keeps.settles before cancelled some
      have fewer := keeps.complete before reply next completes
      obtain ⟨rest, after, number, follows⟩ := ih (cancelled.complete completes) (by omega)
      exact ⟨reply :: rest, after, congrArg Nat.succ number, next, completes, follows⟩

end Queue

/-- What a program holds, and the link beneath it, after some steps and their outcomes. -/
inductive Reaches (host : Host) : List (Step × Outcome) → Handle → Link → Prop
  | start (replies : List Reply) : Reaches host [] .closed { replies }
  | step {history : List (Step × Outcome)} {handle next : Handle} {link later : Link}
      {step : Step} {outcome : Outcome} (before : Reaches host history handle link)
      (stepped : (handle.step host step).run link = ((next, outcome), later)) :
      Reaches host (history ++ [(step, outcome)]) next later

/-! ## The requests since receiving began -/

/-- How many requests were submitted, and how many have completed. -/
structure Traffic where
  submitted : Nat := 0
  completed : Nat := 0
  deriving DecidableEq, Repr

namespace Traffic

def after (traffic : Traffic) : Step × Outcome → Traffic
  | (.startReceiving, .answered _) => {}
  | (.submit, .pending _) => { traffic with submitted := traffic.submitted + 1 }
  | (.next _, .completed _ _) => { traffic with completed := traffic.completed + 1 }
  | _ => traffic

def ofHistory (history : List (Step × Outcome)) : Traffic :=
  history.foldl after {}

theorem ofHistory_concat (history : List (Step × Outcome)) (entry : Step × Outcome) :
    ofHistory (history ++ [entry]) = (ofHistory history).after entry := by
  rw [ofHistory, List.foldl_append]
  rfl

end Traffic

/-! ## What one step comes to -/

/-- Whether receiving starts or not, the radio is the one that it was asked of. -/
theorem startReceiving_cases (radio : Radio) (link : Link) :
    ((startReceiving radio).run link =
        (.ok { radio }, link.passed [.write .receiveSymbols 0 []])) ∨
      ∃ cause events, (startReceiving radio).run link =
          (.error { cause, radio }, link.passed events) ∧
        ∀ event ∈ events, event.isControl = true := by
  rw [startReceiving_run, link.after_eq_passed rfl]
  split
  · exact .inr ⟨_, [], rfl, nofun⟩
  · cases link.reply with
    | ok data => exact .inl rfl
    | error cause => exact .inr ⟨_, _, rfl, List.forall_mem_singleton.2 rfl⟩

/-- What one step with its outcome does to what is held, and what passes meanwhile. -/
inductive Turn : Handle → Step × Outcome → Handle → List Event → Prop
  /-- Nothing is held any more. -/
  | closed {handle : Handle} {entry : Step × Outcome} {events : List Event} :
      Turn handle entry .closed events
  | kept {handle : Handle} {entry : Step × Outcome} {events : List Event}
      (uncounted : ∀ traffic : Traffic, traffic.after entry = traffic)
      (control : ∀ event ∈ events, event.isControl = true) : Turn handle entry handle events
  | opened {handle : Handle} {radio : Radio} {events : List Event} (fresh : radio.pending = 0) :
      Turn handle (.openFirst, .opened radio) (.idle radio)
        (events ++ [.openQueue receiveEndpoint])
  | began {radio : Radio} :
      Turn (.idle radio) (.startReceiving, .answered .done) (.receiving { radio })
        [.write .receiveSymbols 0 []]
  | submitted {receiver : Receiver} {count : Nat} :
      Turn (.receiving receiver) (.submit, .pending count)
        (.receiving (receiver.withPending (receiver.pending + 1)))
        [.submit Receiver.transferLength]
  | completed {receiver : Receiver} {completion : Reply}
      {captures : Except Fault (List Capture)} {count : Nat} :
      Turn (.receiving receiver) (.next completion, .completed captures count)
        (.receiving (receiver.withPending (receiver.pending - 1))) [.complete completion]
  | stopped {receiver : Receiver} {completions : List Reply} :
      Turn (.receiving receiver) (.stopReceiving completions, .answered .done)
        (.idle (receiver.withPending 0).radio)
        (.cancel :: (receiver.taken completions).map .complete ++ [.write .stop 0 []])

variable {State : Type} {queue : Queue State} {host : Host} {before state after : State}
  {link later : Link} {next : Handle} {step : Step} {outcome : Outcome}

theorem turn_of_list {handle : Handle}
    (stepped : (handle.step host .list).run link = ((next, outcome), later)) :
    ∃ events, later = link.passed events ∧ Turn handle (.list, outcome) next events := by
  rw [Handle.step] at stepped
  cases radios : host.radios with
  | ok found =>
      rw [radios] at stepped
      cases stepped
      exact ⟨[], rfl, .kept (fun _ => rfl) nofun⟩
  | error error =>
      rw [radios] at stepped
      cases stepped
      exact ⟨[], rfl, .kept (fun _ => rfl) nofun⟩

theorem turn_of_identify {handle : Handle}
    (stepped : (handle.step host .identify).run link = ((next, outcome), later)) :
    ∃ events, later = link.passed events ∧ Turn handle (.identify, outcome) next events := by
  cases stepped
  exact ⟨[], rfl, .kept (fun _ => rfl) nofun⟩

theorem turn_of_openFirst {handle : Handle}
    (stepped : (handle.step host .openFirst).run link = ((next, outcome), later)) :
    ∃ events, later = link.passed events ∧ Turn handle (.openFirst, outcome) next events := by
  have reached := host.connect_opening link link ⟨[], rfl⟩
  rw [Handle.step_openFirst_run] at stepped
  match connected : host.connect.run link with
  | (.ok radio, opened) =>
      rw [connected] at reached stepped
      cases stepped
      obtain ⟨fresh, _, ⟨stages, rfl⟩, rfl⟩ := reached
      exact ⟨_, link.passed_passed _ _, .opened fresh⟩
  | (.error error, left) =>
      rw [connected] at reached stepped
      cases stepped
      obtain ⟨stages, rfl⟩ := reached
      exact ⟨_, rfl, .closed⟩

theorem turn_of_operate {handle : Handle} {radio : Radio} (held : handle.radio? = some radio)
    {operation : Operation}
    (stepped : (handle.step host (.operate operation)).run link = ((next, outcome), later)) :
    ∃ events, later = link.passed events ∧
      Turn handle (.operate operation, outcome) next events := by
  obtain ⟨events, passed, control⟩ := perform_passed radio operation link
  rw [step_operate host held, passed] at stepped
  cases stepped
  exact ⟨events, rfl, .kept (fun _ => rfl) control⟩

theorem turn_of_step_idle {radio : Radio}
    (stepped : ((Handle.idle radio).step host step).run link = ((next, outcome), later)) :
    ∃ events, later = link.passed events ∧ Turn (.idle radio) (step, outcome) next events := by
  cases step with
  | list => exact turn_of_list stepped
  | identify => exact turn_of_identify stepped
  | openFirst => exact turn_of_openFirst stepped
  | operate operation => exact turn_of_operate rfl stepped
  | reset =>
      rw [Handle.step_reset_run] at stepped
      cases stepped
      exact ⟨_, rfl, .closed⟩
  | startReceiving =>
      rw [Handle.step_startReceiving_run] at stepped
      obtain started | ⟨cause, events, failed, control⟩ := startReceiving_cases radio link
      · rw [started] at stepped
        cases stepped
        exact ⟨_, rfl, .began⟩
      · rw [failed] at stepped
        cases stepped
        exact ⟨_, rfl, .kept (fun _ => rfl) control⟩
  | submit | pending | next completion | stopReceiving completions =>
      cases stepped
      exact ⟨[], rfl, .kept (fun _ => rfl) nofun⟩

theorem turn_of_step_receiving {receiver : Receiver}
    (stepped : ((Handle.receiving receiver).step host step).run link =
      ((next, outcome), later)) :
    ∃ events, later = link.passed events ∧
      Turn (.receiving receiver) (step, outcome) next events := by
  cases step with
  | list => exact turn_of_list stepped
  | identify => exact turn_of_identify stepped
  | openFirst => exact turn_of_openFirst stepped
  | operate operation => exact turn_of_operate rfl stepped
  | submit =>
      cases stepped
      exact ⟨_, rfl, .submitted⟩
  | next completion =>
      cases stepped
      exact ⟨_, rfl, .completed⟩
  | stopReceiving completions =>
      rw [Handle.step_stopReceiving_run] at stepped
      cases told : link.reply with
      | ok data =>
          rw [told] at stepped
          cases stepped
          exact ⟨_, rfl, .stopped⟩
      | error cause =>
          rw [told] at stepped
          cases stepped
          exact ⟨_, rfl, .closed⟩
  | pending | reset | startReceiving =>
      cases stepped
      exact ⟨[], rfl, .kept (fun _ => rfl) nofun⟩

theorem turn_of_step {handle : Handle}
    (stepped : (handle.step host step).run link = ((next, outcome), later)) :
    ∃ events, later = link.passed events ∧ Turn handle (step, outcome) next events := by
  cases handle with
  | idle radio => exact turn_of_step_idle stepped
  | receiving receiver => exact turn_of_step_receiving stepped
  | closed =>
      cases step with
      | list => exact turn_of_list stepped
      | identify => exact turn_of_identify stepped
      | openFirst => exact turn_of_openFirst stepped
      | _ =>
          cases stepped
          exact ⟨[], rfl, .closed⟩

/-! ## Runs -/

/--
A radio that streams has those requests pending that were submitted and have not
completed, and an idle one has none; the queue beneath it agrees.
-/
structure Balanced {State : Type} (queue : Queue State) (traffic : Traffic) (handle : Handle)
    (state : State) : Prop where
  idle : ∀ radio, handle = .idle radio → radio.pending = 0 ∧ queue.pending state = 0
  receiving : ∀ receiver, handle = .receiving receiver →
    receiver.pending = queue.pending state ∧
      receiver.pending + traffic.completed = traffic.submitted

/-- What was pending has completed when the radio is told to stop. -/
theorem pending_of_stop (keeps : queue.Keeps) {receiver : Receiver} {completions : List Reply}
    (agrees : receiver.pending = queue.pending state)
    (follows : queue.Follows
      (.cancel :: (receiver.taken completions).map .complete ++ [.write .stop 0 []]) state after) :
    queue.pending after = 0 := by
  obtain ⟨settled, ⟨_, rfl, completed⟩, told⟩ := Queue.follows_append.1 follows
  have left := Queue.pending_of_completions keeps completed
  rw [receiver.length_taken, keeps.cancel] at left
  rw [Queue.eq_of_follows_control (List.forall_mem_singleton.2 rfl) told]
  omega

theorem Balanced.turn (keeps : queue.Keeps) {traffic : Traffic} {handle : Handle}
    {entry : Step × Outcome} {events : List Event} (balanced : Balanced queue traffic handle state)
    (turn : Turn handle entry next events) (follows : queue.Follows events state after) :
    Balanced queue (traffic.after entry) next after := by
  cases turn with
  | closed => exact ⟨nofun, nofun⟩
  | kept uncounted control =>
      rw [uncounted, Queue.eq_of_follows_control control follows]
      exact balanced
  | opened fresh =>
      obtain ⟨_, -, _, rfl, rfl⟩ := Queue.follows_append.1 follows
      refine ⟨?_, nofun⟩
      rintro radio ⟨⟩
      exact ⟨fresh, keeps.opened⟩
  | began =>
      obtain rfl := Queue.eq_of_follows_control (List.forall_mem_singleton.2 rfl) follows
      obtain ⟨none, empty⟩ := balanced.idle _ rfl
      refine ⟨nofun, ?_⟩
      rintro receiver ⟨⟩
      exact ⟨none.trans empty.symm, none⟩
  | @submitted receiver =>
      obtain ⟨_, rfl, rfl⟩ := follows
      obtain ⟨agrees, counted⟩ := balanced.receiving _ rfl
      have more := keeps.submit state
      refine ⟨nofun, ?_⟩
      rintro other ⟨⟩
      change receiver.pending + 1 = queue.pending (queue.submit state) ∧
        receiver.pending + 1 + traffic.completed = traffic.submitted + 1
      omega
  | @completed receiver =>
      obtain ⟨_, completes, rfl⟩ := follows
      obtain ⟨agrees, counted⟩ := balanced.receiving _ rfl
      have fewer := keeps.complete _ _ _ completes
      refine ⟨nofun, ?_⟩
      rintro other ⟨⟩
      change receiver.pending - 1 = queue.pending after ∧
        receiver.pending - 1 + (traffic.completed + 1) = traffic.submitted
      omega
  | stopped =>
      obtain ⟨agrees, -⟩ := balanced.receiving _ rfl
      refine ⟨?_, nofun⟩
      rintro radio ⟨⟩
      exact ⟨rfl, pending_of_stop keeps agrees follows⟩

theorem balanced_of_reaches (keeps : queue.Keeps) {history : List (Step × Outcome)}
    {handle : Handle} (reached : Reaches host history handle link)
    (follows : queue.Follows link.log.reverse before state) :
    Balanced queue (Traffic.ofHistory history) handle state := by
  induction reached generalizing state with
  | start replies => exact ⟨nofun, nofun⟩
  | step reached stepped ih =>
      obtain ⟨events, rfl, turn⟩ := turn_of_step stepped
      rw [Link.log_passed] at follows
      obtain ⟨between, earlier, latest⟩ := Queue.follows_append.1 follows
      rw [Traffic.ofHistory_concat]
      exact (ih earlier).turn keeps turn latest

/--
Whatever steps have led to a radio, and whatever was replied to them: while it
streams, the requests that are pending are those that were submitted since it began
and have not completed, and each that completes makes them one fewer, whether it
brings records or not.  To stop, what is pending is cancelled; then as many requests
complete as were pending, however they do, and some completions can follow the
cancelling; then the radio is told to stop, and is idle with nothing pending if it says
so.  An idle radio has nothing pending, also where receiving did not start.
-/
theorem pending_is_submitted_less_completed (keeps : queue.Keeps)
    {history : List (Step × Outcome)} {handle : Handle} (reached : Reaches host history handle link)
    (follows : queue.Follows link.log.reverse before state) :
    let traffic := Traffic.ofHistory history
    let pending := queue.pending state
    (∀ radio, handle = .idle radio → radio.pending = 0 ∧ pending = 0 ∧
      ∀ next error later,
        (handle.step host .startReceiving).run link = ((next, .startFailed error), later) →
          next = .idle radio) ∧
    ∀ receiver, handle = .receiving receiver →
      (handle.step host .pending).run link = ((handle, .pending pending), link) ∧
      pending + traffic.completed = traffic.submitted ∧
      (∀ completion after, queue.Completes state completion after → ∃ next,
        (handle.step host (.next completion)).run link =
          ((.receiving next, .completed (Receiver.capturesOf completion) next.pending),
            link.passed [.complete completion]) ∧
        next.pending = queue.pending after ∧ next.pending + 1 = pending) ∧
      (∃ (completions : List Reply) (last : State), completions.length = pending ∧
        queue.Follows (.cancel :: completions.map .complete ++ [.write .stop 0 []]) state last) ∧
      ∀ completions : List Reply,
        let taken :=
          (completions ++ List.replicate pending (.error .cancelled : Reply)).take pending
        let passed : List Event := .cancel :: taken.map .complete ++ [.write .stop 0 []]
        taken.length = pending ∧
        (handle.step host (.stopReceiving completions)).run link =
          (match link.reply with
            | .ok _ => (.idle { receiver.radio with pending := 0 }, .answered .done)
            | .error cause => (.closed, .failed (.transfer cause)),
          link.passed passed) ∧
        ∀ last, queue.Follows passed state last → queue.pending last = 0 := by
  intro traffic pending
  have balanced := balanced_of_reaches keeps reached follows
  constructor
  · rintro radio rfl
    obtain ⟨none, empty⟩ := balanced.idle radio rfl
    refine ⟨none, empty, ?_⟩
    intro next error later stepped
    rw [Handle.step_startReceiving_run] at stepped
    obtain started | ⟨cause, events, failed, -⟩ := startReceiving_cases radio link
    · rw [started] at stepped
      cases stepped
    · rw [failed] at stepped
      cases stepped
      rfl
  · rintro receiver rfl
    obtain ⟨agrees, counted⟩ := balanced.receiving receiver rfl
    have same : pending = receiver.pending := agrees.symm
    rw [same]
    refine ⟨rfl, counted, ?_, ?_, fun completions => ?_⟩
    · intro completion after completes
      have fewer := keeps.complete state completion after completes
      refine ⟨receiver.withPending (receiver.pending - 1), rfl, ?_⟩
      rw [Receiver.pending_withPending]
      omega
    · obtain ⟨completions, last, number, completed⟩ :=
        Queue.exists_completions keeps (.cancel state)
      refine ⟨completions, last, number.trans ((keeps.cancel state).trans same), ?_⟩
      exact Queue.follows_append.2 ⟨last, ⟨_, rfl, completed⟩, last, rfl, rfl⟩
    · exact ⟨receiver.length_taken completions,
        Handle.step_stopReceiving_run host link receiver completions,
        fun last => pending_of_stop keeps agrees⟩

/-! ## A driver that completes requests in order -/

/-- A queue with one entry for each pending request, which says whether it was cancelled. -/
def Queue.inOrder : Queue (List Bool) where
  opened := []
  submit requests := requests ++ [false]
  cancel requests := requests.map fun _ => true
  pending := List.length
  Completes requests reply rest :=
    ∃ cancelled, requests = cancelled :: rest ∧ (cancelled = true → reply = .error .cancelled)

theorem Queue.inOrder_keeps : inOrder.Keeps where
  opened := rfl
  submit _ := List.length_append
  cancel _ := List.length_map _
  complete := by
    rintro requests reply rest ⟨cancelled, rfl, -⟩
    rfl
  settles := by
    intro requests _ waiting
    cases requests with
    | nil => cases waiting
    | cons cancelled rest => exact ⟨.error .cancelled, rest, cancelled, rfl, fun _ => rfl⟩

/-- Of two requests one completes with half a record, and the other is cancelled. -/
theorem pending_is_submitted_less_completed_malformed :
    let host : Host := { devices := [{ vendor := 0x1d50, product := 0x6002, version := 0x0107 }] }
    let radio : Radio := { model := .one, version := 0x0107 }
    let receiver : Receiver := { radio := { radio with pending := 1 } }
    ∃ history link, Reaches host history (.receiving receiver) link ∧
      Queue.inOrder.Follows link.log.reverse [] [false] ∧
      (Traffic.ofHistory history).submitted = 2 ∧ (Traffic.ofHistory history).completed = 1 ∧
      ((Handle.receiving receiver).step host .stopReceiving).run link =
        ((.idle radio, .answered .done),
          link.passed [.cancel, .complete (.error .cancelled), .write .stop 0 []]) := by
  intro host radio receiver
  let half : Reply := .ok (List.replicate 32 0)
  let asked : List Event := [.write .receiveSymbols 0 [], .openQueue 0x82,
    .opening .claimInterface, .opening .activeConfiguration, .opening .openDevice]
  let log : List Event := .complete half :: .submit 512 :: .submit 512 :: asked
  have opened : Reaches host ([] ++ [(.openFirst, .opened radio)]) (.idle radio)
      { log := asked.tail } := .step (.start []) rfl
  have began : Reaches host (_ ++ [(.startReceiving, .answered .done)])
      (.receiving { radio }) { log := asked } := .step opened rfl
  have first : Reaches host (_ ++ [(.submit, .pending 1)])
      (.receiving { radio := { radio with pending := 1 } }) { log := .submit 512 :: asked } :=
    .step began rfl
  have second : Reaches host (_ ++ [(.submit, .pending 2)])
      (.receiving { radio := { radio with pending := 2 } })
      { log := .submit 512 :: .submit 512 :: asked } := .step first rfl
  have reached : Reaches host (_ ++ [(.next half, .completed (.error .malformed) 1)])
      (.receiving receiver) { log } := .step second rfl
  have follows : Queue.inOrder.Follows log.reverse [] [false] :=
    ⟨[], rfl, [], rfl, [], rfl, [], rfl, [], rfl, [false], rfl, [false, false], rfl, [false],
      ⟨false, rfl, nofun⟩, rfl⟩
  obtain ⟨-, streams⟩ := pending_is_submitted_less_completed Queue.inOrder_keeps reached follows
  obtain ⟨-, -, -, -, stops⟩ := streams receiver rfl
  exact ⟨_, _, reached, follows, rfl, rfl, (stops []).2.1⟩

end Piconet.Radio
