import Piconet.Radio.Control

/-!
# What a conversation does to the link

A control transfer takes the next reply and leaves its event in the log; whether
it succeeds is for the reply to say.
-/

namespace Piconet.Radio

def Link.reply (link : Link) : Reply :=
  link.replies.headD (.ok [])

def Link.after (link : Link) (event : Event) : Link :=
  { replies := link.replies.tail, log := event :: link.log }

def Event.isControl : Event → Bool
  | write _ _ _ | read _ _ => true
  | opening _ | openQueue _ | submit _ | complete _ | cancel => false

/-- The link after some events, of which each control transfer has taken a reply. -/
def Link.passed (link : Link) (events : List Event) : Link where
  replies := link.replies.drop (events.countP Event.isControl)
  log := events.reverse ++ link.log

def acknowledged : Reply → Except Fault Unit
  | .ok _ => .ok ()
  | .error cause => .error (.transfer cause)

namespace Link

theorem passed_passed (link : Link) (first second : List Event) :
    (link.passed first).passed second = link.passed (first ++ second) := by
  rw [passed, passed, passed, List.drop_drop, List.countP_append, List.reverse_append,
    List.append_assoc]

theorem after_eq_passed (link : Link) {event : Event} (control : event.isControl = true) :
    link.after event = link.passed [event] := by
  rw [after, passed, List.countP_singleton, if_pos control, List.drop_one]
  rfl

/-- Only control transfers take a reply. -/
theorem replies_passed (link : Link) {events : List Event}
    (others : ∀ event ∈ events, event.isControl = false) :
    (link.passed events).replies = link.replies := by
  have none : events.countP Event.isControl = 0 :=
    List.countP_eq_zero.2 fun event passed => Bool.eq_false_iff.1 (others event passed)
  rw [passed, none]
  rfl

theorem reply_passed (link : Link) {events : List Event}
    (others : ∀ event ∈ events, event.isControl = false) :
    (link.passed events).reply = link.reply := by
  rw [reply, link.replies_passed others]
  rfl

theorem log_passed (link : Link) (events : List Event) :
    (link.passed events).log.reverse = link.log.reverse ++ events := by
  rw [passed, List.reverse_append, List.reverse_reverse]

end Link

/-- A step that fails ends what it is part of, and the state stays as this step left it. -/
theorem run_bind {Error State First Second : Type} (first : ExceptT Error (StateM State) First)
    (next : First → ExceptT Error (StateM State) Second) (state : State) :
    (first >>= next).run state =
      match first.run state with
      | (.ok value, later) => (next value).run later
      | (.error cause, later) => (.error cause, later) := by
  change (match (first.run state : Except Error First × State) with
    | (result, later) => (ExceptT.bindCont next result) later) = _
  obtain ⟨result, later⟩ : Except Error First × State := first.run state
  cases result with
  | ok value => rfl
  | error cause => rfl

theorem run_tryCatch {Error State Result : Type} (first : ExceptT Error (StateM State) Result)
    (handler : Error → ExceptT Error (StateM State) Result) (state : State) :
    (tryCatch first handler).run state =
      match first.run state with
      | (.ok value, later) => (.ok value, later)
      | (.error cause, later) => (handler cause).run later := by
  change (match (first.run state : Except Error Result × State) with
    | (result, later) => (match result with
      | .ok value => (pure (.ok value) : StateM State (Except Error Result))
      | .error cause => handler cause) later) = _
  obtain ⟨result, later⟩ : Except Error Result × State := first.run state
  cases result with
  | ok value => rfl
  | error cause => rfl

theorem lift_run {Error State Result : Type} (action : StateM State Result) (state : State) :
    (liftM action : ExceptT Error (StateM State) Result).run state =
      (.ok (action.run state).1, (action.run state).2) :=
  rfl

theorem adapt_run {Error Other State Result : Type} (adjust : Error → Other)
    (step : ExceptT Error (StateM State) Result) (state : State) :
    (ExceptT.adapt adjust step).run state =
      ((step.run state).1.mapError adjust, (step.run state).2) :=
  rfl

/-- What follows on an outcome, whichever it is, starts from the state that was left. -/
theorem run_outcome {Error State Result Other : Type} (first : ExceptT Error (StateM State) Result)
    (next : Except Error Result → StateM State Other) (state : State) :
    (first.run >>= next).run state = (next (first.run state).1).run (first.run state).2 :=
  rfl

theorem transfer_run (event : Event) (link : Link) :
    (transfer event).run link = (link.reply.mapError .transfer, link.after event) := by
  change (match link.reply with
    | .ok data => pure data
    | .error cause => throw (.transfer cause) : Conversation (List UInt8)) (link.after event) = _
  cases link.reply with
  | ok data => rfl
  | error cause => rfl

theorem write_run (request : Request) (value : UInt16) (data : List UInt8) (link : Link) :
    (write request value data).run link =
      (acknowledged link.reply, link.after (.write request value data)) := by
  rw [write, run_bind, transfer_run]
  cases link.reply with
  | ok data => rfl
  | error cause => rfl

/-- A conversation that is one control transfer and has no use for data. -/
def Sends (conversation : Conversation Unit) (event : Event) : Prop :=
  ∀ link, conversation.run link = (acknowledged link.reply, link.after event)

theorem write_sends (request : Request) (value : UInt16) (data : List UInt8) :
    Sends (write request value data) (.write request value data) :=
  write_run request value data

/-! ## Whatever comes of it -/

/--
What a step leaves behind where it finds what it requires: one thing if it
succeeds, and another if it fails.
-/
def Leaves {Error State Result : Type} (required : State → Prop)
    (step : ExceptT Error (StateM State) Result) (success : Result → State → Prop)
    (failure : State → Prop) : Prop :=
  ∀ state, required state →
    match step.run state with
    | (.ok value, later) => success value later
    | (.error _, later) => failure later

namespace Leaves

variable {Error State First Second : Type} {required : State → Prop}
  {first : ExceptT Error (StateM State) First} {middle : First → State → Prop}
  {failure : State → Prop}

theorem pure {value : First} (holds : ∀ state, required state → middle value state) :
    Leaves required (Pure.pure value : ExceptT Error (StateM State) First) middle failure :=
  holds

theorem throw {error : Error} (holds : ∀ state, required state → failure state) :
    Leaves required (MonadExcept.throw error : ExceptT Error (StateM State) First) middle failure :=
  holds

/-- What only changes the state does not fail. -/
theorem lift {action : StateM State First} :
    Leaves required (liftM action : ExceptT Error (StateM State) First) (fun _ _ => True) failure :=
  fun _ _ => True.intro

/-- The second step requires what a success of the first leaves behind. -/
theorem bind {next : First → ExceptT Error (StateM State) Second}
    {success : Second → State → Prop} (before : Leaves required first middle failure)
    (after : ∀ value, Leaves (middle value) (next value) success failure) :
    Leaves required (first >>= next) success failure := by
  intro state holds
  have reached := before state holds
  rw [run_bind]
  revert reached
  match first.run state with
  | (.ok value, later) => exact fun reached => after value later reached
  | (.error cause, later) => exact id

/-- What is done behind a failure requires what the failure leaves behind. -/
theorem tryCatch {handler : Error → ExceptT Error (StateM State) First}
    {remaining : State → Prop} (before : Leaves required first middle failure)
    (after : ∀ error, Leaves failure (handler error) middle remaining) :
    Leaves required (MonadExcept.tryCatch first handler) middle remaining := by
  intro state holds
  have reached := before state holds
  rw [run_tryCatch]
  revert reached
  match first.run state with
  | (.ok value, later) => exact id
  | (.error cause, later) => exact fun reached => after cause later reached

/-- What is left behind stays the same where more is required. -/
theorem require {stronger : State → Prop} (left : Leaves required first middle failure)
    (holds : ∀ state, stronger state → required state) : Leaves stronger first middle failure :=
  fun state given => left state (holds state given)

/-- What follows from what is left behind is left behind too. -/
theorem imp {weaker : First → State → Prop} {other : State → Prop}
    (left : Leaves required first middle failure)
    (success : ∀ value state, middle value state → weaker value state)
    (failed : ∀ state, failure state → other state) : Leaves required first weaker other := by
  intro state holds
  have reached := left state holds
  revert reached
  match first.run state with
  | (.ok value, later) => exact success value later
  | (.error cause, later) => exact failed later

/-- Steps in a row, each of which leaves behind what the next one requires. -/
theorem forM {step : Second → ExceptT Error (StateM State) PUnit} {items : List Second}
    {kept : State → Prop} (left : ∀ item ∈ items, Leaves kept (step item) (fun _ => kept) failure) :
    Leaves kept (items.forM step) (fun _ => kept) failure := by
  induction items with
  | nil => exact pure fun _ holds => holds
  | cons item rest ih =>
      exact bind (left item List.mem_cons_self) fun _ =>
        ih fun other member => left other (List.mem_cons_of_mem _ member)

/-- What is required of no state in particular is a fact. -/
theorem of_fact {fact : Prop} {success : First → State → Prop}
    (left : fact → Leaves (fun _ => True) first success failure) :
    Leaves (fun _ => fact) first success failure :=
  fun state holds => left holds state True.intro

/-- What both outcomes of a step leave behind is there in any case. -/
theorem either {kept : State → Prop} (left : Leaves required first (fun _ => kept) kept)
    {state : State} (holds : required state) : kept (first.run state).2 := by
  have reached := left state holds
  revert reached
  match first.run state with
  | (.ok value, later) => exact id
  | (.error cause, later) => exact id

/-- Nothing is known of a step that nothing is known of. -/
theorem trivial : Leaves required first (fun _ _ => True) fun _ => True := by
  intro state _
  match first.run state with
  | (.ok value, later) => exact True.intro
  | (.error cause, later) => exact True.intro

end Leaves

end Piconet.Radio
