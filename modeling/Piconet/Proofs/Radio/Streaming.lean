import Piconet.Proofs.Radio.Conversation
import Piconet.Radio.Handle

/-!
# The control transfers around streaming

Opening a radio needs no control transfer.  A radio streams from one request to
another: that it receive symbols, and that it stop.  Before the second one, as many
receive requests complete as are pending.
-/

namespace Piconet.Radio

/-- A link over which no control transfer has passed, with the replies to come. -/
structure Link.Fresh (replies : List Reply) (link : Link) : Prop where
  replies : link.replies = replies
  opening : ∀ event ∈ link.log, event.isControl = false

def Link.Unasked (link : Link) : Prop :=
  ∀ value data, Event.write .receiveSymbols value data ∉ link.log

/-- A link over which the latest control transfer told the radio to stop. -/
def Link.Stopped (link : Link) : Prop :=
  link.log.find? Event.isControl = some (.write .stop 0 [])

/-- Control transfers are asked for, so that they are all among the events that are shown. -/
theorem Link.filter_isControl_events (link : Link) :
    link.events.filter Event.isControl = (link.log.filter Event.isControl).reverse := by
  rw [events, List.filter_reverse, List.filter_filter]
  refine congrArg List.reverse (List.filter_congr fun event _ => ?_)
  cases event with
  | complete reply => rfl
  | _ => exact Bool.and_true _

theorem Link.Stopped.getLast? {link : Link} (stopped : link.Stopped) :
    (link.events.filter Event.isControl).getLast? = some (.write .stop 0 []) := by
  rw [link.filter_isControl_events, List.getLast?_reverse, List.head?_filter]
  exact stopped

theorem Link.Unasked.not_mem_events {link : Link} (unasked : link.Unasked) (value : UInt16)
    (data : List UInt8) : .write .receiveSymbols value data ∉ link.events :=
  fun asked => unasked value data (List.mem_filter.1 (List.mem_reverse.1 asked)).1

variable {replies : List Reply}

/-! ## Opening -/

theorem Link.Fresh.unasked {link : Link} (fresh : link.Fresh replies) : link.Unasked :=
  fun _ _ asked => absurd (fresh.opening _ asked).symm Bool.false_ne_true

theorem Link.Fresh.passed {link : Link} (fresh : link.Fresh replies) {events : List Event}
    (others : ∀ event ∈ events, event.isControl = false) : (link.passed events).Fresh replies where
  replies := (link.replies_passed others).trans fresh.replies
  opening := by
    intro event logged
    obtain passed | before := List.mem_append.1 logged
    · exact others event (List.mem_reverse.1 passed)
    · exact fresh.opening event before

/-- A link after some steps of opening. -/
def Link.Opening (link later : Link) : Prop :=
  ∃ stages : List Stage, later = link.passed (stages.map .opening)

theorem Link.Fresh.opened {link later : Link} (fresh : link.Fresh replies)
    (opening : link.Opening later) : later.Fresh replies := by
  obtain ⟨stages, rfl⟩ := opening
  refine fresh.passed fun event passed => ?_
  obtain ⟨stage, -, rfl⟩ := List.mem_map.1 passed
  rfl

theorem take_opening (link : Link) (device : Device) (stage : Stage) :
    Leaves link.Opening (device.take stage) (fun _ => link.Opening) link.Opening := by
  rw [Device.take]
  have noted : Leaves link.Opening (liftM (note (.opening stage)) : ExceptT OpenError _ Unit)
      (fun _ => link.Opening) link.Opening := by
    rintro state ⟨stages, rfl⟩
    refine ⟨stages ++ [stage], ?_⟩
    rw [List.map_append, ← Link.passed_passed]
    rfl
  refine Leaves.bind noted fun _ => ?_
  split
  · exact Leaves.pure fun _ => id
  · exact Leaves.throw fun _ => id

/-- A radio that was opened has a queue of its own, with nothing pending. -/
theorem Descriptor.connect_opening (descriptor : Descriptor) (link : Link) :
    Leaves link.Opening descriptor.connect
      (fun radio later => radio.pending = 0 ∧ ∃ before, link.Opening before ∧
        later = before.passed [.openQueue receiveEndpoint]) link.Opening := by
  rw [connect]
  refine Leaves.bind (Leaves.forM fun stage _ => take_opening link _ stage) fun _ => ?_
  exact fun before opening => ⟨rfl, before, opening, rfl⟩

theorem Host.connect_opening (host : Host) (link : Link) :
    Leaves link.Opening host.connect
      (fun radio later => radio.pending = 0 ∧ ∃ before, link.Opening before ∧
        later = before.passed [.openQueue receiveEndpoint]) link.Opening := by
  rw [connect]
  have listed : Leaves link.Opening (liftM host.radios : ExceptT OpenError (StateM Link) _)
      (fun _ => link.Opening) link.Opening := by
    cases host.radios with
    | error error => exact fun _ => id
    | ok radios => exact fun _ => id
  refine Leaves.bind listed fun radios => ?_
  cases radios with
  | nil => exact Leaves.throw fun _ => id
  | cons descriptor others => exact descriptor.connect_opening link

/-- Whether a radio is opened or not, no control transfer passes. -/
theorem leaves_fresh_of_opening {connection : ExceptT OpenError (StateM Link) Radio}
    (opening : ∀ link : Link, Leaves link.Opening connection
      (fun radio later => radio.pending = 0 ∧ ∃ before, link.Opening before ∧
        later = before.passed [.openQueue receiveEndpoint]) link.Opening) :
    Leaves (Link.Fresh replies) connection (fun _ => Link.Fresh replies) (Link.Fresh replies) := by
  intro link fresh
  refine (opening link).imp (fun radio later => ?_) (fun later => fresh.opened) link ⟨[], rfl⟩
  rintro ⟨-, before, opened, rfl⟩
  exact (fresh.opened opened).passed (List.forall_mem_singleton.2 rfl)

/-! ## Asking and stopping -/

theorem Sends.leaves_unasked {conversation : Conversation Unit} {request : Request}
    {value : UInt16} {data : List UInt8} (sends : Sends conversation (.write request value data))
    (other : request ≠ .receiveSymbols) :
    Leaves Link.Unasked conversation (fun _ => Link.Unasked) Link.Unasked := by
  intro link unasked
  have kept : (link.after (.write request value data)).Unasked := by
    intro someValue someData asked
    rcases List.mem_cons.1 asked with same | before
    · exact other (Event.write.inj same).1.symm
    · exact unasked someValue someData before
  rw [sends]
  cases link.reply with
  | ok data => exact kept
  | error cause => exact kept

theorem setChannel_leaves_unasked (megahertz : UInt16) :
    Leaves Link.Unasked (setChannel megahertz) (fun _ => Link.Unasked) Link.Unasked := by
  rw [setChannel]
  split
  · exact (write_sends .setChannel megahertz []).leaves_unasked (by decide)
  · exact Leaves.throw fun _ unasked => unasked

/-- Transfers in a row succeed if the next one does and those behind it. -/
theorem Link.all_take_succ (link : Link) (event : Event) (count : Nat) :
    (link.replies.take (count + 1)).all Except.isOk =
      (link.reply.isOk && ((link.after event).replies.take count).all Except.isOk) := by
  rw [reply, after]
  cases link.replies with
  | nil => rw [List.take_nil, List.tail_nil, List.take_nil]; rfl
  | cons reply rest => rfl

theorem isOk_setChannel (megahertz : UInt16) (link : Link) :
    ((setChannel megahertz).run link).1.isOk =
      (decide (lowestFrequency ≤ megahertz ∧ megahertz ≤ highestFrequency) &&
        link.reply.isOk) := by
  rw [setChannel]
  by_cases inside : lowestFrequency ≤ megahertz ∧ megahertz ≤ highestFrequency
  · rw [if_pos inside, decide_eq_true inside, writeValue, write_run]
    cases link.reply with
    | ok data => rfl
    | error cause => rfl
  · rw [if_neg inside, decide_eq_false inside]
    rfl

/-- Firmware that is new enough is asked to stream, and its reply decides. -/
theorem startReceiving_run (radio : Radio) (link : Link) :
    (startReceiving radio).run link =
      if radio.version.toNat < 0x0102 then
        (.error { cause := .outdated 0x0102 radio.version, radio }, link)
      else
        (match link.reply with
          | .ok _ => .ok { radio }
          | .error cause => .error { cause := .transfer cause, radio },
        link.after (.write .receiveSymbols 0 [])) := by
  have known : (liftM radio.checkVersion : Conversation Unit).run link =
      (radio.checkVersion, link) := rfl
  rw [startReceiving, adapt_run, run_bind, known, checkVersion]
  by_cases old : radio.version.toNat < 0x0102
  · rw [if_pos (show radio.version < requiredVersion from UInt16.lt_iff_toNat_lt.2 old), if_pos old]
    rfl
  · rw [if_neg fun below : radio.version < requiredVersion => old (UInt16.lt_iff_toNat_lt.1 below),
      if_neg old]
    dsimp only
    rw [run_bind, writeValue, write_run]
    cases link.reply with
    | ok data => rfl
    | error cause => rfl

/-- Whether a radio takes note of it or not, it is told to stop. -/
theorem stop_leaves : Leaves (fun _ => True) stop (fun _ => Link.Stopped) Link.Stopped := by
  intro link _
  have told : (link.after (.write .stop 0 [])).Stopped := List.find?_cons_of_pos rfl
  rw [stop, writeValue, write_run]
  cases link.reply with
  | ok data => exact told
  | error cause => exact told

/-! ## The end of receiving -/

namespace Receiver

/-- The replies with which as many requests complete as are pending. -/
def taken (receiver : Receiver) (completions : List Reply) : List Reply :=
  (completions ++ List.replicate receiver.pending (.error .cancelled : Reply)).take receiver.pending

theorem length_taken (receiver : Receiver) (completions : List Reply) :
    (receiver.taken completions).length = receiver.pending := by
  rw [taken, List.length_take, List.length_append, List.length_replicate]
  exact Nat.min_eq_left (Nat.le_add_left _ _)

theorem taken_of_pending {receiver : Receiver} (waiting : 0 < receiver.pending)
    (completions : List Reply) :
    receiver.taken completions =
      completions.headD (.error .cancelled) ::
        (receiver.complete (completions.headD (.error .cancelled))).1.taken completions.tail := by
  obtain ⟨fewer, counted⟩ := Nat.exists_eq_add_one.2 waiting
  rw [taken, taken, complete, pending_withPending, counted, Nat.add_sub_cancel]
  cases completions with
  | nil => rfl
  | cons reply rest =>
      rw [List.cons_append, List.take_succ_cons, List.replicate_succ', ← List.append_assoc,
        List.take_append_of_le_length]
      · rfl
      · rw [List.length_append, List.length_replicate]
        exact Nat.le_add_left _ _

theorem drain_run (receiver : Receiver) (completions : List Reply) (link : Link) :
    (receiver.drain completions).run link =
      (receiver.withPending 0, link.passed ((receiver.taken completions).map .complete)) := by
  generalize counted : receiver.pending = waiting
  induction waiting generalizing receiver completions link with
  | zero =>
      have none : receiver.withPending 0 = receiver := by
        rw [← counted]
        rfl
      rw [drain, if_neg (counted.symm ▸ Nat.lt_irrefl 0), taken, counted, List.take_zero, none]
      rfl
  | succ waiting ih =>
      have some : 0 < receiver.pending := counted ▸ Nat.succ_pos waiting
      have fewer : (receiver.complete (completions.headD (.error .cancelled))).1.pending =
          waiting := by
        rw [complete, pending_withPending, counted, Nat.add_sub_cancel]
      rw [drain, if_pos some, taken_of_pending some, List.map_cons]
      exact (ih _ _ (link.passed [.complete _]) fewer).trans
        (congrArg (Prod.mk _) (link.passed_passed _ _))

theorem stop_run (receiver : Receiver) (completions : List Reply) (link : Link) :
    (receiver.stop completions).run link =
      ((acknowledged link.reply).map fun _ => (receiver.withPending 0).radio,
        link.passed (.cancel :: (receiver.taken completions).map .complete ++
          [.write .stop 0 []])) := by
  have noted : (liftM (note .cancel) : Conversation Unit).run link =
      (.ok (), link.passed [.cancel]) := rfl
  have drained : (liftM (receiver.drain completions) : Conversation Receiver).run
      (link.passed [.cancel]) = (.ok (receiver.withPending 0),
        link.passed (.cancel :: (receiver.taken completions).map .complete)) := by
    rw [lift_run, drain_run, Link.passed_passed]
    rfl
  have others : ∀ event ∈ Event.cancel :: (receiver.taken completions).map .complete,
      event.isControl = false := by
    rintro event (_ | ⟨_, completed⟩)
    · rfl
    · obtain ⟨reply, -, rfl⟩ := List.mem_map.1 completed
      rfl
  rw [stop, run_bind, noted]
  dsimp only
  rw [run_bind, drained]
  dsimp only
  rw [run_bind, Radio.stop, writeValue, write_run, link.reply_passed others,
    Link.after_eq_passed _ rfl, Link.passed_passed]
  cases link.reply with
  | ok data => rfl
  | error cause => rfl

theorem stop_leaves (receiver : Receiver) (completions : List Reply) :
    Leaves (fun _ => True) (receiver.stop completions) (fun _ => Link.Stopped)
      Link.Stopped := by
  rw [stop]
  refine Leaves.bind Leaves.lift fun _ => Leaves.bind Leaves.lift fun _ => ?_
  refine Leaves.bind Radio.stop_leaves fun _ => ?_
  exact Leaves.pure fun _ stopped => stopped

end Receiver

/-! ## Steps from one mode to another -/

namespace Handle

variable (host : Host) (link : Link)

theorem step_openFirst_run (handle : Handle) :
    (handle.step host .openFirst).run link =
      match host.connect.run link with
      | (.ok radio, later) => ((idle radio, .opened radio), later)
      | (.error error, later) => ((closed, .openFailed error), later) := by
  refine (run_outcome host.connect _ link).trans ?_
  match host.connect.run link with
  | (.ok radio, later) => rfl
  | (.error error, later) => rfl

theorem step_startReceiving_run (radio : Radio) :
    ((idle radio).step host .startReceiving).run link =
      match (startReceiving radio).run link with
      | (.ok receiver, later) => ((receiving receiver, .answered .done), later)
      | (.error error, later) => ((idle error.radio, .startFailed error), later) := by
  refine (run_outcome (startReceiving radio) _ link).trans ?_
  match (startReceiving radio).run link with
  | (.ok receiver, later) => rfl
  | (.error error, later) => rfl

theorem step_stopReceiving_run (receiver : Receiver) (completions : List Reply) :
    ((receiving receiver).step host (.stopReceiving completions)).run link =
      (match link.reply with
        | .ok _ => (idle (receiver.withPending 0).radio, .answered .done)
        | .error cause => (closed, .failed (.transfer cause)),
      link.passed (.cancel :: (receiver.taken completions).map .complete ++
        [.write .stop 0 []])) := by
  refine (run_outcome (receiver.stop completions) _ link).trans ?_
  rw [receiver.stop_run]
  cases link.reply with
  | ok data => rfl
  | error cause => rfl

theorem step_reset_run (radio : Radio) :
    ((idle radio).step host .reset).run link =
      ((closed, match link.reply with
        | .ok _ => .answered .done
        | .error cause => .failed (.transfer cause)), link.passed [.write .reset 0 []]) := by
  refine (run_outcome reset _ link).trans ?_
  rw [reset, writeValue, write_run, link.after_eq_passed rfl]
  cases link.reply with
  | ok data => rfl
  | error cause => rfl

end Handle

end Piconet.Radio
