import Piconet.CommandLine.Run
import Piconet.Proofs.CommandLine.Script
import Piconet.Proofs.Radio.Streaming
import Piconet.Proofs.Session.Steady

/-!
# Every radio that was asked to stream is told to stop

Before a radio is asked to stream it is opened and told of the piconet, and each
of these steps may fail.  From the request to stream on, whatever fails and
whenever an interruption comes, the last that is asked of the radio is to stop.
-/

namespace Piconet.CommandLine

open Radio

/-! ## A watch always comes to an end -/

namespace Follow

open Script

variable {required never : Terminal → Prop}

theorem sendAll_leaves (watch : Watch) (commands : List Command) :
    Leaves required (sendAll watch commands)
      (fun sent _ => sent.1.session = watch.session) never := by
  induction commands generalizing watch required with
  | nil => exact Leaves.pure fun _ _ => rfl
  | cons command rest ih =>
      rw [sendAll]
      refine Leaves.bind (attempt_leaves (Radio.send command)) fun _ => ?_
      cases watch.patience with
      | none => exact ih watch
      | some patience =>
          cases patience with
          | zero => exact Leaves.pure fun _ _ => rfl
          | succ patience => exact ih _

/-- A steady session is fed with one record, and stays steady. -/
theorem take_leaves (limit : Option Nat) {watch : Watch} (steady : watch.session.Steady)
    (capture : Capture) :
    Leaves required (take limit watch capture)
      (fun taken _ => taken.1.session.Steady) never := by
  obtain ⟨processed, packet, done, kept⟩ := steady.process capture
  have drained : processed.drain.1.Steady := ⟨kept.sound, kept.bounded⟩
  rw [take, done]
  dsimp only
  refine Leaves.bind (sendAll_leaves _ _) fun (restarted, interrupted) =>
    Leaves.of_fact fun same => ?_
  have ready : restarted.session.Steady := same ▸ drained
  cases interrupted with
  | true => exact Leaves.pure fun _ _ => ready
  | false =>
      cases packet with
      | none => exact Leaves.pure fun _ _ => ready
      | some packet =>
          refine Leaves.bind (print_leaves packet.text) fun _ => ?_
          refine Leaves.bind (sendAll_leaves _ _) fun (sent, interrupted) =>
            Leaves.of_fact fun unchanged => ?_
          exact Leaves.pure fun _ _ => unchanged ▸ ready

theorem takeAll_leaves (limit : Option Nat) {watch : Watch} (steady : watch.session.Steady)
    (captures : List Capture) :
    Leaves required (takeAll limit watch captures)
      (fun taken _ => taken.1.session.Steady) never := by
  induction captures generalizing watch required with
  | nil => exact Leaves.pure fun _ _ => steady
  | cons capture rest ih =>
      rw [takeAll]
      refine Leaves.bind (take_leaves limit steady capture) fun (next, finished) =>
        Leaves.of_fact fun kept => ?_
      cases finished with
      | true => exact Leaves.pure fun _ _ => kept
      | false => exact ih kept

theorem submitMore_leaves (missing : Nat) (receiver : Receiver) :
    Leaves required (submitMore missing receiver) (fun _ _ => True) never := by
  induction missing generalizing receiver required with
  | zero => exact Leaves.pure fun _ _ => trivial
  | succ missing ih => exact Leaves.bind (talk_leaves receiver.submit) fun _ => ih _

theorem refill_leaves (depth : Nat) {watch : Watch} (steady : watch.session.Steady) :
    Leaves required (refill depth watch) (fun filled _ => filled.session.Steady) never :=
  Leaves.bind (submitMore_leaves _ _) fun _ => Leaves.pure fun _ _ => steady

/-- A steady session is fed with whatever comes, without a complaint. -/
theorem watchAll_leaves (depth : Nat) (limit : Option Nat) {watch : Watch}
    (steady : watch.session.Steady) (completions : List Reply) :
    Leaves required (watchAll depth limit watch completions)
      (fun last _ => last.session.Steady) never := by
  induction completions generalizing watch required with
  | nil =>
      rw [watchAll]
      exact refill_leaves depth steady
  | cons completion rest ih =>
      rw [watchAll]
      refine Leaves.bind (refill_leaves depth steady) fun filled => Leaves.of_fact fun kept => ?_
      refine Leaves.bind (talk_leaves (filled.receiver.next completion)) fun completed => ?_
      obtain ⟨receiver, captures⟩ := completed
      cases captures with
      | error fault => exact ih kept
      | ok captures =>
          refine Leaves.bind (takeAll_leaves limit (by exact kept) captures) fun (next, finished) =>
            Leaves.of_fact fun taken => ?_
          cases finished with
          | true => exact Leaves.pure fun _ _ => taken
          | false => exact ih taken

/-! ## Before streaming -/

/--
Whether telling a radio of a piconet comes to an end: for the replies to say, and
for the channel where the radio stays on one.
-/
def setsUp (options : FollowOptions) (replies : List Reply) : Bool :=
  match options.settings.clockOffset with
  | some _ => (replies.take 2).all Except.isOk
  | none =>
      (replies.take 3).all Except.isOk &&
        decide (lowestFrequency ≤ options.channel ∧ options.channel ≤ highestFrequency)

/-- Whether a script gets to the point where the radio is asked to stream. -/
def asks (host : Host) (serial : Option String) (options : FollowOptions)
    (replies : List Reply) : Bool :=
  ((connect host serial).run { link := { replies } }).1.isOk && setsUp options replies

section Approach

variable {replies : List Reply}

theorem connect_leaves (host : Host) (serial : Option String) :
    Leaves (fun terminal => terminal.link.Fresh replies) (connect host serial)
      (fun _ terminal => terminal.link.Fresh replies)
      fun terminal => terminal.link.Fresh replies := by
  cases serial with
  | none =>
      rw [connect]
      refine Leaves.bind (talk_leaves_kept (leaves_fresh_of_opening host.connect_opening)) fun opened => ?_
      cases opened with
      | error error => exact Leaves.throw fun _ fresh => fresh
      | ok radio => exact Leaves.pure fun _ fresh => fresh
  | some serial =>
      rw [connect]
      cases host.radios with
      | error error => exact Leaves.throw fun _ fresh => fresh
      | ok radios =>
          dsimp only
          cases radios.find? fun descriptor => descriptor.serial = some serial with
          | none => exact Leaves.throw fun _ fresh => fresh
          | some descriptor =>
              refine Leaves.bind (talk_leaves_kept (leaves_fresh_of_opening descriptor.connect_opening)) fun opened => ?_
              cases opened with
              | error error => exact Leaves.throw fun _ fresh => fresh
              | ok radio => exact Leaves.pure fun _ fresh => fresh

theorem exists_setAddress_sends (address : Address) :
    ∃ data, Sends (setAddress address) (.write .setAddress 0 data) :=
  ⟨_, write_sends .setAddress 0 _⟩

theorem exists_loadMap_sends (map : Option ChannelMap) :
    ∃ request data, request ≠ .receiveSymbols ∧
      Sends (loadMap map) (.write request 0 data) := by
  cases map with
  | some map => exact ⟨.setChannelMap, _, by decide, write_sends .setChannelMap 0 _⟩
  | none => exact ⟨.clearChannelMap, [], by decide, write_sends .clearChannelMap 0 []⟩

/-- A radio that is told of a piconet is not asked to stream. -/
theorem prepare_leaves (options : FollowOptions) (session : Session) :
    Leaves (fun terminal => terminal.link.Unasked) (prepare options session)
      (fun _ terminal => terminal.link.Unasked) fun terminal => terminal.link.Unasked := by
  obtain ⟨request, data, other, sends⟩ := exists_loadMap_sends session.map
  obtain ⟨address, told⟩ := exists_setAddress_sends session.address
  rw [prepare]
  refine Leaves.bind (demand_leaves _ (told.leaves_unasked (by decide))) fun _ => ?_
  refine Leaves.bind (demand_leaves _ (sends.leaves_unasked other)) fun _ => ?_
  split
  · exact demand_leaves _ (setChannel_leaves_unasked options.channel)
  · exact Leaves.pure fun _ unasked => unasked

/-- A radio is told of a piconet if all of the transfers succeed, and the channel can be tuned to. -/
theorem isOk_prepare (options : FollowOptions) {session : Session}
    (same : session.settings = options.settings) (terminal : Terminal) :
    ((prepare options session).run terminal).1.isOk = setsUp options terminal.link.replies := by
  obtain ⟨request, data, -, sends⟩ := exists_loadMap_sends session.map
  obtain ⟨address, told⟩ := exists_setAddress_sends session.address
  have addressed := terminal.link.all_take_succ (.write .setAddress 0 address)
  have mapped :=
    (terminal.link.after (.write .setAddress 0 address)).all_take_succ (.write request 0 data)
  rw [prepare, isOk_bind_demand told, isOk_bind_demand sends, same, setsUp]
  cases options.settings.clockOffset with
  | some offset =>
      dsimp only
      rw [addressed, mapped, Option.isNone_some, if_neg Bool.false_ne_true]
      rfl
  | none =>
      dsimp only
      have tuned := ((terminal.link.after (.write .setAddress 0 address)).after
        (.write request 0 data)).all_take_succ (.write .setChannel options.channel []) 0
      rw [addressed, mapped, tuned, Option.isNone_none, if_pos rfl, isOk_demand, isOk_setChannel,
        List.take_zero, List.all_nil, Bool.and_true, Bool.and_assoc, Bool.and_assoc]
      exact congrArg _ (congrArg _ (Bool.and_comm _ _))

end Approach

/-! ## From the request to stream on -/

theorem attempt_stops {α : Type} {conversation : Conversation α}
    (stops : Leaves (fun _ => True) conversation (fun _ => Link.Stopped) Link.Stopped) :
    Leaves required (attempt conversation) (fun _ terminal => terminal.link.Stopped) never :=
  Leaves.require (talk_leaves_kept stops) fun _ _ => trivial

theorem start_leaves (radio : Radio) :
    Leaves (fun _ => True) (start radio) (fun _ _ => True) fun terminal => terminal.link.Stopped := by
  rw [start]
  refine Leaves.bind (talk_leaves (startReceiving radio).run) fun outcome => ?_
  cases outcome with
  | ok receiver => exact Leaves.pure fun _ _ => trivial
  | error error =>
      refine Leaves.bind (attempt_stops Radio.stop_leaves) fun _ => ?_
      exact Leaves.throw fun _ stopped => stopped

theorem stream_leaves (options : FollowOptions) (completions leftovers : List Reply)
    (patience : Option Nat) (radio : Radio) {session : Session} (steady : session.Steady) :
    Leaves (fun _ => True) (stream options completions leftovers patience radio session)
      (fun _ terminal => terminal.link.Stopped) fun terminal => terminal.link.Stopped := by
  rw [stream]
  refine Leaves.bind (start_leaves radio) fun receiver => ?_
  refine Leaves.bind (Leaves.tryCatch Leaves.trivial fun complaint => ?_) fun _ => ?_
  · refine Leaves.bind (attempt_stops (receiver.stop_leaves leftovers)) fun _ => ?_
    exact Leaves.throw fun _ stopped => stopped
  · refine Leaves.bind (watchAll_leaves _ _ steady completions) fun watch => ?_
    have stops := demand_leaves "Failed to stop receiving" (watch.receiver.stop_leaves leftovers)
    refine Leaves.bind (stops.require fun _ _ => trivial) fun _ => ?_
    exact Leaves.pure fun _ stopped => stopped

/-- A script either goes on with the request to stream, or nobody asks the radio to. -/
theorem script_cases (host : Host) (serial : Option String) (completions leftovers : List Reply)
    (patience : Option Nat) (options : FollowOptions) (replies : List Reply) :
    (asks host serial options replies = true ∧ ∃ radio ready,
      (script host serial completions leftovers patience options).run { link := { replies } } =
        (stream options completions leftovers patience radio
          (Session.new options.address options.map options.settings)).run ready) ∨
    (asks host serial options replies = false ∧
      ((script host serial completions leftovers patience options).run
        { link := { replies } }).2.link.Unasked) := by
  have start : ({ replies } : Link).Fresh replies := ⟨rfl, nofun⟩
  have opening := connect_leaves host serial { link := { replies } } start
  rw [script, run_bind, asks]
  match connected : (connect host serial).run { link := { replies } } with
  | (.error complaint, opened) =>
      rw [connected] at opening
      exact .inr ⟨rfl, opening.unasked⟩
  | (.ok radio, opened) =>
      rw [connected] at opening
      have prepared := prepare_leaves options
        (Session.new options.address options.map options.settings) opened opening.unasked
      have enough := isOk_prepare options
        (rfl : (Session.new options.address options.map options.settings).settings = _) opened
      rw [opening.replies] at enough
      dsimp only
      rw [withRadio, run_bind, ← enough]
      match told : (prepare options
          (Session.new options.address options.map options.settings)).run opened with
      | (.error complaint, ready) =>
          rw [told] at prepared
          exact .inr ⟨rfl, prepared⟩
      | (.ok (), ready) => exact .inl ⟨rfl, radio, ready, rfl⟩

/--
What passes while a piconet is followed.  A radio that is asked to stream is told to
stop, and no control transfer follows this one; another radio is not asked.
-/
structure Ends (asks : Bool) (events : List Event) : Prop where
  stopped : asks = true →
    (events.filter Event.isControl).getLast? = some (.write .stop 0 [])
  unasked : asks = false → ∀ value data, .write .receiveSymbols value data ∉ events

theorem script_ends (host : Host) (serial : Option String) (completions leftovers : List Reply)
    (patience : Option Nat) {options : FollowOptions} (usual : options.settings.tuning = {})
    (replies : List Reply) :
    Ends (asks host serial options replies)
      ((script host serial completions leftovers patience options).run
        { link := { replies } }).2.link.events := by
  have steady : (Session.new options.address options.map options.settings).Steady :=
    Session.steady_new options.address options.map (usual ▸ Tuning.sound_usual)
  obtain ⟨gets, radio, ready, goesOn⟩ | ⟨fails, unasked⟩ :=
    script_cases host serial completions leftovers patience options replies
  · rw [gets, goesOn]
    refine ⟨fun _ => ?_, nofun⟩
    exact (Leaves.either (stream_leaves options completions leftovers patience radio steady)
      trivial).getLast?
  · rw [fails]
    exact ⟨nofun, fun _ => unasked.not_mem_events⟩

end Follow

/-! ## Whole runs -/

/-- The tuning of the trim loop is not for the command line to change. -/
theorem tuning_of_followOptions? {given : Given} {options : FollowOptions}
    (read : Invocation.followOptions? given = some options) : options.settings.tuning = {} := by
  simp only [Invocation.followOptions?, Option.bind_eq_bind, Option.bind_eq_some_iff,
    Option.pure_def, Option.some.injEq] at read
  obtain ⟨_, _, _, _, _, _, _, _, _, _, _, _, _, _, _, _, rfl⟩ := read
  rfl

theorem read_of_withOptions? {flags : List Flag} {read : Given → Option Invocation}
    {words : List (List Char)} {serial : Option String} {options : FollowOptions}
    (asked : Invocation.withOptions? flags read words = some (.follow serial options)) :
    ∃ given, read given = some (.follow serial options) := by
  rw [Invocation.withOptions?, Option.bind_eq_bind, Option.bind_eq_some_iff] at asked
  obtain ⟨⟨given, rest⟩, -, chosen⟩ := asked
  cases rest with
  | cons word others => cases chosen
  | nil =>
      dsimp only at chosen
      split at chosen
      · cases chosen
      · exact ⟨given, chosen⟩

theorem tuning_of_command? {serial chosen : Option String} {name : List Char}
    {words : List (List Char)} {options : FollowOptions}
    (asked : Invocation.command? serial name words = some (.follow chosen options)) :
    options.settings.tuning = {} := by
  unfold Invocation.command? at asked
  split at asked
  · obtain ⟨given, read⟩ := read_of_withOptions? asked
    cases read
  split at asked
  · obtain ⟨given, read⟩ := read_of_withOptions? asked
    obtain ⟨_, -, impossible⟩ := Option.map_eq_some_iff.1 read
    cases impossible
  split at asked
  · obtain ⟨given, read⟩ := read_of_withOptions? asked
    obtain ⟨_, done, same⟩ := Option.map_eq_some_iff.1 read
    cases same
    exact tuning_of_followOptions? done
  split at asked
  · unfold Invocation.helpOn? at asked
    split at asked
    · cases asked
    · split at asked
      · cases asked
      · cases asked
    · cases asked
  · cases asked

theorem tuning_of_parse? {arguments : List String} {serial : Option String}
    {options : FollowOptions}
    (asked : Invocation.parse? arguments = some (.follow serial options)) :
    options.settings.tuning = {} := by
  rw [Invocation.parse?, Option.bind_eq_bind, Option.bind_eq_some_iff] at asked
  obtain ⟨⟨given, words⟩, -, chosen⟩ := asked
  dsimp only at chosen
  split at chosen
  · cases chosen
  split at chosen
  · cases chosen
  cases words with
  | nil => cases chosen
  | cons name rest => exact tuning_of_command? chosen

theorem events_of_run {arguments : List String} {invocation : Invocation}
    (asked : Invocation.parse? arguments = some invocation) (surroundings : Surroundings) :
    (run surroundings arguments).events =
      ((invocation.script surroundings).run
        { link := { replies := surroundings.replies } }).2.link.events := by
  rw [run, asked]
  dsimp only
  split
  rename_i result terminal same
  rw [same]
  cases result with
  | ok value => rfl
  | error complaint => rfl

/--
Whatever is asked for, following a piconet that comes as far as to ask the radio to
stream ends with telling it to stop: no control transfer follows this one, whatever the
radio replies, however the requests complete and whenever an interruption comes.  Where
the radio could not be opened or told of the piconet, it is not asked to stream.  The
same holds of every command line that asks for this.
-/
theorem asked_radio_is_stopped (surroundings : Surroundings) (serial : Option String)
    (options : FollowOptions) :
    let asks := Follow.asks surroundings.host serial options surroundings.replies
    Request.number .stop = 21 ∧
    (options.settings.tuning = {} →
      Follow.Ends asks (((Invocation.follow serial options).script surroundings).run
        { link := { replies := surroundings.replies } }).2.link.events) ∧
    ∀ arguments, Invocation.parse? arguments = some (.follow serial options) →
      Follow.Ends asks (run surroundings arguments).events := by
  refine ⟨rfl, fun usual => ?_, fun arguments asked => ?_⟩
  · exact Follow.script_ends _ _ _ _ _ usual _
  · rw [events_of_run asked]
    exact Follow.script_ends _ _ _ _ _ (tuning_of_parse? asked) _

def hoppingLine : List String :=
  ["rx", "-a", "22:44:66:9e:8b:33", "-o5"]

def hoppingOptions : FollowOptions where
  address := .ofNat 0x2244669e8b33
  map := none
  settings := { clockOffset := some 5 }
  channel := 2441
  limit := none
  depth := 16

/-- A radio streams before its clock cannot be read, and another never learns of the map. -/
theorem asked_radio_is_stopped_unread :
    let host : Host := { devices := [{ vendor := 0x1d50, product := 0x6002, version := 0x0107 }] }
    let unread := run { host, replies := [.ok [], .ok [], .ok [], .error .stalled] } hoppingLine
    let untold := run { host, replies := [.ok [], .error .stalled] } hoppingLine
    .write .receiveSymbols 0 [] ∈ unread.events ∧
      (unread.events.filter Event.isControl).getLast? = some (.write .stop 0 []) ∧
      ∀ value data, .write .receiveSymbols value data ∉ untold.events := by
  intro host unread untold
  have asked : Invocation.parse? hoppingLine = some (.follow none hoppingOptions) := by
    decide +kernel
  have streams : .write .receiveSymbols 0 [] ∈ unread.events := by decide +kernel
  obtain ⟨-, -, unread⟩ := asked_radio_is_stopped
    { host, replies := [.ok [], .ok [], .ok [], .error .stalled] } none hoppingOptions
  obtain ⟨-, -, untold⟩ := asked_radio_is_stopped
    { host, replies := [.ok [], .error .stalled] } none hoppingOptions
  exact ⟨streams, (unread _ asked).stopped rfl, (untold _ asked).unasked rfl⟩

end Piconet.CommandLine
