import Piconet.Proofs.Session.Outbox

/-!
# The channel map of the radio

The radio has a channel map of its own, which only the commands that a session
hands out can change.  It is therefore decided by the latest change that was
taken, whereas a refused map also takes the session back to all channels, and no
command tells the radio so.  The two maps are the same exactly where no refusal
has left the radio alone with a map.
-/

namespace Piconet

def Command.load (map : Option ChannelMap) : Command → Option ChannelMap
  | setChannelMap next => some next
  | clearChannelMap => none
  | setChannel _ | trimClock _ | correctDrift _ | startHopping _ _ => map

def Command.KeepMap (commands : List Command) : Prop :=
  ∀ command ∈ commands, ∀ map, Command.load map command = map

theorem Command.keepMap_nil : KeepMap [] := by
  intro command member
  cases member

theorem Command.KeepMap.foldl_load {commands : List Command} (keep : KeepMap commands)
    (map : Option ChannelMap) : commands.foldl load map = map := by
  induction commands with
  | nil => rfl
  | cons command rest ih =>
      rw [List.foldl_cons, keep command List.mem_cons_self]
      exact ih fun other member => keep other (List.mem_cons_of_mem _ member)

namespace HopSequence

def Change.Taken : Change → Prop
  | setMap map => map.Usable
  | clearMap => True

instance : DecidablePred Change.Taken
  | .setMap map => inferInstanceAs (Decidable map.Usable)
  | .clearMap => inferInstanceAs (Decidable True)

/-- What is refused leaves no map in force. -/
theorem Change.leaves_of_not_taken {change : Change} (refused : ¬change.Taken) :
    change.leaves = none := by
  cases change with
  | setMap map => exact if_neg refused
  | clearMap => exact absurd trivial refused

theorem mapInForce_concat (initial : Option ChannelMap) (changes : List Change)
    (latest : Change) : mapInForce initial (changes ++ [latest]) = latest.leaves := by
  rw [mapInForce, List.getLast?_concat]

/-- The changes that were taken leave the same map as all of them, unless the latest was refused. -/
theorem mapInForce_filter_taken (initial : Option ChannelMap) {changes : List Change}
    (latest : ∀ change, changes.getLast? = some change → change.Taken) :
    mapInForce initial (changes.filter (·.Taken)) = mapInForce initial changes := by
  induction changes using List.reverseRecOn with
  | nil => rfl
  | append_singleton changes change _ =>
      have taken := latest change List.getLast?_concat
      rw [List.filter_append, List.filter_singleton, decide_eq_true taken, cond_true,
        mapInForce_concat, mapInForce_concat]

/-- Refused changes matter only where the latest one took back a map. -/
theorem mapInForce_filter_taken_eq_iff (initial : Option ChannelMap) (changes : List Change) :
    mapInForce initial (changes.filter (·.Taken)) = mapInForce initial changes ↔
      ∀ change, changes.getLast? = some change → ¬change.Taken →
        mapInForce initial (changes.filter (·.Taken)) = none := by
  constructor
  · intro same change latest refused
    rw [same, mapInForce, latest]
    exact change.leaves_of_not_taken refused
  · intro bare
    by_cases latest : ∀ change, changes.getLast? = some change → change.Taken
    · exact mapInForce_filter_taken initial latest
    · push Not at latest
      obtain ⟨change, last, refused⟩ := latest
      rw [bare change last refused, mapInForce, last]
      exact (change.leaves_of_not_taken refused).symm

end HopSequence

namespace Session

open HopSequence

def Answer.handedOut : Answer → List Command
  | packet (some heard) => heard.commands
  | commands handed => handed
  | packet none | refused _ | done => []

/-- The map of a radio that has carried out all commands of some answers in order. -/
def radioMap (initial : Option ChannelMap) (answers : List Answer) : Option ChannelMap :=
  (answers.flatMap Answer.handedOut).foldl Command.load initial

theorem radioMap_concat (initial : Option ChannelMap) (answers : List Answer)
    (answer : Answer) : radioMap initial (answers ++ [answer]) =
      answer.handedOut.foldl Command.load (radioMap initial answers) := by
  rw [radioMap, List.flatMap_append, List.flatMap_singleton, List.foldl_append, radioMap]

/-! ## Commands that are not about the map -/

theorem keepMap_trimCommands (action : Option TrimDecision) :
    Command.KeepMap (trimCommands action) := by
  match action with
  | none | some .stable | some (.pending _) => exact Command.keepMap_nil
  | some (.trim offset none) => simp [trimCommands, Command.KeepMap, Command.load]
  | some (.trim offset (some rate)) => simp [trimCommands, Command.KeepMap, Command.load]

/-- What restarts the hopping says nothing about the map. -/
theorem keepMap_restart (megahertz : UInt16) (ahead : UInt32) :
    Command.KeepMap [.setChannel megahertz, .startHopping ahead 0] := by
  simp [Command.KeepMap, Command.load]

theorem keepMap_startCommands (session : Session) (native : UInt32) :
    Command.KeepMap (session.startCommands native) := by
  rw [startCommands]
  cases session.settings.clockOffset with
  | none => exact Command.keepMap_nil
  | some ahead => exact keepMap_restart _ ahead

theorem keepMap_lossCommands (loss : Loss) (ahead : Option UInt32) :
    Command.KeepMap (loss.commands ahead) := by
  cases ahead with
  | none => exact Command.keepMap_nil
  | some ahead => exact keepMap_restart _ ahead

/-- No loss queues a command about the map. -/
theorem keepMap_outbox_of_run {address : Address} {map : Option ChannelMap}
    {settings : Settings} {session : Session} {operations : List Operation}
    {answers : List Answer}
    (reached : (Session.new address map settings).run operations = .ok (session, answers)) :
    Command.KeepMap session.outbox := by
  refine run_induction (fun _ session => Command.KeepMap session.outbox) ?_ ?_ reached
  · exact Command.keepMap_nil
  intro operations answers before operation after answer _ performed queued command member
  have all := outbox_of_perform performed
  have earlier : command ∈ before.outbox ++ (lossIn before after operation).flatMap
      (Loss.commands · before.settings.clockOffset) := by
    rw [← all]
    exact List.mem_append_right _ member
  rcases List.mem_append.1 earlier with old | new
  · exact queued command old
  · obtain ⟨loss, -, made⟩ := List.mem_flatMap.1 new
    exact keepMap_lossCommands loss _ command made

/-! ## One operation -/

/-- A change that is taken reaches the radio, and nothing else does. -/
theorem load_of_perform {session next : Session} {operation : Operation} {answer : Answer}
    (queued : Command.KeepMap session.outbox)
    (done : session.perform operation = .ok (next, answer)) (radio : Option ChannelMap) :
    (∃ change, operation.mapChange? = some change ∧ change.Taken ∧
      answer.handedOut.foldl Command.load radio = change.leaves) ∨
    ((∀ change, operation.mapChange? = some change → ¬change.Taken) ∧
      answer.handedOut.foldl Command.load radio = radio) := by
  have unasked : ∀ change : Change, none = some change → ¬change.Taken := by
    intro change asked
    cases asked
  cases operation with
  | process capture =>
      obtain ⟨result, step, rfl⟩ := perform_process_eq_ok_iff.1 done
      refine .inr ⟨unasked, ?_⟩
      obtain ⟨-, -, rfl⟩ | ⟨-, -, -, rfl⟩ | ⟨-, found, action, -, -, rfl⟩ :=
        session.process_cases step
      · rfl
      · rfl
      · exact (keepMap_trimCommands action).foldl_load radio
  | drain =>
      cases done
      exact .inr ⟨unasked, queued.foldl_load radio⟩
  | hop clock =>
      cases done
      exact .inr ⟨unasked, rfl⟩
  | start native =>
      cases done
      exact .inr ⟨unasked, (session.keepMap_startCommands native).foldl_load radio⟩
  | setMap map =>
      rw [perform, Session.setMap, HopSequence.setMap, ReducedBank.ofMap?] at done
      by_cases usable : map.Usable
      · rw [dif_pos (map.bank_ne_nil_iff.2 usable)] at done
        cases done
        exact .inl ⟨.setMap map, rfl, usable, (if_pos usable).symm⟩
      · rw [dif_neg (map.bank_ne_nil_iff.not.2 usable)] at done
        cases done
        refine .inr ⟨?_, rfl⟩
        rintro change same
        cases same
        exact usable
  | clearMap =>
      cases done
      exact .inl ⟨.clearMap, rfl, trivial, rfl⟩
  | resetTrim =>
      cases done
      exact .inr ⟨unasked, rfl⟩

/-! ## Runs -/

theorem map_of_run {address : Address} {map : Option ChannelMap} {settings : Settings}
    {session : Session} {operations : List Operation} {answers : List Answer}
    (reached : (Session.new address map settings).run operations = .ok (session, answers)) :
    session.map = mapInForce map (operations.filterMap Operation.mapChange?) := by
  rw [map_eq_of_run reached, sequence_of_run reached, map_changed]

/-- The map of the radio is the one that the changes which were taken leave in force. -/
theorem radioMap_of_run {address : Address} {map : Option ChannelMap} {settings : Settings}
    {session : Session} {operations : List Operation} {answers : List Answer}
    (reached : (Session.new address map settings).run operations = .ok (session, answers)) :
    radioMap (Session.new address map settings).map answers =
      mapInForce map ((operations.filterMap Operation.mapChange?).filter (·.Taken)) := by
  induction operations using List.reverseRecOn generalizing session answers with
  | nil =>
      cases reached
      exact map_new address map
  | append_singleton operations operation ih =>
      obtain ⟨middle, former, answer, before, performed, rfl⟩ := run_concat_eq_ok_iff.1 reached
      rw [radioMap_concat, ih before, List.filterMap_append, List.filter_append]
      obtain ⟨change, asked, taken, loaded⟩ | ⟨refused, kept⟩ :=
        load_of_perform (keepMap_outbox_of_run before) performed
          (mapInForce map ((operations.filterMap Operation.mapChange?).filter (·.Taken)))
      · rw [loaded, List.filterMap_cons_some asked, List.filterMap_nil, List.filter_singleton,
          decide_eq_true taken, cond_true, mapInForce_concat]
      · rw [kept]
        cases asked : operation.mapChange? with
        | none =>
            rw [List.filterMap_cons_none asked, List.filterMap_nil, List.filter_nil,
              List.append_nil]
        | some change =>
            rw [List.filterMap_cons_some asked, List.filterMap_nil, List.filter_singleton,
              decide_eq_false (refused change asked), cond_false, List.append_nil]

/--
Whatever is asked of a session, its radio ends with the map of the latest change
that was taken, and the session with that of the latest change.  They agree, and
then hop over the same channels, exactly when the latest change was no refusal
that left the radio with a map.
-/
theorem radioMap_eq_map_iff {address : Address} {map : Option ChannelMap} {settings : Settings}
    {operations : List Operation} {session : Session} {answers : List Answer}
    (reached : (Session.new address map settings).run operations = .ok (session, answers)) :
    let changes := operations.filterMap Operation.mapChange?
    let radio := radioMap (Session.new address map settings).map answers
    radio = mapInForce map (changes.filter (·.Taken)) ∧
      session.map = mapInForce map changes ∧
      (radio = session.map ↔
        ∀ change, changes.getLast? = some change → ¬change.Taken → radio = none) ∧
      (radio = session.map → HopSequence.new address radio = session.sequence) := by
  intro changes radio
  have loaded : radio = mapInForce map (changes.filter (·.Taken)) := radioMap_of_run reached
  have kept : session.map = mapInForce map changes := map_of_run reached
  refine ⟨loaded, kept, ?_, ?_⟩
  · rw [loaded, kept]
    exact mapInForce_filter_taken_eq_iff map changes
  · intro same
    rw [same, map_eq_of_run reached, ← address_of_run reached]
    exact session.sequence.new_map

def singleChannel : ChannelMap :=
  ChannelMap.empty.insert 40

/-- A map that is set, taken back by a refusal and then cleared is gone on both sides. -/
theorem radioMap_eq_map_iff_cleared :
    let start := Session.new (.ofNat 0x12345678) none {}
    ∃ session answers,
      start.run [.setMap singleChannel, .setMap .empty, .clearMap] = .ok (session, answers) ∧
      radioMap start.map answers = session.map ∧
      HopSequence.new (.ofNat 0x12345678) (radioMap start.map answers) = session.sequence := by
  intro start
  have reached : start.run [.setMap singleChannel, .setMap .empty, .clearMap] = .ok (_, _) := rfl
  obtain ⟨-, -, agree, follows⟩ := radioMap_eq_map_iff reached
  have same := agree.2 (by
    intro change latest refused
    cases latest
    exact absurd trivial refused)
  exact ⟨_, _, reached, same, follows same⟩

/--
A map that leaves no channel takes the session back to all channels without a
command, so that its radio stays on the map it had and hops elsewhere.
-/
theorem radioMap_ne_map_of_refusal :
    let start := Session.new (.ofNat 0x12345678) none {}
    ∃ session answers,
      start.run [.setMap singleChannel, .setMap .empty, .drain] = .ok (session, answers) ∧
      answers = [.commands [.setChannelMap singleChannel], .refused .noChannels, .commands []] ∧
      radioMap start.map answers = some singleChannel ∧ session.map = none ∧
      radioMap start.map answers ≠ session.map ∧
      (HopSequence.new (.ofNat 0x12345678) (radioMap start.map answers)).frequency 0 = 2442 ∧
      session.sequence.frequency 0 = 2462 := by
  refine ⟨_, _, rfl, rfl, rfl, rfl, Option.some_ne_none _, ?_, ?_⟩
  · decide +kernel
  · decide +kernel

end Session

end Piconet
