import Piconet.Proofs.Rollover
import Piconet.Proofs.Session.Loss
import Piconet.Proofs.Session.Reception

/-!
# When packets were captured

Every basic-rate record is a reading of the radio's counter, whether it holds
the access code or not, and nothing else is.  A packet therefore carries the true
time of its record as long as basic-rate records come once in each period of the
counter.
-/

namespace Piconet.Session

def Operation.reading? : Operation → Option UInt32
  | process capture => if capture.isBasicRate then some capture.counter else none
  | _ => none

/-! ## One operation -/

theorem rollover_of_miss (session : Session) : session.miss.rollover = session.rollover := by
  unfold miss
  dsimp only
  split
  · rfl
  · rfl

theorem rollover_of_trim {session next : Session} {phase clock : UInt32}
    {action : Option TrimDecision} (done : session.trim phase clock = .ok (next, action)) :
    next.rollover = session.rollover := by
  obtain ⟨-, rfl, -⟩ | ⟨-, loop, decision, -, rfl, -⟩ := session.trim_eq_ok_iff.1 done
  · rfl
  · rfl

/-- A record is a reading exactly if it is a basic-rate one, and a packet has its time. -/
theorem rollover_of_process {session next : Session} {capture : Capture}
    {result : Option Packet} (done : session.process capture = .ok (next, result)) :
    next.rollover = (Operation.process capture).reading?.elim session.rollover
      session.rollover.observe ∧
    ∀ packet, result = some packet →
      (Operation.process capture).reading? = some capture.counter ∧
        packet.time = session.rollover.timeOf capture.counter := by
  rw [Operation.reading?]
  obtain ⟨rejected, rfl, rfl⟩ | ⟨valid, -, rfl, rfl⟩ | ⟨valid, found, action, -, trimmed, rfl⟩ :=
    session.process_cases done
  · rw [rejected]
    exact ⟨rfl, nofun⟩
  · rw [valid, rollover_of_miss]
    exact ⟨rfl, nofun⟩
  · rw [valid, rollover_of_trim trimmed]
    refine ⟨rfl, ?_⟩
    rintro packet ⟨⟩
    exact ⟨rfl, rfl⟩

theorem rollover_of_perform {session next : Session} {operation : Operation} {answer : Answer}
    (done : session.perform operation = .ok (next, answer)) :
    next.rollover = operation.reading?.elim session.rollover session.rollover.observe := by
  cases operation with
  | process capture =>
      obtain ⟨result, step, -⟩ := perform_process_eq_ok_iff.1 done
      exact (rollover_of_process step).1
  | setMap map =>
      obtain ⟨reply, performed⟩ := session.exists_perform_setMap map
      cases performed.symm.trans done
      rfl
  | drain | hop clock | start native | clearMap | resetTrim =>
      cases done
      rfl

/-! ## Runs -/

/-- A session has seen the readings of its basic-rate records and no others. -/
theorem rollover_of_run {address : Address} {map : Option ChannelMap} {settings : Settings}
    {session : Session} {operations : List Operation} {answers : List Answer}
    (reached : (Session.new address map settings).run operations = .ok (session, answers)) :
    session.rollover = .after (operations.filterMap Operation.reading?) := by
  refine run_induction (fun operations session =>
    session.rollover = .after (operations.filterMap Operation.reading?)) rfl ?_ reached
  intro operations answers middle operation next answer _ performed former
  rw [rollover_of_perform performed, former, List.filterMap_append]
  cases brings : operation.reading? with
  | none =>
      rw [List.filterMap_cons_none brings, List.filterMap_nil, List.append_nil]
      rfl
  | some reading =>
      rw [List.filterMap_cons_some brings, List.filterMap_nil, Rollover.after_concat]
      rfl

def timedReadings (history : List (Operation × UInt64)) : List (UInt32 × UInt64) :=
  history.filterMap fun (operation, time) => operation.reading?.map (·, time)

theorem map_timedReadings (history : List (Operation × UInt64)) :
    (timedReadings history).map Prod.fst =
      (history.map Prod.fst).filterMap Operation.reading? := by
  rw [timedReadings, List.map_filterMap, List.filterMap_map]
  refine List.filterMap_congr fun entry _ => ?_
  rw [Option.map_map]
  exact Option.map_id'

/-- The packet of a record has the extended time of all readings up to this record. -/
theorem time_of_answer {address : Address} {map : Option ChannelMap} {settings : Settings}
    {session : Session} {operations : List Operation} {answers : List Answer}
    (reached : (Session.new address map settings).run operations = .ok (session, answers))
    {index : Nat} {packet : Packet} (given : answers[index]? = some (.packet (some packet))) :
    ∃ before capture after, operations = before ++ .process capture :: after ∧
      before.length = index ∧
        (Operation.process capture).reading? = some capture.counter ∧
          packet.time =
            (Rollover.after (before.filterMap Operation.reading?)).timeOf capture.counter := by
  obtain ⟨before, operation, after, middle, former, next, rfl, rfl, start, performed⟩ :=
    exists_perform_of_answer reached given
  cases operation with
  | process capture =>
      obtain ⟨result, step, same⟩ := perform_process_eq_ok_iff.1 performed
      cases same
      obtain ⟨brings, time⟩ := (rollover_of_process step).2 packet rfl
      rw [rollover_of_run start] at time
      exact ⟨before, capture, after, rfl, rfl, brings, time⟩
  | setMap map =>
      rw [perform] at performed
      cases outcome : middle.setMap map with
      | mk changed reply =>
          rw [outcome] at performed
          cases reply <;> cases performed
  | drain | hop clock | start native | clearMap | resetTrim => cases performed

/--
Whatever is asked of a session, a packet is told with the true time of its
record, provided that the basic-rate records come in order of their times, the
first one within the first period of the counter and each less than a period
after the one before.  For readings of any kind the extended times never go back
while the rollovers that have been counted are fewer than 2 ^ 32.
-/
theorem packet_has_true_time {address : Address} {map : Option ChannelMap}
    {settings : Settings} {history : List (Operation × UInt64)} {session : Session}
    {answers : List Answer}
    (reached : (Session.new address map settings).run (history.map Prod.fst) =
      .ok (session, answers))
    (faithful : Rollover.Faithful (timedReadings history)) :
    (∀ (index : Nat) (packet : Packet), answers[index]? = some (.packet (some packet)) →
      ∃ capture, history[index]? = some (.process capture, packet.time)) ∧
    ∀ readings : List UInt32, Rollover.setbacks none readings < 2 ^ 32 →
      (Rollover.after readings).wraps.toNat = Rollover.setbacks none readings ∧
        (Rollover.timesOf {} readings).Pairwise (· ≤ ·) := by
  constructor
  · intro index packet given
    obtain ⟨before, capture, after, split, rfl, brings, extended⟩ := time_of_answer reached given
    obtain ⟨earlier, rest, rfl, rfl, others⟩ := List.map_eq_append_iff.1 split
    obtain ⟨⟨operation, time⟩, later, rfl, rfl, -⟩ := List.map_eq_cons_iff.1 others
    have readings : timedReadings (earlier ++ (.process capture, time) :: later) =
        timedReadings earlier ++ (capture.counter, time) :: timedReadings later := by
      rw [timedReadings, List.filterMap_append, List.filterMap_cons_some]
      · rfl
      · exact congrArg (Option.map (·, time)) brings
    rw [readings] at faithful
    have told := Rollover.timeOf_after faithful
    rw [map_timedReadings, ← extended] at told
    refine ⟨capture, ?_⟩
    rw [List.length_map, List.getElem?_append_right (Nat.le_refl _), Nat.sub_self, told]
    rfl
  · intro readings few
    exact ⟨Rollover.toNat_wraps_after (Nat.lt_trans few (by decide)),
      Rollover.timesOf_pairwise few⟩

/-- An inquiry, a rejected record, a miss one period later and an inquiry after one more. -/
def rareInquiries : List (Operation × UInt64) :=
  [(.process { inquiryRecord with counter := 0xfffffff0 }, 0xfffffff0),
   (.process { inquiryRecord with counter := 77, channel := 79 }, 0),
   (.process (quietRecord 0x400), 0x100000400),
   (.process { inquiryRecord with counter := 0x3ff }, 0x2000003ff)]

theorem exists_process_inquiry {session : Session} (follows : session.address = .ofNat 0x9e8b33)
    (usual : session.settings.tolerance = Correlator.defaultTolerance)
    (off : session.settings.trims = false) (counter : UInt32) :
    ∃ next packet,
      session.process { inquiryRecord with counter } = .ok (next, some packet) := by
  obtain ⟨next, action, trimmed⟩ := session.exists_trimFor
    fun runs => absurd (off.symm.trans runs) Bool.false_ne_true
  exact ⟨next, _, process_inquiryRecord follows usual 3 counter trimmed⟩

/-- Both rollovers are counted, the first one by a record without the access code. -/
theorem packet_has_true_time_rare :
    let start := Session.new (.ofNat 0x9e8b33) none { trims := false }
    ∃ session answers packet,
      start.run (rareInquiries.map Prod.fst) = .ok (session, answers) ∧
      answers[3]? = some (.packet (some packet)) ∧ packet.time = 0x2000003ff ∧
      (Rollover.timesOf {} [7, 3, 3, 2]).Pairwise (· ≤ ·) := by
  intro start
  have hear {former : List Operation} {session : Session} {answers : List Answer}
      (reached : start.run former = .ok (session, answers)) (counter : UInt32) :
      ∃ next packet, start.run (former ++ [.process { inquiryRecord with counter }]) =
        .ok (next, answers ++ [.packet (some packet)]) := by
    obtain ⟨next, packet, done⟩ := exists_process_inquiry (address_of_run reached)
      (congrArg Settings.tolerance (settings_of_run reached))
      (congrArg Settings.trims (settings_of_run reached)) counter
    exact ⟨next, packet, run_concat_eq_ok_iff.2 ⟨session, answers, _, reached,
      perform_process_eq_ok_iff.2 ⟨some packet, done, rfl⟩, rfl⟩⟩
  obtain ⟨heardOnce, former, first⟩ := hear start.run_nil 0xfffffff0
  have second := run_concat_eq_ok_iff.2 ⟨_, _, _, first,
    perform_process_eq_ok_iff.2 ⟨none, @process_of_rejected heardOnce
      { inquiryRecord with counter := 77, channel := 79 } rfl, rfl⟩, rfl⟩
  have miss := isMiss_quietRecord 0x400 { trims := false } rfl
  rw [← correlator_of_run second] at miss
  have third := run_concat_eq_ok_iff.2 ⟨_, _, _, second,
    perform_process_eq_ok_iff.2 ⟨none, process_of_miss miss, rfl⟩, rfl⟩
  obtain ⟨session, packet, fourth⟩ := hear third 0x3ff
  have reached : start.run (rareInquiries.map Prod.fst) = .ok (session, _) := fourth
  have readings : timedReadings rareInquiries =
      [(0xfffffff0, 0xfffffff0), (0x400, 0x100000400), (0x3ff, 0x2000003ff)] := rfl
  have faithful : Rollover.Faithful (timedReadings rareInquiries) := by
    rw [readings]
    refine ⟨by simp, ?_, by decide⟩
    rintro entry ⟨⟩
    decide
  obtain ⟨timed, rises⟩ := packet_has_true_time reached faithful
  obtain ⟨capture, entry⟩ := timed 3 packet rfl
  have time : (0x2000003ff : UInt64) = packet.time :=
    congrArg Prod.snd (Option.some.inj entry)
  exact ⟨session, _, packet, reached, rfl, time.symm, (rises _ (by decide)).2⟩

end Piconet.Session
