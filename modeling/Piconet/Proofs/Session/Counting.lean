import Piconet.Proofs.Session.Acceptance

/-!
# What a session counts

The counters of a session are statistics of what was asked and answered: the
records, the basic-rate ones among them, the packets, and the trims that packets
carried.  Only records change them.  A loss is paid for by the misses that
brought it about: after a run of them the counter of misses starts again, so that
no miss pays for two losses.
-/

namespace Piconet

def Command.isTrim : Command → Bool
  | trimClock _ => true
  | setChannel _ | correctDrift _ | setChannelMap _ | clearChannelMap | startHopping _ _ => false

namespace Session

def Operation.isRecord : Operation → Bool
  | process _ => true
  | drain | hop _ | start _ | setMap _ | clearMap | resetTrim => false

def Operation.isValid : Operation → Bool
  | process capture => capture.isBasicRate
  | drain | hop _ | start _ | setMap _ | clearMap | resetTrim => false

def Answer.isPacket : Answer → Bool
  | packet heard => heard.isSome
  | commands _ | refused _ | done => false

def Answer.carried : Answer → List Command
  | packet (some heard) => heard.commands
  | packet none | commands _ | refused _ | done => []

/-- What some operations and their answers add to the counters. -/
structure Counts (correlator : Correlator) (before after : Session)
    (operations : List Operation) (answers : List Answer) : Prop where
  captures : after.stats.captures =
    before.stats.captures + operations.countP Operation.isRecord
  valid : after.stats.valid = before.stats.valid + operations.countP Operation.isValid
  found : after.stats.found = before.stats.found + answers.countP Answer.isPacket
  trims : after.stats.trims =
    before.stats.trims + (answers.flatMap Answer.carried).countP Command.isTrim
  /-- A basic-rate record is answered by a packet, or it is a miss. -/
  heard : operations.countP Operation.isValid =
    answers.countP Answer.isPacket + operations.countP (Operation.isMiss correlator)
  /-- A packet carries one trim at most. -/
  once : (answers.flatMap Answer.carried).countP Command.isTrim ≤
    answers.countP Answer.isPacket

namespace Counts

variable {correlator : Correlator} {before middle after : Session}
  {operations others : List Operation} {answers replies : List Answer}

theorem refl (session : Session) : Counts correlator session session [] [] :=
  ⟨rfl, rfl, rfl, rfl, rfl, Nat.le_refl 0⟩

theorem trans (left : Counts correlator before middle operations answers)
    (right : Counts correlator middle after others replies) :
    Counts correlator before after (operations ++ others) (answers ++ replies) where
  captures := by rw [right.captures, left.captures, List.countP_append, Nat.add_assoc]
  valid := by rw [right.valid, left.valid, List.countP_append, Nat.add_assoc]
  found := by rw [right.found, left.found, List.countP_append, Nat.add_assoc]
  trims := by
    rw [right.trims, left.trims, List.flatMap_append, List.countP_append, Nat.add_assoc]
  heard := by
    have first := left.heard
    have second := right.heard
    simp only [List.countP_append]
    omega
  once := by
    have first := left.once
    have second := right.once
    simp only [List.flatMap_append, List.countP_append]
    omega

end Counts

/-! ## One operation -/

/-- The trims in what a decision calls for: one, if it is a trim. -/
theorem countP_isTrim_trimCommands (action : Option TrimDecision) :
    (trimCommands action).countP Command.isTrim =
      (action.elim false TrimDecision.isTrim).toNat := by
  match action with
  | none | some .stable | some (.pending _) => rfl
  | some (.trim offset none) | some (.trim offset (some rate)) => rfl

/-- A miss changes no counter of the records, only that of the losses. -/
theorem stats_of_miss (session : Session) :
    session.miss.stats = { session.stats with losses := session.miss.stats.losses } := by
  rw [miss_eq]
  split
  · rfl
  · rfl

/-- The trims are counted as the packet carries them. -/
theorem stats_of_trimFor {session next : Session} {capture : Capture} {found : AccessCode}
    {action : Option TrimDecision} (trimmed : session.trimFor capture found = .ok (next, action)) :
    next.stats =
      { (session.counted.note capture).1.credited.stats with
        trims := session.stats.trims + (trimCommands action).countP Command.isTrim } := by
  rw [countP_isTrim_trimCommands]
  obtain ⟨-, rfl, rfl⟩ | ⟨-, loop, decision, -, rfl, rfl⟩ := (trim_eq_ok_iff _).1 trimmed
  · rfl
  · rfl

theorem counts_of_process {session next : Session} {capture : Capture}
    {result : Option Packet} (done : session.process capture = .ok (next, result)) :
    Counts session.correlator session next [.process capture] [.packet result] := by
  obtain ⟨rejected, rfl, rfl⟩ | ⟨valid, missed, rfl, rfl⟩ |
    ⟨valid, found, action, heard, trimmed, rfl⟩ := session.process_cases done
  · refine ⟨rfl, ?_, rfl, rfl, ?_, Nat.le_refl 0⟩
    · simp [Operation.isValid, rejected, counted]
    · simp [Operation.isValid, Operation.isMiss, Answer.isPacket, rejected]
  · have stats := (session.counted.note capture).1.stats_of_miss
    refine ⟨?_, ?_, ?_, ?_, ?_, Nat.le_refl 0⟩
    · rw [stats]
      rfl
    · rw [stats]
      simp [Operation.isValid, valid, note, counted]
    · rw [stats]
      rfl
    · rw [stats]
      rfl
    · simp [Operation.isValid, Operation.isMiss, Answer.isPacket, valid, missed]
  · have stats := stats_of_trimFor trimmed
    have carried : [Answer.packet (some (session.packetFor capture found action))].flatMap
        Answer.carried = trimCommands action := List.flatMap_singleton ..
    refine ⟨?_, ?_, ?_, ?_, ?_, ?_⟩
    · rw [stats]
      rfl
    · rw [stats]
      simp [Operation.isValid, valid, note, counted, credited]
    · rw [stats]
      rfl
    · rw [stats, carried]
    · simp [Operation.isValid, Operation.isMiss, Answer.isPacket, valid, heard]
    · rw [carried, countP_isTrim_trimCommands]
      exact Bool.toNat_le _

/-- What is no record changes no counter, and no packet answers it. -/
theorem perform_of_not_record {session next : Session} {operation : Operation} {answer : Answer}
    (other : operation.isRecord = false) (done : session.perform operation = .ok (next, answer)) :
    next.stats = session.stats ∧ answer.isPacket = false ∧ answer.carried = [] := by
  cases operation with
  | process capture => cases other
  | setMap map =>
      rw [perform] at done
      cases outcome : session.setMap map with
      | mk changed reply =>
          have same : changed.stats = session.stats := congrArg (·.1.stats) outcome.symm
          rw [outcome] at done
          cases reply <;> cases done <;> exact ⟨same, rfl, rfl⟩
  | drain | hop clock | start native | clearMap | resetTrim =>
      cases done
      exact ⟨rfl, rfl, rfl⟩

theorem counts_of_perform {session next : Session} {operation : Operation} {answer : Answer}
    (done : session.perform operation = .ok (next, answer)) :
    Counts session.correlator session next [operation] [answer] := by
  cases operation with
  | process capture =>
      obtain ⟨result, step, rfl⟩ := perform_process_eq_ok_iff.1 done
      exact counts_of_process step
  | drain | hop clock | start native | setMap map | clearMap | resetTrim =>
      obtain ⟨stats, packet, carried⟩ := perform_of_not_record rfl done
      constructor <;>
        simp [stats, packet, carried, Operation.isRecord, Operation.isValid, Operation.isMiss]

/-! ## Runs -/

theorem counts_of_run {session last : Session} {operations : List Operation}
    {answers : List Answer} (reached : session.run operations = .ok (last, answers)) :
    Counts session.correlator session last operations answers := by
  induction operations generalizing session answers with
  | nil =>
      cases reached
      exact .refl _
  | cons operation rest ih =>
      obtain ⟨next, answer, later, performed, continued, rfl⟩ := run_cons_eq_ok_iff.1 reached
      have onward := ih continued
      rw [(perform_followsSame performed).correlator] at onward
      exact (counts_of_perform performed).trans onward

theorem countP_isValid_le (operations : List Operation) :
    operations.countP Operation.isValid ≤ operations.countP Operation.isRecord := by
  refine List.countP_mono_left fun operation _ valid => ?_
  cases operation with
  | process capture => rfl
  | drain | hop clock | start native | setMap map | clearMap | resetTrim => cases valid

/-! ## What a loss costs -/

/-- A remainder grows with its number by one at most. -/
theorem succ_mod_le (number period : Nat) : (number + 1) % period ≤ number % period + 1 := by
  rw [← Nat.mod_add_mod]
  exact Nat.mod_le _ _

/-- The number before a multiple leaves the greatest remainder. -/
theorem mod_succ_of_dvd {number period : Nat} (positive : 0 < period)
    (multiple : period ∣ number + 1) : number % period + 1 = period := by
  have below := Nat.mod_lt number positive
  by_contra other
  have small : number % period + 1 < period := by omega
  have remainder := Nat.mod_eq_zero_of_dvd multiple
  rw [← Nat.mod_add_mod, Nat.mod_eq_of_lt small] at remainder
  exact absurd remainder (Nat.succ_ne_zero _)

/--
The losses are paid for: each by as many misses as lose the piconet, apart from
the misses in a row since the latest loss, which are not used up yet.
-/
structure Paid (session : Session) : Prop where
  misses : session.misses.toNat + session.stats.found ≤ session.stats.valid
  losses : session.stats.losses * session.settings.lostAfter.toNat +
    session.misses.toNat % session.settings.lostAfter.toNat + session.stats.found ≤
      session.stats.valid

theorem paid_of_miss {session : Session} (capture : Capture) (paid : Paid session)
    (few : session.stats.valid + 1 < 2 ^ 32) :
    Paid (session.counted.note capture).1.miss := by
  have row := paid.misses
  have spent := paid.losses
  have number : (session.misses + 1).toNat = session.misses.toNat + 1 := by
    rw [UInt32.toNat_add]
    exact Nat.mod_eq_of_lt (by change session.misses.toNat + 1 < 2 ^ 32; omega)
  rw [miss_note_eq]
  cases lost : session.losesAt (session.misses + 1) with
  | true =>
      obtain ⟨gives, multiple⟩ := (session.losesAt_iff _).1 lost
      rw [number] at multiple
      have positive : 0 < session.settings.lostAfter.toNat :=
        Nat.pos_of_ne_zero fun zero => gives (UInt32.toNat_inj.1 zero)
      have whole := mod_succ_of_dvd positive multiple
      rw [if_pos rfl]
      constructor
      · change (session.misses + 1).toNat + session.stats.found ≤ session.stats.valid + 1
        omega
      · change (session.stats.losses + 1) * session.settings.lostAfter.toNat +
          (session.misses + 1).toNat % session.settings.lostAfter.toNat + session.stats.found ≤
            session.stats.valid + 1
        rw [number, Nat.mod_eq_zero_of_dvd multiple, Nat.succ_mul]
        omega
  | false =>
      have grown := succ_mod_le session.misses.toNat session.settings.lostAfter.toNat
      rw [if_neg Bool.false_ne_true]
      constructor
      · change (session.misses + 1).toNat + session.stats.found ≤ session.stats.valid + 1
        omega
      · change session.stats.losses * session.settings.lostAfter.toNat +
          (session.misses + 1).toNat % session.settings.lostAfter.toNat + session.stats.found ≤
            session.stats.valid + 1
        rw [number]
        omega

/-- A packet starts the misses in a row again, and pays for nothing. -/
theorem paid_of_trimFor {session next : Session} {capture : Capture} {found : AccessCode}
    {action : Option TrimDecision} (trimmed : session.trimFor capture found = .ok (next, action))
    (paid : Paid session) : Paid next := by
  have row := paid.misses
  have spent := paid.losses
  have stats := stats_of_trimFor trimmed
  have heard := heard_of_trimFor trimmed
  have same : next.settings = session.settings := (trim_followsSame trimmed).settings
  constructor
  · rw [heard.misses, stats]
    change 0 + (session.stats.found + 1) ≤ session.stats.valid + 1
    omega
  · rw [heard.misses, heard.losses, stats, same]
    change _ + 0 % _ + (session.stats.found + 1) ≤ session.stats.valid + 1
    rw [Nat.zero_mod]
    omega

theorem paid_of_perform {session next : Session} {operation : Operation} {answer : Answer}
    (done : session.perform operation = .ok (next, answer)) (paid : Paid session)
    (few : next.stats.valid < 2 ^ 32) : Paid next := by
  obtain ⟨capture, rfl, -, -, rfl, -⟩ | ⟨capture, found, action, -, -, -, trimmed, -⟩ |
    ⟨-, other, aside⟩ := perform_cases done
  · rw [stats_of_miss] at few
    exact paid_of_miss capture paid few
  · exact paid_of_trimFor trimmed paid
  · have counts := counts_of_perform done
    have valid := counts.valid
    have found := counts.found
    have alike := counts.heard
    rw [List.countP_singleton (p := Operation.isMiss _), other] at alike
    have row := paid.misses
    have spent := paid.losses
    constructor
    · rw [aside.misses]
      omega
    · rw [aside.misses, aside.losses, (perform_followsSame done).settings]
      omega

theorem paid_of_run {address : Address} {map : Option ChannelMap} {settings : Settings}
    {session : Session} {operations : List Operation} {answers : List Answer}
    (reached : (Session.new address map settings).run operations = .ok (session, answers)) :
    session.stats.valid < 2 ^ 32 → Paid session := by
  refine run_induction (fun _ session => session.stats.valid < 2 ^ 32 → Paid session)
    (fun _ => ?_) ?_ reached
  · exact ⟨Nat.le_refl 0, by simp [Session.new]⟩
  · intro operations answers middle operation next answer _ performed carried few
    have grown := (counts_of_perform performed).valid
    exact paid_of_perform performed (carried (by omega)) few

/--
In every state that a session can reach its counters are those of the run: the
records processed, the basic-rate ones among them, the packets reported and the
trims that packets carried, each no more than the one before, with the misses
making the difference between basic-rate records and packets.  A loss takes as
many misses as the setting says, while fewer than 2 ^ 32 records were processed,
and with a setting of zero there is none.  Only a record changes a counter.
-/
theorem stats_are_those_of_the_run {address : Address} {map : Option ChannelMap}
    {settings : Settings} {operations : List Operation} {session : Session}
    {answers : List Answer}
    (reached : (Session.new address map settings).run operations = .ok (session, answers)) :
    session.stats.captures = operations.countP Operation.isRecord ∧
    session.stats.valid = operations.countP Operation.isValid ∧
    session.stats.found = answers.countP Answer.isPacket ∧
    session.stats.trims = (answers.flatMap Answer.carried).countP Command.isTrim ∧
    (session.stats.trims ≤ session.stats.found ∧ session.stats.found ≤ session.stats.valid ∧
      session.stats.valid ≤ session.stats.captures) ∧
    session.stats.valid - session.stats.found =
      operations.countP (Operation.isMiss (correlatorFor address settings)) ∧
    (session.stats.captures < 2 ^ 32 →
      session.stats.losses * settings.lostAfter.toNat ≤
        session.stats.valid - session.stats.found) ∧
    (settings.lostAfter = 0 → session.stats.losses = 0) ∧
    ∀ operation next answer, operation.isRecord = false →
      session.perform operation = .ok (next, answer) → next.stats = session.stats := by
  have counts := counts_of_run reached
  have captures := counts.captures.trans (Nat.zero_add _)
  have valid := counts.valid.trans (Nat.zero_add _)
  have found := counts.found.trans (Nat.zero_add _)
  have trims := counts.trims.trans (Nat.zero_add _)
  have heard := counts.heard
  have once := counts.once
  have records := countP_isValid_le operations
  have search : (Session.new address map settings).correlator =
      correlatorFor address settings := correlator_of_run (Session.run_nil _)
  rw [search] at heard
  refine ⟨captures, valid, found, trims, ⟨by omega, by omega, by omega⟩, by omega, ?_,
    fun never => losses_of_never never reached, ?_⟩
  · intro few
    have spent := (paid_of_run reached (by omega)).losses
    rw [settings_of_run reached] at spent
    omega
  · intro operation next answer other done
    exact (perform_of_not_record other done).1

/-- A packet, a record on no channel, and two misses that lose the piconet. -/
theorem stats_are_those_of_the_run_lost :
    let start := Session.new (.ofNat 0x9e8b33) none { lostAfter := 2 }
    let operations : List Operation := [.process inquiryRecord,
      .process { inquiryRecord with channel := 79 }, .process (quietRecord 200000),
      .process (quietRecord 300000), .drain]
    ∃ session answers, start.run operations = .ok (session, answers) ∧
      session.stats.captures = 4 ∧ session.stats.valid = 3 ∧ session.stats.found = 1 ∧
      session.stats.trims = 1 ∧ session.stats.losses = 1 ∧
      session.stats.losses * 2 ≤ session.stats.valid - session.stats.found := by
  intro start operations
  obtain ⟨valid, heard⟩ := @hears_inquiryRecord start rfl rfl 100000
  have trims : start.loop.observe (Clock.slotPhase 100000 16) (Clock.native 3 100000 16) =
      .ok (start.loop.trimmed 3145758, .trim 160 none) := by
    decide +kernel
  have found := process_of_trimmed valid heard
    ((trim_eq_ok_iff _).2 (.inr ⟨rfl, _, _, trims, rfl, rfl⟩))
  have first : start.run [.process inquiryRecord] = .ok (_, _) :=
    run_cons_eq_ok_iff.2 ⟨_, _, _, perform_process_eq_ok_iff.2 ⟨_, found, rfl⟩, rfl, rfl⟩
  have second := run_concat_eq_ok_iff.2 ⟨_, _, _, first,
    perform_process_eq_ok_iff.2 ⟨_, process_of_rejected _
      (by decide : { inquiryRecord with channel := 79 }.isBasicRate = false), rfl⟩, rfl⟩
  have quiet {former : List Operation} {session : Session} {answers : List Answer}
      (reached : start.run former = .ok (session, answers)) (counter : UInt32) :
      start.run (former ++ [.process (quietRecord counter)]) =
        .ok ((session.counted.note (quietRecord counter)).1.miss, answers ++ [.packet none]) := by
    have miss := isMiss_quietRecord counter { lostAfter := 2 } rfl
    rw [← correlator_of_run reached] at miss
    exact run_concat_eq_ok_iff.2 ⟨session, answers, _, reached,
      perform_process_eq_ok_iff.2 ⟨none, process_of_miss miss, rfl⟩, rfl⟩
  have fourth := quiet (quiet second 200000) 300000
  have fifth := run_concat_eq_ok_iff.2 ⟨_, _, _, fourth, (rfl : perform _ .drain = _), rfl⟩
  obtain ⟨captures, basic, packets, moved, -, -, paid, -⟩ := stats_are_those_of_the_run fifth
  refine ⟨_, _, fifth, captures, basic.trans (by decide), packets, moved, ?_,
    paid (by rw [captures]; decide)⟩
  clear paid moved packets basic captures fifth fourth quiet second first found trims heard valid
  subst operations start
  decide +kernel

end Session

end Piconet
