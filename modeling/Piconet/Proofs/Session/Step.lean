import Piconet.Session.Operation

/-!
# What one operation on a session does

A record is rejected, or it is noted and holds no access code, or it is noted
and heard.  Each case has an equation, and whatever the arithmetic of the trim
loop lets through is one of the three.  No operation changes the settings of a
session or the address that it follows.
-/

namespace Piconet

namespace Session

/-! ## One record -/

def counted (session : Session) : Session :=
  { session with stats := { session.stats with captures := session.stats.captures + 1 } }

def credited (session : Session) : Session :=
  { session with
    stats := { session.stats with found := session.stats.found + 1 }
    misses := 0 }

def trimFor (session : Session) (capture : Capture) (found : AccessCode) :
    Except Overflow (Session × Option TrimDecision) :=
  (session.counted.note capture).1.credited.trim
    (Clock.slotPhase capture.counter found.offset)
    (Clock.native capture.clockHigh capture.counter found.offset)

def packetFor (session : Session) (capture : Capture) (found : AccessCode)
    (action : Option TrimDecision) : Packet where
  channel := capture.channel
  lap := UInt32.ofNat session.correlator.syncWord.lap.toNat
  found
  nativeClock := Clock.native capture.clockHigh capture.counter found.offset
  masterClock :=
    session.masterClock (Clock.native capture.clockHigh capture.counter found.offset)
  phase := Clock.slotPhase capture.counter found.offset
  time := session.rollover.timeOf capture.counter
  level := (session.note capture).2
  trim := action
  commands := trimCommands action
  symbols := capture.symbols.drop found.offset

def adjusted (session : Session) (loop : TrimLoop) (decision : TrimDecision) : Session :=
  { session with
    loop
    stats := { session.stats with trims := session.stats.trims + decision.isTrim.toNat } }

/--
Where the trim loop runs, one observation of it is made; where it does not,
nothing happens.
-/
theorem trim_eq_ok_iff (session : Session) {phase clock : UInt32} {next : Session}
    {action : Option TrimDecision} :
    session.trim phase clock = .ok (next, action) ↔
      (session.settings.trims = false ∧ next = session ∧ action = none) ∨
      (session.settings.trims = true ∧ ∃ loop decision,
        session.loop.observe phase clock = .ok (loop, decision) ∧
          next = session.adjusted loop decision ∧ action = some decision) := by
  cases runs : session.settings.trims with
  | false =>
      simp only [trim, runs, Bool.false_eq_true, if_false, false_and, or_false, true_and]
      constructor
      · intro done
        cases done
        exact ⟨rfl, rfl⟩
      · rintro ⟨rfl, rfl⟩
        rfl
  | true =>
      simp only [trim, runs, if_true, Bool.true_eq_false, false_and, false_or, true_and]
      rw [Overflow.bind_eq_ok_iff]
      constructor
      · rintro ⟨⟨loop, decision⟩, observed, done⟩
        cases done
        exact ⟨loop, decision, observed, rfl, rfl⟩
      · rintro ⟨loop, decision, observed, rfl, rfl⟩
        exact ⟨(loop, decision), observed, rfl⟩

theorem process_of_rejected (session : Session) {capture : Capture}
    (rejected : capture.isBasicRate = false) :
    session.process capture = .ok (session.counted, none) := by
  simp only [process, rejected]
  rfl

theorem process_of_missed (session : Session) {capture : Capture}
    (valid : capture.isBasicRate = true)
    (missed : session.correlator.find? capture.symbols = none) :
    session.process capture = .ok ((session.counted.note capture).1.miss, none) := by
  have same : (session.counted.note capture).1.correlator.find? capture.symbols = none := missed
  simp only [counted] at same
  simp only [process, valid, if_true]
  rw [same]
  rfl

theorem process_of_found (session : Session) {capture : Capture}
    (valid : capture.isBasicRate = true) {found : AccessCode}
    (heard : session.correlator.find? capture.symbols = some found) :
    session.process capture = do
      let (trimmed, action) ← session.trimFor capture found
      return (trimmed, some (session.packetFor capture found action)) := by
  have same : (session.counted.note capture).1.correlator.find? capture.symbols = some found :=
    heard
  simp only [counted] at same
  simp only [process, valid, if_true]
  rw [same]
  change ((session.counted.note capture).1.hear capture (session.counted.note capture).2 found >>=
    fun answer => pure (answer.1, some answer.2)) = _
  rw [hear, bind_assoc]
  rfl

theorem process_of_trimmed {session next : Session} {capture : Capture}
    (valid : capture.isBasicRate = true) {found : AccessCode}
    (heard : session.correlator.find? capture.symbols = some found)
    {action : Option TrimDecision}
    (trimmed : session.trimFor capture found = .ok (next, action)) :
    session.process capture = .ok (next, some (session.packetFor capture found action)) := by
  rw [session.process_of_found valid heard, trimmed]
  rfl

/-- A record that the trim loop lets through was rejected, missed or heard. -/
theorem process_cases (session : Session) {capture : Capture} {next : Session}
    {result : Option Packet} (done : session.process capture = .ok (next, result)) :
    (capture.isBasicRate = false ∧ next = session.counted ∧ result = none) ∨
    (capture.isBasicRate = true ∧ session.correlator.find? capture.symbols = none ∧
      next = (session.counted.note capture).1.miss ∧ result = none) ∨
    (capture.isBasicRate = true ∧ ∃ found action,
      session.correlator.find? capture.symbols = some found ∧
        session.trimFor capture found = .ok (next, action) ∧
        result = some (session.packetFor capture found action)) := by
  cases valid : capture.isBasicRate with
  | false =>
      rw [session.process_of_rejected valid] at done
      cases done
      exact .inl ⟨rfl, rfl, rfl⟩
  | true =>
      cases heard : session.correlator.find? capture.symbols with
      | none =>
          rw [session.process_of_missed valid heard] at done
          cases done
          exact .inr (.inl ⟨rfl, rfl, rfl, rfl⟩)
      | some found =>
          rw [session.process_of_found valid heard, Overflow.bind_eq_ok_iff] at done
          obtain ⟨⟨trimmed, action⟩, trimmedOk, reported⟩ := done
          cases reported
          exact .inr (.inr ⟨rfl, found, action, rfl, trimmedOk, rfl⟩)

/-- A packet comes of an access code that the trim loop has been told of. -/
theorem trimFor_of_packet {session next : Session} {capture : Capture} {packet : Packet}
    (done : session.process capture = .ok (next, some packet)) :
    ∃ found action, session.trimFor capture found = .ok (next, action) ∧
      packet = session.packetFor capture found action := by
  obtain ⟨-, -, impossible⟩ | ⟨-, -, -, impossible⟩ | ⟨-, found, action, -, trimmed, same⟩ :=
    session.process_cases done
  · cases impossible
  · cases impossible
  · exact ⟨found, action, trimmed, Option.some.inj same⟩

/-! ## The piconet that is followed -/

/-- Another session with the same settings that follows the same master. -/
structure FollowsSame (before after : Session) : Prop where
  settings : after.settings = before.settings
  address : after.address = before.address

theorem FollowsSame.refl (session : Session) : FollowsSame session session :=
  ⟨rfl, rfl⟩

theorem FollowsSame.trans {first second third : Session} (left : FollowsSame first second)
    (right : FollowsSame second third) : FollowsSame first third :=
  ⟨right.settings.trans left.settings, right.address.trans left.address⟩

theorem noted_followsSame (session : Session) (capture : Capture) :
    FollowsSame session (session.counted.note capture).1 :=
  ⟨rfl, rfl⟩

theorem credited_followsSame (session : Session) : FollowsSame session session.credited :=
  ⟨rfl, rfl⟩

theorem miss_followsSame (session : Session) : FollowsSame session session.miss := by
  unfold miss
  dsimp only
  split
  · exact ⟨rfl, rfl⟩
  · exact ⟨rfl, rfl⟩

theorem trim_followsSame {session next : Session} {phase clock : UInt32}
    {action : Option TrimDecision} (done : session.trim phase clock = .ok (next, action)) :
    FollowsSame session next := by
  obtain ⟨-, rfl, -⟩ | ⟨-, loop, decision, -, rfl, -⟩ := session.trim_eq_ok_iff.1 done
  · exact .refl _
  · exact ⟨rfl, rfl⟩

theorem process_followsSame {session next : Session} {capture : Capture}
    {result : Option Packet} (done : session.process capture = .ok (next, result)) :
    FollowsSame session next := by
  obtain ⟨-, rfl, -⟩ | ⟨-, -, rfl, -⟩ | ⟨-, found, action, -, trimmed, -⟩ :=
    session.process_cases done
  · exact ⟨rfl, rfl⟩
  · exact (noted_followsSame session capture).trans (miss_followsSame _)
  · have credited := (noted_followsSame session capture).trans (credited_followsSame _)
    exact credited.trans (trim_followsSame trimmed)

theorem setMap_followsSame (session : Session) (map : ChannelMap) :
    FollowsSame session (session.setMap map).1 :=
  ⟨rfl, session.sequence.address_setMap map⟩

/-- No operation changes the settings or the master that is followed. -/
theorem perform_followsSame {session next : Session} {operation : Operation} {answer : Answer}
    (done : session.perform operation = .ok (next, answer)) : FollowsSame session next := by
  cases operation with
  | process capture =>
      rw [perform, Overflow.bind_eq_ok_iff] at done
      obtain ⟨⟨processed, result⟩, step, same⟩ := done
      cases same
      exact process_followsSame step
  | drain =>
      cases done
      exact ⟨rfl, rfl⟩
  | hop clock =>
      cases done
      exact .refl _
  | start native =>
      cases done
      exact .refl _
  | setMap map =>
      have same := session.setMap_followsSame map
      rw [perform] at done
      cases outcome : session.setMap map with
      | mk changed reply =>
          rw [outcome] at done same
          cases reply with
          | ok command =>
              cases done
              exact same
          | error refusal =>
              cases done
              exact same
  | clearMap =>
      cases done
      exact ⟨rfl, rfl⟩
  | resetTrim =>
      cases done
      exact ⟨rfl, rfl⟩

/-! ## Changes that have no part in what is made of a record -/

theorem trim_eq (session : Session) (phase clock : UInt32) :
    session.trim phase clock =
      if session.settings.trims = true then
        (session.loop.observe phase clock).map fun outcome =>
          (session.adjusted outcome.1 outcome.2, some outcome.2)
      else .ok (session, none) := by
  cases runs : session.settings.trims with
  | false =>
      rw [trim, runs]
      rfl
  | true =>
      rw [trim, runs]
      cases session.loop.observe phase clock with
      | error overflow => rfl
      | ok outcome => rfl

def missedOnce (session : Session) : Session :=
  { session with misses := session.misses + 1 }

theorem miss_eq (session : Session) :
    session.miss =
      if session.losesAt (session.misses + 1) = true then session.missedOnce.lose
      else session.missedOnce :=
  rfl

/-- A change of a session that has no part in what is made of a record. -/
structure Inert (change : Session → Session) : Prop where
  settings : ∀ session, (change session).settings = session.settings
  correlator : ∀ session, (change session).correlator = session.correlator
  loop : ∀ session, (change session).loop = session.loop
  rollover : ∀ session, (change session).rollover = session.rollover
  counted : ∀ session, (change session).counted = change session.counted
  note : ∀ session capture,
    (change session).note capture = (change (session.note capture).1, (session.note capture).2)
  miss : ∀ session, (change session).miss = change session.miss
  credited : ∀ session, (change session).credited = change session.credited
  adjusted : ∀ session loop decision,
    (change session).adjusted loop decision = change (session.adjusted loop decision)

namespace Inert

variable {change : Session → Session}

theorem trim (inert : Inert change) (session : Session) (phase clock : UInt32) :
    (change session).trim phase clock =
      (session.trim phase clock).map (Prod.map change id) := by
  rw [trim_eq, trim_eq, inert.settings, inert.loop]
  cases session.settings.trims with
  | false => rfl
  | true =>
      cases session.loop.observe phase clock with
      | error overflow => rfl
      | ok outcome =>
          exact congrArg (fun adjusted => Except.ok (adjusted, some outcome.2))
            (inert.adjusted session outcome.1 outcome.2)

theorem packetFor (inert : Inert change) (session : Session) (capture : Capture)
    (found : AccessCode) (action : Option TrimDecision) :
    (change session).packetFor capture found action = session.packetFor capture found action := by
  rw [Session.packetFor, Session.packetFor, inert.correlator, inert.rollover, inert.note,
    masterClock, masterClock, inert.settings]

theorem process (inert : Inert change) (session : Session) (capture : Capture) :
    (change session).process capture =
      (session.process capture).map (Prod.map change id) := by
  cases valid : capture.isBasicRate with
  | false =>
      rw [process_of_rejected _ valid, process_of_rejected _ valid, inert.counted]
      rfl
  | true =>
      cases heard : session.correlator.find? capture.symbols with
      | none =>
          have missed := heard
          rw [← inert.correlator] at missed
          rw [process_of_missed _ valid missed, process_of_missed _ valid heard, inert.counted,
            inert.note, inert.miss]
          rfl
      | some found =>
          have found := heard
          rw [← inert.correlator] at found
          rw [process_of_found _ valid found, process_of_found _ valid heard, trimFor, trimFor,
            inert.counted, inert.note, inert.credited, inert.trim]
          cases (session.counted.note capture).1.credited.trim _ _ with
          | error overflow => rfl
          | ok outcome =>
              exact congrArg (fun packet => Except.ok (change outcome.1, some packet))
                (inert.packetFor session capture _ outcome.2)

end Inert

/-! ## Changes that operations carry along -/

theorem Inert.perform_process {change : Session → Session} (inert : Inert change)
    (session : Session) (capture : Capture) :
    (change session).perform (.process capture) =
      (session.perform (.process capture)).map (Prod.map change id) := by
  rw [perform, perform, inert.process]
  cases session.process capture with
  | error overflow => rfl
  | ok outcome => rfl

theorem perform_setMap_comm (change : Session → Session) {session : Session} {map : ChannelMap}
    (carried : (change session).setMap map = Prod.map change id (session.setMap map)) :
    (change session).perform (.setMap map) =
      (session.perform (.setMap map)).map (Prod.map change id) := by
  rw [perform, perform, carried]
  cases session.setMap map with
  | mk changed reply =>
      cases reply with
      | error refusal => rfl
      | ok done => rfl

/-! ## Runs -/

theorem run_cons_of_error {session : Session} {operation : Operation} {overflow : Overflow}
    (stopped : session.perform operation = .error overflow) (rest : List Operation) :
    session.run (operation :: rest) = .error overflow := by
  rw [run, stopped]
  rfl

theorem run_cons_of_ok {session next : Session} {operation : Operation} {answer : Answer}
    (performed : session.perform operation = .ok (next, answer)) (rest : List Operation) :
    session.run (operation :: rest) = Prod.map id (answer :: ·) <$> next.run rest := by
  rw [run, performed]
  rfl

/-- A change that every operation carries along is carried along by a run. -/
theorem run_of_perform_comm {change : Session → Session}
    (comm : ∀ session operation, (change session).perform operation =
      (session.perform operation).map (Prod.map change id))
    (session : Session) (operations : List Operation) :
    (change session).run operations = Prod.map change id <$> session.run operations := by
  induction operations generalizing session with
  | nil => rfl
  | cons operation rest ih =>
      have carried := comm session operation
      cases performed : session.perform operation with
      | error overflow =>
          rw [performed] at carried
          rw [run_cons_of_error performed, run_cons_of_error carried]
          rfl
      | ok outcome =>
          rw [performed] at carried
          rw [run_cons_of_ok performed, run_cons_of_ok carried]
          change _ <$> (change outcome.1).run rest = _
          rw [ih, Functor.map_map, Functor.map_map]
          rfl

/-- What every operation preserves holds at the end of a run. -/
theorem run_invariant {Holds : Session → Prop}
    (preserves : ∀ session operation next answer,
      session.perform operation = .ok (next, answer) → Holds session → Holds next)
    {session last : Session} {operations : List Operation} {answers : List Answer}
    (reached : session.run operations = .ok (last, answers)) (start : Holds session) :
    Holds last := by
  induction operations generalizing session answers with
  | nil =>
      cases reached
      exact start
  | cons operation rest ih =>
      rw [run, Overflow.bind_eq_ok_iff] at reached
      obtain ⟨⟨next, answer⟩, first, reached⟩ := reached
      rw [Overflow.bind_eq_ok_iff] at reached
      obtain ⟨⟨finish, later⟩, reached, same⟩ := reached
      cases same
      exact ih reached (preserves session operation next answer first start)

theorem run_followsSame {session last : Session} {operations : List Operation}
    {answers : List Answer} (reached : session.run operations = .ok (last, answers)) :
    FollowsSame session last :=
  run_invariant (fun _ _ _ _ step same => same.trans (perform_followsSame step)) reached (.refl _)

/-- However a session came about, it keeps the settings it was made with. -/
theorem settings_of_run {address : Address} {map : Option ChannelMap} {settings : Settings}
    {session : Session} {operations : List Operation} {answers : List Answer}
    (reached : (Session.new address map settings).run operations = .ok (session, answers)) :
    session.settings = settings :=
  (run_followsSame reached).settings

/-- However a session came about, it follows the master it was made for. -/
theorem address_of_run {address : Address} {map : Option ChannelMap} {settings : Settings}
    {session : Session} {operations : List Operation} {answers : List Answer}
    (reached : (Session.new address map settings).run operations = .ok (session, answers)) :
    session.address = address := by
  rw [(run_followsSame reached).address]
  exact HopSequence.address_new address map

end Session

end Piconet
