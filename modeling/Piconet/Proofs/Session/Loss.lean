import Piconet.Proofs.Session.History
import Piconet.Proofs.Trim.Observation

/-!
# Losing the piconet

A session that gives up after a number of misses declares a loss on every
multiple of this number, counted from the latest hit, and at no other time.  A
loss restarts the trim loop, so that the next hit is trimmed by the whole of its
error and without an estimate of the drift.
-/

namespace Piconet.Session

/-- What the loss of the piconet does to a session. -/
structure Loses (before after : Session) : Prop where
  losses : after.stats.losses = before.stats.losses + 1
  uncalibrated : after.loop.calibrated = false
  count : after.loop.count = 0

/-- What a miss leaves alone that is no loss. -/
structure Endures (before after : Session) : Prop where
  losses : after.stats.losses = before.stats.losses
  loop : after.loop = before.loop
  outbox : after.outbox = before.outbox

/-! ## One miss -/

theorem losesAt_iff (session : Session) (misses : UInt32) :
    session.losesAt misses = true ↔
      session.settings.lostAfter ≠ 0 ∧ session.settings.lostAfter.toNat ∣ misses.toNat := by
  rw [losesAt, Bool.and_eq_true, bne_iff_ne, beq_iff_eq, ← UInt32.toNat_inj, UInt32.toNat_mod,
    Nat.dvd_iff_mod_eq_zero]
  rfl

theorem loses_of_losesAt {session : Session} (capture : Capture)
    (lost : session.losesAt (session.misses + 1) = true) :
    Loses session (session.counted.note capture).1.miss := by
  rw [miss_note_eq, if_pos lost]
  exact ⟨rfl, rfl, rfl⟩

theorem endures_of_not_losesAt {session : Session} (capture : Capture)
    (kept : session.losesAt (session.misses + 1) = false) :
    Endures session (session.counted.note capture).1.miss := by
  rw [miss_note_eq, if_neg (Bool.eq_false_iff.1 kept)]
  exact ⟨rfl, rfl, rfl⟩

theorem process_of_miss {session : Session} {capture : Capture}
    (miss : (Operation.process capture).isMiss session.correlator = true) :
    session.process capture = .ok ((session.counted.note capture).1.miss, none) := by
  rw [Operation.isMiss, Bool.and_eq_true, Option.isNone_iff_eq_none] at miss
  exact session.process_of_missed miss.1 miss.2

/-- A packet comes of every hit and of nothing else. -/
theorem isSome_of_process {session next : Session} {capture : Capture} {result : Option Packet}
    (done : session.process capture = .ok (next, result)) :
    result.isSome = (Operation.process capture).isHit session.correlator := by
  rw [Operation.isHit]
  obtain ⟨rejected, -, rfl⟩ | ⟨-, missed, -, rfl⟩ | ⟨valid, found, action, heard, -, rfl⟩ :=
    session.process_cases done
  · rw [rejected]
    rfl
  · rw [missed]
    exact (Bool.and_false _).symm
  · rw [valid, heard]
    rfl

/-- Only a miss can lose the piconet. -/
theorem losses_of_not_miss {session next : Session} {operation : Operation} {answer : Answer}
    (other : operation.isMiss session.correlator = false)
    (done : session.perform operation = .ok (next, answer)) :
    next.stats.losses = session.stats.losses := by
  obtain ⟨capture, -, -, miss, -⟩ | ⟨capture, found, action, -, -, -, trimmed, -⟩ |
    ⟨-, -, aside⟩ := perform_cases done
  · exact absurd (other.symm.trans miss) Bool.false_ne_true
  · exact (heard_of_trimFor trimmed).losses
  · exact aside.losses

/-- An operation that declares a loss was a miss at which the session gives up. -/
theorem loses_of_losses_ne {session next : Session} {operation : Operation} {answer : Answer}
    (done : session.perform operation = .ok (next, answer))
    (declared : next.stats.losses ≠ session.stats.losses) :
    ∃ capture, operation = .process capture ∧ session.losesAt (session.misses + 1) = true ∧
      next = (session.missing capture).lose := by
  obtain ⟨capture, rfl, -, -, rfl, -⟩ | ⟨capture, found, action, -, -, -, trimmed, -⟩ |
    ⟨-, -, aside⟩ := perform_cases done
  · cases lost : session.losesAt (session.misses + 1) with
    | true => exact ⟨capture, rfl, rfl, by rw [miss_note_eq, if_pos lost]⟩
    | false => exact absurd (endures_of_not_losesAt capture lost).losses declared
  · exact absurd (heard_of_trimFor trimmed).losses declared
  · exact absurd aside.losses declared

/-! ## Runs -/

theorem losses_of_never {address : Address} {map : Option ChannelMap} {settings : Settings}
    {session : Session} {operations : List Operation} {answers : List Answer}
    (never : settings.lostAfter = 0)
    (reached : (Session.new address map settings).run operations = .ok (session, answers)) :
    session.stats.losses = 0 := by
  refine run_induction (fun _ session => session.stats.losses = 0) rfl ?_ reached
  intro operations answers middle operation next answer before performed none
  by_contra some
  obtain ⟨-, -, lost, -⟩ := loses_of_losses_ne performed (by omega)
  rw [losesAt_iff, settings_of_run before] at lost
  exact lost.1 never

/-- Without a hit nothing calibrates the trim loop. -/
theorem uncalibrated_of_run {correlator : Correlator} {session last : Session}
    {operations : List Operation} {answers : List Answer}
    (search : session.correlator = correlator) (fresh : session.loop.calibrated = false)
    (unheard : ∀ operation ∈ operations, operation.isHit correlator = false)
    (reached : session.run operations = .ok (last, answers)) : last.loop.calibrated = false := by
  refine run_induction (fun operations last =>
    (∀ operation ∈ operations, operation.isHit correlator = false) →
      last.loop.calibrated = false) (fun _ => fresh) ?_ reached unheard
  intro operations answers middle operation next answer before performed carried unheard
  have former := carried fun other member => unheard other (List.mem_append_left _ member)
  have quiet := unheard operation (List.mem_append_right _ List.mem_cons_self)
  have same : middle.correlator = correlator := (run_followsSame before).correlator.trans search
  obtain ⟨capture, -, -, -, rfl, -⟩ | ⟨capture, found, action, -, hit, -⟩ | ⟨-, -, aside⟩ :=
    perform_cases performed
  · cases lost : middle.losesAt (middle.misses + 1) with
    | true => exact (loses_of_losesAt capture lost).uncalibrated
    | false => rw [(endures_of_not_losesAt capture lost).loop, former]
  · rw [same, quiet] at hit
    exact absurd hit Bool.false_ne_true
  · obtain kept | restarted := aside.loop
    · rw [kept, former]
    · rw [restarted]
      rfl

theorem exists_trim_of_packet {session last : Session} {capture : Capture} {packet : Packet}
    (runs : session.settings.trims = true) (fresh : session.loop.calibrated = false)
    (done : session.process capture = .ok (last, some packet)) :
    ∃ offset, packet.trim = some (.trim offset none) := by
  obtain ⟨found, action, trimmed, rfl⟩ := trimFor_of_packet done
  obtain ⟨off, -⟩ | ⟨-, loop, decision, observed, -, rfl⟩ := (trim_eq_ok_iff _).1 trimmed
  · exact absurd (off.symm.trans runs) Bool.false_ne_true
  · obtain ⟨offset, rfl⟩ := TrimLoop.exists_trim_of_uncalibrated fresh observed
    exact ⟨offset, rfl⟩

/--
In every state that a session can reach, hits are the records that bring a
packet, and a miss loses the piconet exactly when its number since the latest
hit is a multiple of the setting, and changes nothing of the losses, the trim
loop and the commands otherwise.  No other operation loses it, and a setting of
zero never does.  After a loss the first packet is trimmed without an estimate
of the drift.
-/
theorem loses_at_multiples {address : Address} {map : Option ChannelMap} {settings : Settings}
    {operations : List Operation} {session : Session} {answers : List Answer}
    (reached : (Session.new address map settings).run operations = .ok (session, answers)) :
    (∀ capture next result, session.process capture = .ok (next, result) →
      result.isSome = (Operation.process capture).isHit (correlatorFor address settings)) ∧
    (∀ capture, (Operation.process capture).isMiss (correlatorFor address settings) = true →
      missesSinceHit (correlatorFor address settings) operations + 1 < 2 ^ 32 →
      ∃ next, session.process capture = .ok (next, none) ∧
        (settings.lostAfter.toNat ∣
            missesSinceHit (correlatorFor address settings) operations + 1 →
          Loses session next) ∧
        (¬settings.lostAfter.toNat ∣
            missesSinceHit (correlatorFor address settings) operations + 1 →
          Endures session next)) ∧
    (∀ operation next answer, operation.isMiss (correlatorFor address settings) = false →
      session.perform operation = .ok (next, answer) →
        next.stats.losses = session.stats.losses) ∧
    (settings.lostAfter = 0 → session.stats.losses = 0) ∧
    (settings.trims = true → ∀ operation lost answer,
      session.perform operation = .ok (lost, answer) →
      lost.stats.losses = session.stats.losses + 1 →
      ∀ between later replies, lost.run between = .ok (later, replies) →
      (∀ other ∈ between, other.isHit (correlatorFor address settings) = false) →
      ∀ capture last packet, later.process capture = .ok (last, some packet) →
        ∃ offset, packet.trim = some (.trim offset none)) := by
  have search := correlator_of_run reached
  have counted := misses_of_run reached
  have chosen := settings_of_run reached
  rw [← search] at counted ⊢
  refine ⟨fun capture next result done => isSome_of_process done, ?_,
    fun operation next answer other done => losses_of_not_miss other done,
    fun never => losses_of_never never reached, ?_⟩
  · intro capture miss few
    have number : (session.misses + 1).toNat =
        missesSinceHit session.correlator operations + 1 := by
      rw [UInt32.toNat_add, counted]
      change (_ + 1) % 2 ^ 32 = _
      omega
    refine ⟨_, process_of_miss miss, ?_, ?_⟩
    · intro multiple
      refine loses_of_losesAt capture ((session.losesAt_iff _).2 ⟨?_, ?_⟩)
      · rw [chosen]
        intro never
        rw [never] at multiple
        exact absurd (Nat.eq_zero_of_zero_dvd multiple) (Nat.succ_ne_zero _)
      · rw [chosen, number]
        exact multiple
    · intro other
      refine endures_of_not_losesAt capture (Bool.eq_false_iff.2 fun lost => other ?_)
      have multiple := ((session.losesAt_iff _).1 lost).2
      rwa [chosen, number] at multiple
  · intro trims operation lost answer performed declared between later replies continued unheard
      capture last packet heard
    obtain ⟨missed, rfl, -, rfl⟩ := loses_of_losses_ne performed (by omega)
    have follows := perform_followsSame performed
    have onward := run_followsSame continued
    refine exists_trim_of_packet ?_ ?_ heard
    · rw [onward.settings, follows.settings, chosen, trims]
    · exact uncalibrated_of_run follows.correlator rfl unheard continued

def quietRecord (counter : UInt32) : Capture where
  kind := .basicRate
  status := 0
  channel := 12
  clockHigh := 3
  counter
  peak := 10
  floor := -40
  average := -30
  readings := 20
  data := .replicate 50 0

theorem isMiss_quietRecord (counter : UInt32) (settings : Settings)
    (usual : settings.tolerance = Correlator.defaultTolerance) :
    (Operation.process (quietRecord counter)).isMiss
      (correlatorFor (.ofNat 0x9e8b33) settings) = true := by
  have valid : (quietRecord 0).isBasicRate = true := by decide
  have missed : (correlatorFor (.ofNat 0x9e8b33) {}).find? (quietRecord 0).symbols = none := by
    decide +kernel
  rw [correlatorFor, usual]
  exact Bool.and_eq_true_iff.2 ⟨valid, Option.isNone_iff_eq_none.2 missed⟩

/-- The second of two quiet records loses a piconet that two misses lose. -/
theorem loses_at_multiples_second :
    let settings : Settings := { lostAfter := 2 }
    ∃ session answers next,
      (Session.new (.ofNat 0x9e8b33) none settings).run [.process (quietRecord 100000)] =
        .ok (session, answers) ∧
      session.process (quietRecord 200000) = .ok (next, none) ∧
      session.stats.losses = 0 ∧ next.stats.losses = 1 ∧ next.loop.calibrated = false := by
  intro settings
  have miss (counter : UInt32) := isMiss_quietRecord counter settings rfl
  have first := @process_of_miss (.new (.ofNat 0x9e8b33) none settings) _ (miss 100000)
  have reached : (Session.new (.ofNat 0x9e8b33) none settings).run
      [.process (quietRecord 100000)] = .ok (_, _) :=
    run_cons_eq_ok_iff.2 ⟨_, _, _, perform_process_eq_ok_iff.2 ⟨_, first, rfl⟩, rfl, rfl⟩
  have counted : missesSinceHit (correlatorFor (.ofNat 0x9e8b33) settings)
      [.process (quietRecord 100000)] = 1 := by
    rw [← List.nil_append [_], missesSinceHit_of_not_hit [] (isHit_of_isMiss (miss 100000)),
      miss 100000]
    rfl
  obtain ⟨-, misses, -⟩ := loses_at_multiples reached
  obtain ⟨next, done, multiple, -⟩ := misses (quietRecord 200000) (miss 200000)
    (by rw [counted]; decide)
  have lost := multiple (by rw [counted]; decide)
  exact ⟨_, _, next, reached, done, rfl, lost.losses, lost.uncalibrated⟩

end Piconet.Session
