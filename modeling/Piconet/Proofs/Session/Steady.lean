import Piconet.Proofs.Session.Step
import Piconet.Proofs.Trim.Error
import Piconet.Proofs.Trim.History

/-!
# Sessions that go on

Whether the arithmetic of the trim loop can overflow is for its tuning to say.
Under a sound one, such as the usual, a session takes every record and is ready
for the next.
-/

namespace Piconet

/-- A tuning under which every phase has an error, and the count stays within its word. -/
structure Tuning.Sound (tuning : Tuning) : Prop where
  low : tuning.threshold.toInt < 2 ^ 31 - 1
  measured : ∀ phase, ∃ error, tuning.error phase = .ok error

/-- The usual target is so near the phases of a slot that no distance leaves its word. -/
theorem Tuning.sound_usual : ({} : Tuning).Sound where
  low := by decide
  measured phase := by
    refine exists_error {} ?_
    have target : ({} : Tuning).target.toInt = 2250 := rfl
    rw [distance, target]
    omega

namespace Session

structure Steady (session : Session) : Prop where
  sound : session.loop.tuning.Sound
  bounded : session.loop.count.toInt.natAbs ≤ max (session.loop.tuning.threshold.toInt + 1) 0

theorem steady_new (address : Address) (map : Option ChannelMap) {settings : Settings}
    (sound : settings.tuning.Sound) : (Session.new address map settings).Steady where
  sound := sound
  bounded := Int.le_max_right _ _

theorem Steady.miss {session : Session} (steady : session.Steady) : session.miss.Steady := by
  rw [miss_eq]
  split
  · exact ⟨steady.sound, Int.le_max_right _ _⟩
  · exact ⟨steady.sound, steady.bounded⟩

theorem Steady.trimFor {session : Session} (steady : session.Steady) (capture : Capture)
    (found : AccessCode) :
    ∃ next action, session.trimFor capture found = .ok (next, action) ∧ next.Steady := by
  cases runs : session.settings.trims with
  | false =>
      exact ⟨_, none, (trim_eq_ok_iff _).2 (.inl ⟨runs, rfl, rfl⟩), steady.sound, steady.bounded⟩
  | true =>
      obtain ⟨error, measured⟩ :=
        steady.sound.measured (Clock.slotPhase capture.counter found.offset)
      obtain ⟨loop, decision, observed⟩ := TrimLoop.exists_observe
        (Clock.native capture.clockHigh capture.counter found.offset) measured
        steady.sound.low steady.bounded
      have kept := TrimLoop.tuning_of_observe observed
      exact ⟨_, some decision, (trim_eq_ok_iff _).2 (.inr ⟨runs, loop, decision, observed, rfl, rfl⟩),
        kept ▸ steady.sound, TrimLoop.natAbs_count_le_of_observe observed⟩

/-- A steady session takes every record, and it stays steady. -/
theorem Steady.process {session : Session} (steady : session.Steady) (capture : Capture) :
    ∃ next packet, session.process capture = .ok (next, packet) ∧ next.Steady := by
  cases valid : capture.isBasicRate with
  | false => exact ⟨_, none, session.process_of_rejected valid, steady.sound, steady.bounded⟩
  | true =>
      cases heard : session.correlator.find? capture.symbols with
      | none =>
          have noted : (session.counted.note capture).1.Steady := ⟨steady.sound, steady.bounded⟩
          exact ⟨_, none, session.process_of_missed valid heard, noted.miss⟩
      | some found =>
          obtain ⟨next, action, trimmed, kept⟩ := steady.trimFor capture found
          exact ⟨next, _, process_of_trimmed valid heard trimmed, kept⟩

end Session

end Piconet
