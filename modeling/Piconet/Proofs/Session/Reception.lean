import Piconet.Proofs.Coding.CodeWord
import Piconet.Proofs.Correlation
import Piconet.Proofs.Session.Step

/-!
# What a session reports of a record

A session reports a packet exactly for the basic-rate records in which some
window of symbols is near enough to the sync word of its master.  Everything
that the packet says follows from the record, the first such window, the
settings and the trim loop; nothing else that the session has seen has a part
in it.
-/

namespace Piconet

/-- The places where a record has a whole window within some distance of a sync word. -/
def Capture.windows (capture : Capture) (word : SyncWord) (tolerance : Nat) : Set Nat :=
  {offset | offset + 64 ≤ 400 ∧
    word.distanceAt (capture.symbols.map Symbols.bit) offset < tolerance}

/--
What a packet says of the record it was heard in, and of the trim loop, which
went from one state to another on the way.
-/
structure Packet.Reports (packet : Packet) (capture : Capture) (address : Address)
    (settings : Settings) (before after : TrimLoop) : Prop where
  channel : packet.channel = capture.channel
  lap : packet.lap.toNat = address.lap.toNat
  first : IsLeast (capture.windows address.syncWord settings.tolerance) packet.found.offset
  fits : packet.found.offset ≤ 336
  errors : packet.found.errors =
    address.syncWord.distanceAt (capture.symbols.map Symbols.bit) packet.found.offset
  symbols : packet.symbols = capture.symbols.drop packet.found.offset
  length : packet.symbols.length = 400 - packet.found.offset
  nativeClock : packet.nativeClock =
    Clock.native capture.clockHigh capture.counter packet.found.offset
  masterClock : packet.masterClock.toNat =
    (packet.nativeClock.toNat + (settings.clockOffset.getD 0).toNat) % 2 ^ 28
  phase : packet.phase = Clock.slotPhase capture.counter packet.found.offset
  /-- Where the trim loop runs, it decides for the phase and the native clock of the packet. -/
  decided : settings.trims = true → ∃ decision,
    before.observe packet.phase packet.nativeClock = .ok (after, decision) ∧
      packet.trim = some decision
  idle : settings.trims = false → packet.trim = none ∧ after = before
  commands : packet.commands = match packet.trim with
    | some (.trim offset none) => [.trimClock offset]
    | some (.trim offset (some rate)) => [.trimClock offset, .correctDrift rate]
    | some .stable | some (.pending _) | none => []

/-! ## The record -/

/-- A master's clock counts modulo the 28 valid bits. -/
theorem Clock.toNat_master (native ahead : UInt32) :
    (Clock.master native ahead).toNat = (native.toNat + ahead.toNat) % 2 ^ 28 := by
  have valid : Clock.mask.toNat = 2 ^ 28 - 1 := rfl
  rw [Clock.master, UInt32.toNat_and, UInt32.toNat_add, valid, Nat.and_two_pow_sub_one_eq_mod]
  exact Nat.mod_mod_of_dvd _ (by decide)

namespace Capture

theorem isBasicRate_iff (capture : Capture) :
    capture.isBasicRate = true ↔
      capture.kind = .basicRate ∧ capture.status &&& 0x20 = 0 ∧ capture.channel.toNat < 79 := by
  simp only [isBasicRate, isDiscarded, discardFlag, Bool.and_eq_true, beq_iff_eq,
    Bool.not_eq_true', bne_eq_false_iff_eq, decide_eq_true_eq, and_assoc]
  rfl

theorem mem_windows_iff (capture : Capture) (correlator : Correlator) (offset : Nat) :
    offset ∈ capture.windows correlator.syncWord correlator.tolerance ↔
      correlator.Accepts (capture.symbols.map Symbols.bit) offset := by
  rw [Correlator.Accepts, List.length_map, length_symbols]
  rfl

theorem find?_eq_some_iff (capture : Capture) (correlator : Correlator) (found : AccessCode) :
    correlator.find? capture.symbols = some found ↔
      IsLeast (capture.windows correlator.syncWord correlator.tolerance) found.offset ∧
        found.errors =
          correlator.syncWord.distanceAt (capture.symbols.map Symbols.bit) found.offset := by
  have same : capture.windows correlator.syncWord correlator.tolerance =
      {offset | correlator.Accepts (capture.symbols.map Symbols.bit) offset} :=
    Set.ext fun offset => capture.mem_windows_iff correlator offset
  rw [Correlator.find?, Correlator.searchBits_eq_some_iff, same]

theorem find?_eq_none_iff (capture : Capture) (correlator : Correlator) :
    correlator.find? capture.symbols = none ↔
      ∀ offset, offset ∉ capture.windows correlator.syncWord correlator.tolerance := by
  rw [Correlator.find?, Correlator.searchBits_eq_none_iff]
  simp only [mem_windows_iff]

end Capture

namespace Session

/-! ## The packet -/

/-- The packet of an access code says what it should, whatever the trim loop decides. -/
theorem packetFor_reports {session next : Session} {capture : Capture} {found : AccessCode}
    {action : Option TrimDecision}
    (heard : session.correlator.find? capture.symbols = some found)
    (trimmed : session.trimFor capture found = .ok (next, action)) :
    (session.packetFor capture found action).Reports capture session.address
      session.settings session.loop next.loop := by
  obtain ⟨first, errors⟩ := (capture.find?_eq_some_iff _ found).1 heard
  have fits : found.offset ≤ 336 := by
    have inside : found.offset + 64 ≤ 400 := first.1.1
    omega
  have trims := (session.counted.note capture).1.credited.trim_eq_ok_iff.1 trimmed
  exact {
    channel := rfl
    lap := by
      change (UInt32.ofNat (SyncWord.ofLap session.address.lap).lap.toNat).toNat = _
      rw [SyncWord.lap_ofLap, UInt32.toNat_ofNat_of_lt']
      exact Nat.lt_trans session.address.lap.isLt (by decide)
    first
    fits
    errors
    symbols := rfl
    length := by
      change (capture.symbols.drop found.offset).length = _
      rw [List.length_drop, Capture.length_symbols]
      rfl
    nativeClock := rfl
    masterClock := Clock.toNat_master _ _
    phase := rfl
    decided := by
      intro runs
      obtain ⟨off, -⟩ | ⟨-, loop, decision, observed, rfl, rfl⟩ := trims
      · exact absurd (off.symm.trans runs) Bool.false_ne_true
      · exact ⟨decision, observed, rfl⟩
    idle := by
      intro off
      obtain ⟨-, rfl, rfl⟩ | ⟨runs, -⟩ := trims
      · exact ⟨rfl, rfl⟩
      · exact absurd (off.symm.trans runs) Bool.false_ne_true
    commands := by
      change trimCommands action = _
      cases action with
      | none => rfl
      | some decision =>
          cases decision with
          | stable => rfl
          | pending count => rfl
          | trim offset drift =>
              cases drift with
              | none => rfl
              | some rate => rfl }

/-- Where the trim loop does not run or stays within its words, its step comes to an end. -/
theorem exists_trimFor (session : Session) {capture : Capture} {found : AccessCode}
    (settles : session.settings.trims = true → ∃ outcome,
      session.loop.observe (Clock.slotPhase capture.counter found.offset)
        (Clock.native capture.clockHigh capture.counter found.offset) = .ok outcome) :
    ∃ next action, session.trimFor capture found = .ok (next, action) := by
  cases runs : session.settings.trims with
  | false => exact ⟨_, none, (trim_eq_ok_iff _).2 (.inl ⟨runs, rfl, rfl⟩)⟩
  | true =>
      obtain ⟨⟨loop, decision⟩, observed⟩ := settles runs
      exact ⟨_, some decision,
        (trim_eq_ok_iff _).2 (.inr ⟨runs, loop, decision, observed, rfl, rfl⟩)⟩

/--
A session answers every record for which the trim loop stays within its words.
It reports a packet exactly for a basic-rate record, not discarded and on one of
the 79 channels, that has a window near enough to the sync word of the master;
and the packet says of the record and of the trim loop what it should.
-/
theorem process_reports_first_window {address : Address} {map : Option ChannelMap}
    {settings : Settings} {operations : List Operation} {session : Session}
    {answers : List Answer}
    (reached : (Session.new address map settings).run operations = .ok (session, answers))
    (capture : Capture)
    (settles : settings.trims = true →
      ∀ offset, IsLeast (capture.windows address.syncWord settings.tolerance) offset →
        ∃ outcome, session.loop.observe (Clock.slotPhase capture.counter offset)
          (Clock.native capture.clockHigh capture.counter offset) = .ok outcome) :
    ∃ next result, session.process capture = .ok (next, result) ∧
      (result.isSome = true ↔
        (capture.kind = .basicRate ∧ capture.status &&& 0x20 = 0 ∧
          capture.channel.toNat < 79) ∧
        ∃ offset, offset ∈ capture.windows address.syncWord settings.tolerance) ∧
      ∀ packet, result = some packet →
        packet.Reports capture address settings session.loop next.loop := by
  obtain rfl := settings_of_run reached
  obtain rfl := address_of_run reached
  rw [← capture.isBasicRate_iff]
  cases valid : capture.isBasicRate with
  | false =>
      refine ⟨_, none, session.process_of_rejected valid, ?_, ?_⟩
      · simp
      · rintro packet ⟨⟩
  | true =>
      cases heard : session.correlator.find? capture.symbols with
      | none =>
          have missing := (capture.find?_eq_none_iff _).1 heard
          refine ⟨_, none, session.process_of_missed valid heard, ?_, ?_⟩
          · constructor
            · intro impossible
              cases impossible
            · rintro ⟨-, offset, inside⟩
              exact absurd inside (missing offset)
          · rintro packet ⟨⟩
      | some found =>
          have first := ((capture.find?_eq_some_iff _ found).1 heard).1
          obtain ⟨next, action, trimmed⟩ :=
            session.exists_trimFor fun runs => settles runs found.offset first
          refine ⟨next, _, process_of_trimmed valid heard trimmed, ?_, ?_⟩
          · exact iff_of_true rfl ⟨rfl, found.offset, first.1⟩
          · intro packet same
            cases same
            exact packetFor_reports heard trimmed

def inquiryRecord : Capture where
  kind := .basicRate
  status := 0
  channel := 39
  clockHigh := 3
  counter := 100000
  peak := 10
  floor := -40
  average := -30
  readings := 20
  data := ⟨#[0, 0, 0x47, 0x5c, 0x58, 0xcc, 0x73, 0x34, 0x5e, 0x72] ++ Array.replicate 40 0, rfl⟩

theorem find?_inquiryRecord :
    (Session.new (.ofNat 0x9e8b33) none {}).correlator.find? inquiryRecord.symbols =
      some { offset := 16, errors := 0 } := by
  decide +kernel

/-- The inquiry is heard at any time by a session that looks for it. -/
theorem hears_inquiryRecord {session : Session} (follows : session.address = .ofNat 0x9e8b33)
    (usual : session.settings.tolerance = Correlator.defaultTolerance) (counter : UInt32) :
    { inquiryRecord with counter }.isBasicRate = true ∧
      session.correlator.find? { inquiryRecord with counter }.symbols =
        some { offset := 16, errors := 0 } := by
  constructor
  · exact (Capture.isBasicRate_iff _).2 ⟨rfl, (by decide : (0 : UInt8) &&& 0x20 = 0),
      (by decide : (39 : UInt8).toNat < 79)⟩
  · rw [correlator, follows, usual]
    exact find?_inquiryRecord

/-- The inquiry is answered once the trim loop is through with it, whatever the clock shows. -/
theorem process_inquiryRecord {session next : Session}
    (follows : session.address = .ofNat 0x9e8b33)
    (usual : session.settings.tolerance = Correlator.defaultTolerance) (clockHigh : UInt8)
    (counter : UInt32) {action : Option TrimDecision}
    (trimmed : session.trimFor { inquiryRecord with clockHigh, counter }
      { offset := 16, errors := 0 } = .ok (next, action)) :
    session.process { inquiryRecord with clockHigh, counter } =
      .ok (next, some (session.packetFor { inquiryRecord with clockHigh, counter }
        { offset := 16, errors := 0 } action)) := by
  obtain ⟨basic, found⟩ := hears_inquiryRecord follows usual counter
  have valid : { inquiryRecord with clockHigh, counter }.isBasicRate = true := basic
  exact process_of_trimmed valid found trimmed

theorem process_reports_first_window_inquiry :
    ∃ next packet,
      (Session.new (.ofNat 0x9e8b33) none {}).process inquiryRecord = .ok (next, some packet) ∧
        packet.Reports inquiryRecord (.ofNat 0x9e8b33) {}
          (Session.new (.ofNat 0x9e8b33) none {}).loop next.loop := by
  have first : IsLeast (inquiryRecord.windows (Address.ofNat 0x9e8b33).syncWord 2) 16 :=
    ((inquiryRecord.find?_eq_some_iff _ _).1 find?_inquiryRecord).1
  obtain ⟨next, result, done, reports, describes⟩ :=
    process_reports_first_window (run_nil (.new (.ofNat 0x9e8b33) none {})) inquiryRecord
      (by
        intro _ offset least
        cases least.unique first
        exact ⟨_, rfl⟩)
  obtain ⟨packet, rfl⟩ := Option.isSome_iff_exists.1 (reports.2 ⟨by decide, 16, first.1⟩)
  exact ⟨next, packet, done, describes packet rfl⟩

end Session

end Piconet
