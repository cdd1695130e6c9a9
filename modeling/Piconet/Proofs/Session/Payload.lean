import Piconet.Proofs.Session.Reception
import Piconet.Proofs.Whitening.Stretch

/-!
# The payload of a packet

Header and payload follow the access code after a trailer of four symbols, and
the sender has whitened them by the clock of the master.  A packet is read with
the same clock and from the same symbol on, so that whatever payload was sent
comes out in front.  An access code that ends close to the end of its record
leaves nothing behind the trailer, and nothing is read beyond this end.
-/

namespace Piconet

def WordFault.suffix (symbols : List UInt8) (place : Nat) : Except WordFault (List UInt8) :=
  if place ≤ symbols.length then .ok (symbols.drop place) else .error .outOfRange

namespace Packet

/--
What stands behind the access code and its trailer, cut out of the record and
dewhitened with every step checked.
-/
def bodyWords (packet : Packet) (capture : Capture) : Except WordFault (List UInt8) := do
  let heard ← WordFault.suffix capture.symbols packet.found.offset
  let body ← WordFault.suffix heard (min headerStart heard.length)
  let place ← Whitening.startWord packet.masterClock
  Whitening.addWords place body

/-- What the dewhitened symbols of a packet have to do with the record it was heard in. -/
structure Opens (packet : Packet) (capture : Capture) (settings : Settings) : Prop where
  /-- The master's clock at the access code, from the native one and what is known of its lead. -/
  clock : packet.masterClock.toNat =
    ((Clock.native capture.clockHigh capture.counter packet.found.offset).toNat +
      (settings.clockOffset.getD 0).toNat) % 2 ^ 28
  fits : packet.found.offset ≤ 336
  length : packet.dewhitened.length = 400 - packet.found.offset - 68
  /-- A payload stands in front exactly if its whitened form follows the trailer. -/
  payload : ∀ payload, ∃ sent, Whitening.whiten payload packet.masterClock 0 = .ok sent ∧
    (sent <+: capture.symbols.drop (packet.found.offset + 68) ↔ payload <+: packet.dewhitened)
  late : 332 < packet.found.offset → packet.dewhitened = []
  inside : packet.bodyWords capture = .ok packet.dewhitened

theorem bodyWords_eq_ok {packet : Packet} {capture : Capture}
    (fits : packet.found.offset ≤ 400)
    (symbols : packet.symbols = capture.symbols.drop packet.found.offset) :
    packet.bodyWords capture = .ok packet.dewhitened := by
  have heard : WordFault.suffix capture.symbols packet.found.offset = .ok packet.symbols := by
    rw [WordFault.suffix, if_pos (by rw [Capture.length_symbols]; exact fits), symbols]
  have body : WordFault.suffix packet.symbols (min headerStart packet.symbols.length) =
      .ok (packet.symbols.drop headerStart) := by
    rw [WordFault.suffix, if_pos (Nat.min_le_right _ _)]
    refine congrArg Except.ok (List.drop_eq_drop_iff.2 ?_)
    omega
  rw [bodyWords, heard]
  change (WordFault.suffix _ _ >>= _) = _
  rw [body]
  change (Whitening.startWord _ >>= _) = _
  rw [Whitening.startWord_eq_ok]
  exact Whitening.addWords_eq_ok _ _

/-- What is read of a record can be opened. -/
theorem Reports.opens {packet : Packet} {capture : Capture} {address : Address}
    {settings : Settings} {before after : TrimLoop}
    (reports : packet.Reports capture address settings before after) :
    packet.Opens capture settings where
  clock := reports.nativeClock ▸ reports.masterClock
  fits := reports.fits
  length := by
    rw [length_dewhitened, reports.length]
    rfl
  payload payload := by
    refine ⟨_, Whitening.whiten_zero payload packet.masterClock, ?_⟩
    rw [Whitening.addFrom_isPrefix_iff, dewhitened, reports.symbols, List.drop_drop]
    rfl
  late beyond := by
    apply List.eq_nil_of_length_eq_zero
    rw [length_dewhitened, reports.length, headerStart]
    omega
  inside := bodyWords_eq_ok (Nat.le_trans reports.fits (by decide)) reports.symbols

end Packet

namespace Session

/--
A basic-rate record in which the access code is found gives a packet, unless the
trim loop overflows.  What the packet shows of its dewhitened symbols begins with
a payload exactly if the record has this payload, whitened by the clock of the
master, behind the access code and its trailer.  The rest of the record is all
that is shown, and nothing outside of it or of the tables is looked at.
-/
theorem dewhitened_begins_with_payload (session : Session) {capture : Capture}
    {found : AccessCode} (valid : capture.isBasicRate = true)
    (heard : session.correlator.find? capture.symbols = some found) :
    ((session.settings.trims = true → ∃ outcome,
        session.loop.observe (Clock.slotPhase capture.counter found.offset)
          (Clock.native capture.clockHigh capture.counter found.offset) = .ok outcome) →
      ∃ next packet, session.process capture = .ok (next, some packet)) ∧
    ∀ next result, session.process capture = .ok (next, result) →
      ∃ packet, result = some packet ∧ packet.found = found ∧
        packet.Opens capture session.settings := by
  constructor
  · intro settles
    obtain ⟨next, action, trimmed⟩ := session.exists_trimFor settles
    exact ⟨next, _, process_of_trimmed valid heard trimmed⟩
  · intro next result done
    obtain ⟨rejected, -⟩ | ⟨-, missed, -⟩ | ⟨-, other, action, again, trimmed, rfl⟩ :=
      session.process_cases done
    · exact absurd (rejected.symm.trans valid) Bool.false_ne_true
    · cases missed.symm.trans heard
    · cases again.symm.trans heard
      exact ⟨_, rfl, rfl, (packetFor_reports heard trimmed).opens⟩

def spokenRecord : Capture where
  kind := .basicRate
  status := 0
  channel := 39
  clockHigh := 3
  counter := 100000
  peak := 10
  floor := -40
  average := -30
  readings := 20
  data := ⟨#[0, 0, 0x47, 0x5c, 0x58, 0xcc, 0x73, 0x34, 0x5e, 0x72, 0xa5, 0xc2] ++
    Array.replicate 38 0, rfl⟩

/-- The payload is read with the clock of a master that is ahead of the native clock. -/
theorem dewhitened_begins_with_payload_ahead :
    let session := Session.new (.ofNat 0x9e8b33) none { clockOffset := some 0x100 }
    session.correlator.find? spokenRecord.symbols = some { offset := 16, errors := 0 } ∧
      Whitening.whiten [1, 1, 0, 1, 0, 0, 1, 0, 1, 1, 1, 0] 3146014 0 =
        .ok [0, 1, 0, 1, 1, 1, 0, 0, 0, 0, 1, 0] ∧
      ∃ next packet, session.process spokenRecord = .ok (next, some packet) ∧
        packet.masterClock.toNat = 3145758 + 0x100 ∧ packet.dewhitened.length = 316 ∧
        [1, 1, 0, 1, 0, 0, 1, 0, 1, 1, 1, 0] <+: packet.dewhitened := by
  intro session
  have valid : spokenRecord.isBasicRate = true := by decide
  have heard : session.correlator.find? spokenRecord.symbols =
      some { offset := 16, errors := 0 } := by
    decide +kernel
  obtain ⟨answers, describes⟩ := dewhitened_begins_with_payload session valid heard
  obtain ⟨next, packet, done⟩ := answers fun _ =>
    ⟨session.loop.trim 160 3145758, by decide +kernel⟩
  obtain ⟨same, equal, found, opens⟩ := describes next _ done
  cases equal
  have clock : packet.masterClock.toNat = 3145758 + 0x100 := by
    rw [opens.clock, found]
    rfl
  have word : packet.masterClock = 3146014 := UInt32.toNat_inj.1 clock
  obtain ⟨sent, whitened, begins⟩ := opens.payload [1, 1, 0, 1, 0, 0, 1, 0, 1, 1, 1, 0]
  rw [word] at whitened
  cases whitened
  refine ⟨heard, rfl, next, packet, done, clock, ?_, begins.1 ?_⟩
  · rw [opens.length, found]
    rfl
  · rw [found]
    decide

end Session

end Piconet
