import Piconet.Proofs.Session.Reception
import Piconet.Proofs.Trim.Observation

/-!
# The bits of the clocks in a packet

A clock has 28 valid bits.  The master's clock in a packet always stays within them.
The native clock is put together from the high bits that the radio reports and the
ticks since they were zero, of which there can be more than the twenty bits below
the high ones hold; what is carried out of these is added to the high bits, and may
leave the valid ones.
-/

namespace Piconet

namespace Clock

/-- The whole ticks on the counter at a symbol, once the latency is taken off. -/
def ticksAt (counter : UInt32) (offset : Nat) : Nat :=
  (counter.toNat + 10 * offset + (2 ^ 32 - 4000)) % 2 ^ 32 / 3125

/-- The counter holds more ticks than twenty bits, but not twice as many. -/
theorem ticksAt_le (counter : UInt32) (offset : Nat) : ticksAt counter offset ≤ 1374389 := by
  rw [ticksAt]
  omega

theorem toNat_counterAt (counter : UInt32) (offset : Nat) :
    (counterAt counter offset).toNat = (counter.toNat + 10 * offset) % 2 ^ 32 := by
  have symbol : (10 : UInt32).toNat = 10 := rfl
  rw [counterAt, UInt32.toNat_add, UInt32.toNat_mul, symbol, UInt32.toNat_ofNat']
  omega

theorem toNat_ticks (counter : UInt32) (offset : Nat) :
    ((counterAt counter offset - latency) / tick).toNat = ticksAt counter offset := by
  have taken : latency.toNat = 4000 := rfl
  have length : tick.toNat = 3125 := rfl
  rw [UInt32.toNat_div, UInt32.toNat_sub, toNat_counterAt, taken, length, ticksAt]
  omega

theorem toNat_highBits (high : UInt8) :
    (high.toUInt32 <<< 20).toNat = high.toNat * 2 ^ 20 := by
  have small := high.toNat_lt
  have places : (20 : UInt32).toNat % 32 = 20 := rfl
  rw [UInt32.toNat_shiftLeft, places, UInt8.toNat_toUInt32, Nat.shiftLeft_eq]
  exact Nat.mod_eq_of_lt (by omega)

/-- Nothing is lost where the ticks are added to the high bits. -/
theorem toNat_native (high : UInt8) (counter : UInt32) (offset : Nat) :
    (native high counter offset).toNat = high.toNat * 2 ^ 20 + ticksAt counter offset := by
  have small := high.toNat_lt
  have few := ticksAt_le counter offset
  rw [native, UInt32.toNat_add, toNat_highBits, toNat_ticks]
  exact Nat.mod_eq_of_lt (by omega)

/-- Only a carry into high bits that are all set leaves the valid bits. -/
theorem native_le_mask_iff (high : UInt8) (counter : UInt32) (offset : Nat) :
    native high counter offset ≤ mask ↔ high ≠ 255 ∨ ticksAt counter offset < 2 ^ 20 := by
  have small := high.toNat_lt
  have few := ticksAt_le counter offset
  have valid : mask.toNat = 2 ^ 28 - 1 := rfl
  have full : high ≠ 255 ↔ high.toNat ≠ 255 := UInt8.toNat_inj.symm.not
  rw [UInt32.le_iff_toNat_le, toNat_native, valid, full]
  omega

end Clock

namespace Session

/--
The master's clock of a packet keeps to the 28 valid bits, whatever the record and
the offset are.  The native clock is the sum of the high bits and of the ticks on the
counter, and keeps to the valid bits unless the high bits are all set and the ticks
carry into them.
-/
theorem nativeClock_le_mask_iff {session next : Session} {capture : Capture} {packet : Packet}
    (done : session.process capture = .ok (next, some packet)) :
    packet.masterClock ≤ Clock.mask ∧
    packet.masterClock.toNat =
      (packet.nativeClock.toNat + (session.settings.clockOffset.getD 0).toNat) % 2 ^ 28 ∧
    packet.nativeClock.toNat =
      capture.clockHigh.toNat * 2 ^ 20 + Clock.ticksAt capture.counter packet.found.offset ∧
    (packet.nativeClock ≤ Clock.mask ↔
      capture.clockHigh ≠ 255 ∨ Clock.ticksAt capture.counter packet.found.offset < 2 ^ 20) := by
  obtain ⟨found, action, -, rfl⟩ := trimFor_of_packet done
  exact ⟨UInt32.le_iff_toNat_le.2 (Clock.master_le_mask _ _), Clock.toNat_master _ _,
    Clock.toNat_native _ _ _, Clock.native_le_mask_iff _ _ _⟩

def lateRecord (counter : UInt32) : Capture :=
  { inquiryRecord with clockHigh := 255, counter }

theorem process_lateRecord {counter : UInt32} {outcome : TrimLoop × TrimDecision}
    (observed : (Session.new (.ofNat 0x9e8b33) none {}).loop.observe
      (Clock.slotPhase counter 16) (Clock.native 255 counter 16) = .ok outcome) :
    ∃ next packet, (Session.new (.ofNat 0x9e8b33) none {}).process (lateRecord counter) =
        .ok (next, some packet) ∧
      packet.found.offset = 16 ∧ packet.nativeClock = Clock.native 255 counter 16 := by
  obtain ⟨next, action, trimmed⟩ := @exists_trimFor (.new (.ofNat 0x9e8b33) none {})
    (lateRecord counter) { offset := 16, errors := 0 } fun _ => ⟨outcome, observed⟩
  exact ⟨next, _, process_inquiryRecord rfl rfl 255 counter trimmed, rfl, rfl⟩

/-- The native clock is valid as long as the ticks do not carry. -/
theorem nativeClock_le_mask_iff_early :
    ∃ next packet, (Session.new (.ofNat 0x9e8b33) none {}).process (lateRecord 100000) =
        .ok (next, some packet) ∧
      packet.nativeClock ≤ Clock.mask ∧ packet.masterClock ≤ Clock.mask := by
  have observed : (Session.new (.ofNat 0x9e8b33) none {}).loop.observe
      (Clock.slotPhase 100000 16) (Clock.native 255 100000 16) =
        .ok ((Session.new (.ofNat 0x9e8b33) none {}).loop.trimmed 267386910, .trim 160 none) := by
    decide +kernel
  obtain ⟨next, packet, done, offset, -⟩ := process_lateRecord observed
  obtain ⟨master, -, -, native⟩ := nativeClock_le_mask_iff done
  refine ⟨next, packet, done, native.2 (.inr ?_), master⟩
  rw [offset]
  decide

/-- Close to a rollover of the counter the ticks carry, and the native clock is not valid. -/
theorem mask_lt_nativeClock :
    ∃ next packet, (Session.new (.ofNat 0x9e8b33) none {}).process (lateRecord 0xffffffff) =
        .ok (next, some packet) ∧
      packet.nativeClock = 268761268 ∧ ¬packet.nativeClock ≤ Clock.mask := by
  have observed : (Session.new (.ofNat 0x9e8b33) none {}).loop.observe
      (Clock.slotPhase 0xffffffff 16) (Clock.native 255 0xffffffff 16) =
        .ok ((Session.new (.ofNat 0x9e8b33) none {}).loop.trimmed 268761268, .trim 159 none) := by
    decide +kernel
  obtain ⟨next, packet, done, -, native⟩ := process_lateRecord observed
  have clock : packet.nativeClock = 268761268 := native.trans (by decide)
  refine ⟨next, packet, done, clock, ?_⟩
  rw [clock]
  decide

end Session

end Piconet
