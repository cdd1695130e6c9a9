import Piconet.Proofs.Session.Clocks

/-!
# The instant of an access code

Two clocks are read off the counter at an access code, with the latency of the receiver
taken off: the native clock counts the whole ticks since the counter was zero, and the
slot phase is what is left over in a slot of two ticks.

The native clock takes the latency off at once, so it reads the instant even where the
counter at the access code has just started again.  The slot phase adds a slot first.
Where that sum leaves the 32 bits the phase loses a whole period of the counter, which is
not a number of whole slots; so shortly before a rollover, and across one, the phase is
not that of the instant.  Everywhere else the two clocks tell of the same instant.
-/

namespace Piconet

namespace Clock

/-- The slot phase of a symbol, in numbers that do not wrap. -/
def exactPhase (counter : UInt32) (offset : Nat) : Nat :=
  (counter.toNat + 10 * offset + 6250 - 4000) % 6250

theorem toNat_slotPhase (counter : UInt32) (offset : Nat) :
    (slotPhase counter offset).toNat = (counter.toNat + 10 * offset + 2250) % 2 ^ 32 % 6250 := by
  have added : slot.toNat = 6250 := rfl
  have taken : latency.toNat = 4000 := rfl
  rw [slotPhase, UInt32.toNat_mod, UInt32.toNat_sub, UInt32.toNat_add, toNat_counterAt, added,
    taken]
  omega

/-- The ticks are those of the instant, also where the counter has started again before it. -/
theorem ticksAt_eq {counter : UInt32} {offset : Nat}
    (begun : 4000 ≤ counter.toNat + 10 * offset)
    (near : counter.toNat + 10 * offset < 2 ^ 32 + 4000) :
    ticksAt counter offset = (counter.toNat + 10 * offset - 4000) / 3125 := by
  rw [ticksAt]
  omega

theorem slotPhase_of_early {counter : UInt32} {offset : Nat}
    (early : counter.toNat + 10 * offset + 2250 < 2 ^ 32) :
    (slotPhase counter offset).toNat = exactPhase counter offset := by
  rw [toNat_slotPhase, Nat.mod_eq_of_lt early, exactPhase]
  omega

/-- A period of the counter is 4796 steps more than a number of whole slots. -/
theorem slotPhase_of_late {counter : UInt32} {offset : Nat}
    (late : 2 ^ 32 ≤ counter.toNat + 10 * offset + 2250)
    (near : counter.toNat + 10 * offset + 2250 < 2 ^ 33) :
    (slotPhase counter offset).toNat = (exactPhase counter offset + 1454) % 6250 := by
  rw [toNat_slotPhase, exactPhase]
  omega

/--
At every symbol at which an access code can be found the slot phase is the exact one just
when the sum behind it stays within the 32 bits.  Where it does not the phase is off by
1454 steps, while the native clock still has the ticks of the instant.
-/
theorem slotPhase_eq_exactPhase_iff (counter : UInt32) {offset : Nat} (inside : offset ≤ 336) :
    ((slotPhase counter offset).toNat = exactPhase counter offset ↔
      counter.toNat + 10 * offset + 2250 < 2 ^ 32) ∧
    (2 ^ 32 ≤ counter.toNat + 10 * offset + 2250 →
      (slotPhase counter offset).toNat = (exactPhase counter offset + 1454) % 6250 ∧
      ∀ high : UInt8, (native high counter offset).toNat =
        high.toNat * 2 ^ 20 + (counter.toNat + 10 * offset - 4000) / 3125) := by
  have small := counter.toNat_lt
  refine ⟨⟨fun same => ?_, slotPhase_of_early⟩, fun late => ⟨?_, fun high => ?_⟩⟩
  · by_contra late
    have off := slotPhase_of_late (Nat.not_lt.1 late) (by omega)
    have bound : exactPhase counter offset < 6250 := Nat.mod_lt _ (by decide)
    omega
  · exact slotPhase_of_late late (by omega)
  · rw [toNat_native, ticksAt_eq (by omega) (by omega)]

/-- The last counter whose sum does not wrap at the last place in a record, and the next. -/
theorem slotPhase_eq_exactPhase_iff_last :
    336 ≤ 336 ∧ (slotPhase 4294961685 336).toNat = exactPhase 4294961685 336 ∧
      (slotPhase 4294961686 336).toNat = (exactPhase 4294961686 336 + 1454) % 6250 ∧
      (native 3 4294961686 336).toNat = 3 * 2 ^ 20 + 1374387 := by
  have last : 336 ≤ 336 := Nat.le_refl 336
  obtain ⟨off, clock⟩ := (slotPhase_eq_exactPhase_iff 4294961686 last).2 (by decide)
  exact ⟨last, (slotPhase_eq_exactPhase_iff 4294961685 last).1.2 (by decide), off, clock 3⟩

/-- The first sum that wraps, at the start of a record. -/
theorem slotPhase_ne_exactPhase :
    (slotPhase 4294965046 0).toNat = 0 ∧ exactPhase 4294965046 0 = 4796 ∧
      (slotPhase 4294965046 0).toNat ≠ exactPhase 4294965046 0 := by
  decide

theorem and_one_eq_one_iff (clock : UInt32) : clock &&& 1 = 1 ↔ clock.toNat % 2 = 1 := by
  have one : (1 : UInt32).toNat = 1 := rfl
  rw [← UInt32.toNat_inj, UInt32.toNat_and, one, Nat.and_one_is_mod]

/-- Before its sum wraps the phase is made of the tick that the native clock is in. -/
theorem exists_instant {counter : UInt32} {offset : Nat}
    (begun : 4000 ≤ counter.toNat + 10 * offset)
    (early : counter.toNat + 10 * offset + 2250 < 2 ^ 32) (high : UInt8) :
    ∃ ticks rest, rest < 3125 ∧
      counter.toNat + 10 * offset - 4000 = 3125 * ticks + rest ∧
      (native high counter offset).toNat = high.toNat * 2 ^ 20 + ticks ∧
      (slotPhase counter offset).toNat = 3125 * (ticks % 2) + rest := by
  refine ⟨(counter.toNat + 10 * offset - 4000) / 3125,
    (counter.toNat + 10 * offset - 4000) % 3125, Nat.mod_lt _ (by decide),
    (Nat.div_add_mod _ _).symm, ?_, ?_⟩
  · rw [toNat_native, ticksAt_eq begun (by omega)]
  · rw [slotPhase_of_early early, exactPhase]
    omega

/-- The lowest bit of the native clock tells the half of the slot. -/
theorem native_odd_iff {counter : UInt32} {offset : Nat}
    (begun : 4000 ≤ counter.toNat + 10 * offset)
    (early : counter.toNat + 10 * offset + 2250 < 2 ^ 32) (high : UInt8) :
    native high counter offset &&& 1 = 1 ↔ 3125 ≤ (slotPhase counter offset).toNat := by
  obtain ⟨ticks, rest, short, -, clock, phase⟩ := exists_instant begun early high
  rw [and_one_eq_one_iff, clock, phase]
  omega

end Clock

namespace Session

/--
From the latency on, and until a slot phase wraps, the native clock and the slot phase of
a symbol tell of one instant: the clock counts its ticks above the high bits, and the
phase is the rest, behind one more tick where their number is odd.  So the lowest bit of
the native clock in a packet says in which half of its slot the packet began.
-/
theorem clocks_tell_one_instant {counter : UInt32} {offset : Nat}
    (begun : 4000 ≤ counter.toNat + 10 * offset)
    (early : counter.toNat + 10 * offset + 2250 < 2 ^ 32) :
    (∀ high : UInt8, (∃ ticks rest, rest < 3125 ∧
        counter.toNat + 10 * offset - 4000 = 3125 * ticks + rest ∧
        (Clock.native high counter offset).toNat = high.toNat * 2 ^ 20 + ticks ∧
        (Clock.slotPhase counter offset).toNat = 3125 * (ticks % 2) + rest) ∧
      (Clock.native high counter offset &&& 1 = 1 ↔
        3125 ≤ (Clock.slotPhase counter offset).toNat)) ∧
    ∀ (session next : Session) (capture : Capture) (packet : Packet),
      session.process capture = .ok (next, some packet) → capture.counter = counter →
        packet.found.offset = offset →
          (packet.nativeClock &&& 1 = 1 ↔ 3125 ≤ packet.phase.toNat) := by
  refine ⟨fun high => ⟨Clock.exists_instant begun early high,
    Clock.native_odd_iff begun early high⟩, ?_⟩
  rintro session next capture packet done rfl rfl
  obtain ⟨found, action, -, rfl⟩ := trimFor_of_packet done
  exact Clock.native_odd_iff begun early capture.clockHigh

/-- The last record in which an inquiry can be heard before its slot phase wraps. -/
theorem clocks_tell_one_instant_last :
    let record : Capture := { inquiryRecord with counter := 4294964885 }
    4000 ≤ record.counter.toNat + 10 * 16 ∧ record.counter.toNat + 10 * 16 + 2250 < 2 ^ 32 ∧
      ∃ next packet, (Session.new (.ofNat 0x9e8b33) none { trims := false }).process record =
          .ok (next, some packet) ∧
        packet.nativeClock = 4520115 ∧ packet.phase = 4795 ∧ packet.nativeClock &&& 1 = 1 := by
  intro record
  have done := @process_inquiryRecord (.new (.ofNat 0x9e8b33) none { trims := false }) _ rfl rfl
    3 4294964885 _ ((trim_eq_ok_iff _).2 (.inl ⟨rfl, rfl, rfl⟩))
  have begun : 4000 ≤ (4294964885 : UInt32).toNat + 10 * 16 := by decide
  have early : (4294964885 : UInt32).toNat + 10 * 16 + 2250 < 2 ^ 32 := by decide
  have odd := (clocks_tell_one_instant begun early).2 _ _ _ _ done rfl rfl
  exact ⟨begun, early, _, _, done, by decide, by decide, odd.2 (by decide)⟩

end Session

end Piconet
