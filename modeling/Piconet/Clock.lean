/-!
# Clocks

The radio counts time twice: in ticks of 312.5 microseconds, of which it
reports the high bits, and in steps of 100 nanoseconds, counted by a word of 32
bits.  A record carries the count at its first symbol; symbols last one
microsecond each.  From both follow the native clock at a symbol and where in a
slot of two ticks that symbol fell.
-/

namespace Piconet.Clock

def mask : UInt32 := 0x0fffffff

def tick : UInt32 := 3125

def slot : UInt32 := 6250

/-- How long a symbol takes through the receiver, in steps of the counter. -/
def latency : UInt32 := 4000

def counterAt (counter : UInt32) (offset : Nat) : UInt32 :=
  counter + 10 * UInt32.ofNat offset

/-- The native clock at a symbol; the sums wrap as the radio's own counters do. -/
def native (high : UInt8) (counter : UInt32) (offset : Nat) : UInt32 :=
  (high.toUInt32 <<< 20) + (counterAt counter offset - latency) / tick

def slotPhase (counter : UInt32) (offset : Nat) : UInt32 :=
  (counterAt counter offset + slot - latency) % slot

def master (native ahead : UInt32) : UInt32 :=
  (native + ahead) &&& mask

theorem master_le_mask (native ahead : UInt32) : (master native ahead).toNat ≤ mask.toNat := by
  rw [master, UInt32.toNat_and]
  exact Nat.and_le_right

end Piconet.Clock
