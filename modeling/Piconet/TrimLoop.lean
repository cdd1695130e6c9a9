import Piconet.Clock
import Piconet.Overflow

/-!
# The trim loop

While a piconet is followed the two clocks drift apart.  Each access code shows
where the slot boundary was; the loop turns these observations into occasional
corrections.  Errors inside a dead band are ignored.  Errors outside it are
counted by their sign, and only a count above a threshold leads to a trim, on
the observation after the one that reached it.

A trim that follows another one also estimates how fast the clocks drift.
-/

namespace Piconet

/-- The settings of the loop; times are in steps of 100 nanoseconds. -/
structure Tuning where
  /-- The count that must be exceeded before a trim. -/
  threshold : Int32 := 2
  /-- Where in a slot the boundary should sit. -/
  target : Int32 := 2250
  /-- Half the width of the dead band. -/
  band : Int32 := 200
  deriving DecidableEq, Repr

inductive TrimDecision where
  | stable
  | pending (count : Int32)
  | trim (offset : UInt16) (drift : Option Int16)
  deriving DecidableEq, Repr

def TrimDecision.isTrim : TrimDecision → Bool
  | trim _ _ => true
  | _ => false

structure TrimLoop where
  tuning : Tuning
  /-- The signed count of errors outside the dead band. -/
  count : Int32 := 0
  /-- Whether a trim has happened since the last reset. -/
  calibrated : Bool := false
  /-- The clock at the latest trim. -/
  trimmedAt : UInt32 := 0
  deriving DecidableEq, Repr

namespace Tuning

/-- The distance of a slot phase from the target, half a slot to either side. -/
def error (tuning : Tuning) (phase : UInt32) : Except Overflow Int := do
  let distance ← Overflow.subtract32 (phase % Clock.slot).toInt32 tuning.target
  let shifted ← Overflow.add32 distance 3125
  return shifted.toInt % 6250 - 3125

end Tuning

namespace TrimLoop

def reset (loop : TrimLoop) : TrimLoop :=
  { tuning := loop.tuning }

/-- The ticks between two clocks, of which only the valid bits count. -/
def elapsed (clock earlier : UInt32) : UInt32 :=
  (clock - earlier) &&& Clock.mask

def clamp16 (value : Int) : Int16 :=
  Int16.ofInt (max (-32768) (min 32767 value))

/-- The drift in parts per million: an error spread over the ticks it took to build up. -/
def driftOver (error : Int) (ticks : UInt32) : Option Int16 :=
  if ticks = 0 then none
  else some (clamp16 ((error * 320).tdiv ticks.toNat))

def drift (loop : TrimLoop) (error : Int) (clock : UInt32) : Option Int16 :=
  if loop.calibrated then driftOver error (elapsed clock loop.trimmedAt) else none

/-- A trim by the whole of the error, written as a time within one slot. -/
def trim (loop : TrimLoop) (error : Int) (clock : UInt32) : TrimLoop × TrimDecision :=
  ({ loop with count := 0, calibrated := true, trimmedAt := clock },
   .trim (UInt16.ofNat (error % 6250).toNat) (loop.drift error clock))

def isDue (loop : TrimLoop) : Except Overflow Bool := do
  if loop.calibrated then
    let magnitude ← Overflow.magnitude32 loop.count
    return loop.tuning.threshold < magnitude
  else
    return true

def observe (loop : TrimLoop) (phase clock : UInt32) :
    Except Overflow (TrimLoop × TrimDecision) := do
  let error ← loop.tuning.error phase
  if ← loop.isDue then
    return loop.trim error clock
  else if error.natAbs ≤ loop.tuning.band.toInt then
    return ({ loop with count := 0 }, .stable)
  else
    let count ← Overflow.add32 loop.count (Int32.ofInt error.sign)
    return ({ loop with count }, .pending count)

end TrimLoop

end Piconet
