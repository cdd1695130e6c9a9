/-!
# Counter rollover

A counter of 32 bits starts again from zero every few minutes.  Its readings
are extended to 64 bits by counting how often it went backwards: each time is
taken for one rollover.
-/

namespace Piconet

/-- The latest reading of a counter and how often it has started again. -/
structure Rollover where
  latest : Option UInt32 := none
  wraps : UInt64 := 0
  deriving DecidableEq, Repr

namespace Rollover

def extend (wraps : UInt64) (reading : UInt32) : UInt64 :=
  wraps <<< 32 ||| reading.toUInt64

def wentBack (latest : Option UInt32) (reading : UInt32) : Bool :=
  latest.any fun before => reading < before

def observe (rollover : Rollover) (reading : UInt32) : Rollover where
  latest := some reading
  wraps := if wentBack rollover.latest reading then rollover.wraps + 1 else rollover.wraps

def current (rollover : Rollover) : Option UInt64 :=
  rollover.latest.map (extend rollover.wraps)

def timeOf (rollover : Rollover) (reading : UInt32) : UInt64 :=
  extend (rollover.observe reading).wraps reading

@[simp] theorem current_observe (rollover : Rollover) (reading : UInt32) :
    (rollover.observe reading).current = some (rollover.timeOf reading) :=
  rfl

end Rollover

end Piconet
