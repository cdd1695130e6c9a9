import Piconet.Capture
import Piconet.Hop.Sequence
import Piconet.Packet
import Piconet.Rollover

/-!
# Following a piconet

A session takes the records of a radio one by one and looks in each for the
access code of one piconet.  It keeps the hop sequence, the trim loop, the
extended time and the levels, and it says what the radio should be asked to do;
it never talks to the radio itself.

A piconet that has not been heard for a given number of records is lost: the
trim loop starts again, and commands that restart the hopping are queued.
-/

namespace Piconet

structure Settings where
  /-- Access codes must have fewer wrong bits than this. -/
  tolerance : Nat := Correlator.defaultTolerance
  /-- Whether the trim loop runs. -/
  trims : Bool := true
  tuning : Tuning := {}
  /-- How far the master's clock is ahead of the native clock, if that is known. -/
  clockOffset : Option UInt32 := none
  /-- The records in a row without an access code that lose the piconet; zero never does. -/
  lostAfter : UInt32 := 2500
  deriving DecidableEq, Repr

structure Stats where
  /-- Records taken. -/
  captures : Nat := 0
  /-- Basic-rate records among them. -/
  valid : Nat := 0
  /-- Those with the access code. -/
  found : Nat := 0
  /-- Trims handed out. -/
  trims : Nat := 0
  /-- How often the piconet was lost. -/
  losses : Nat := 0
  deriving DecidableEq, Repr

structure Session where
  settings : Settings
  sequence : HopSequence
  /-- The session's own note of the map in force. -/
  map : Option ChannelMap
  loop : TrimLoop
  rollover : Rollover := {}
  peaks : PeakHistory := .empty
  stats : Stats := {}
  /-- The records in a row without the access code. -/
  misses : UInt32 := 0
  /-- The native clock at the latest basic-rate record. -/
  latestClock : UInt32 := 0
  /-- Commands that no packet carries. -/
  outbox : List Command := []
  deriving DecidableEq

namespace Session

/-- A session for the piconet of a master; a map that leaves no channel is ignored. -/
def new (address : Address) (map : Option ChannelMap) (settings : Settings) : Session :=
  let sequence := HopSequence.new address map
  { settings, sequence, map := sequence.map, loop := { tuning := settings.tuning } }

def address (session : Session) : Address :=
  session.sequence.address

def correlator (session : Session) : Correlator where
  syncWord := session.address.syncWord
  tolerance := session.settings.tolerance

def masterClock (session : Session) (native : UInt32) : UInt32 :=
  Clock.master native (session.settings.clockOffset.getD 0)

def hopCommand (session : Session) (clock : UInt32) : Command :=
  .setChannel (session.sequence.frequency clock)

/--
The commands that put the radio on the hop sequence.  Where the master's clock
is not known there is nothing to hop along with.
-/
def startCommands (session : Session) (native : UInt32) : List Command :=
  match session.settings.clockOffset with
  | none => []
  | some offset =>
      [session.hopCommand (session.masterClock native), .startHopping offset 0]

def losesAt (session : Session) (misses : UInt32) : Bool :=
  session.settings.lostAfter != 0 && misses % session.settings.lostAfter == 0

def lose (session : Session) : Session :=
  { session with
    stats := { session.stats with losses := session.stats.losses + 1 }
    loop := session.loop.reset
    outbox := session.outbox ++ session.startCommands session.latestClock }

def miss (session : Session) : Session :=
  let counted := { session with misses := session.misses + 1 }
  if counted.losesAt counted.misses then counted.lose else counted

def note (session : Session) (capture : Capture) : Session × SignalLevel :=
  let (peaks, level) :=
    session.peaks.observe capture.channel capture.peak capture.average
  ({ session with
      stats := { session.stats with valid := session.stats.valid + 1 }
      rollover := session.rollover.observe capture.counter
      peaks
      latestClock := Clock.native capture.clockHigh capture.counter 0 }, level)

def trimCommands : Option TrimDecision → List Command
  | some (.trim offset none) => [.trimClock offset]
  | some (.trim offset (some rate)) => [.trimClock offset, .correctDrift rate]
  | _ => []

def trim (session : Session) (phase clock : UInt32) :
    Except Overflow (Session × Option TrimDecision) := do
  if session.settings.trims then
    let (loop, action) ← session.loop.observe phase clock
    let trims := session.stats.trims + action.isTrim.toNat
    return ({ session with loop, stats := { session.stats with trims } }, some action)
  else
    return (session, none)

def hear (session : Session) (capture : Capture) (level : SignalLevel)
    (found : AccessCode) : Except Overflow (Session × Packet) := do
  let nativeClock := Clock.native capture.clockHigh capture.counter found.offset
  let phase := Clock.slotPhase capture.counter found.offset
  let counted := { session with
    stats := { session.stats with found := session.stats.found + 1 }
    misses := 0 }
  let (trimmed, action) ← counted.trim phase nativeClock
  return (trimmed, {
    channel := capture.channel
    lap := UInt32.ofNat session.correlator.syncWord.lap.toNat
    found
    nativeClock
    masterClock := session.masterClock nativeClock
    phase
    time := Rollover.extend session.rollover.wraps capture.counter
    level
    trim := action
    commands := trimCommands action
    symbols := capture.symbols.drop found.offset })

/-- The session after one more record, and the packet in it, if there is one. -/
def process (session : Session) (capture : Capture) :
    Except Overflow (Session × Option Packet) := do
  let counted := { session with
    stats := { session.stats with captures := session.stats.captures + 1 } }
  if capture.isBasicRate then
    let (noted, level) := counted.note capture
    match noted.correlator.find? capture.symbols with
    | none => return (noted.miss, none)
    | some found =>
        let (heard, packet) ← noted.hear capture level found
        return (heard, some packet)
  else
    return (counted, none)

/-- The session without the commands that no packet carries, and those commands. -/
def drain (session : Session) : Session × List Command :=
  ({ session with outbox := [] }, session.outbox)

def setMap (session : Session) (map : ChannelMap) :
    Session × Except HopSequence.MapError Command :=
  let (sequence, result) := session.sequence.setMap map
  ({ session with sequence, map := sequence.map }, result.map fun _ => .setChannelMap map)

def clearMap (session : Session) : Session × Command :=
  ({ session with sequence := session.sequence.clearMap, map := none }, .clearChannelMap)

def resetTrim (session : Session) : Session :=
  { session with loop := session.loop.reset }

end Session

end Piconet
