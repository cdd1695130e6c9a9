import Piconet.AccessCode
import Piconet.Command
import Piconet.SignalLevel
import Piconet.Text.Decimal
import Piconet.TrimLoop
import Piconet.Whitening

/-!
# Packets

What is known of a packet once its access code has been found in a record: when
and where it was heard, how loud, and the symbols from its sync word on.  The
header follows the sync word and a trailer of four symbols, and is whitened.
-/

namespace Piconet

structure Packet where
  channel : UInt8
  lap : UInt32
  /-- Where in its record the sync word began, and its bit errors. -/
  found : AccessCode
  nativeClock : UInt32
  masterClock : UInt32
  /-- Where in its slot the sync word began, in steps of 100 nanoseconds. -/
  phase : UInt32
  /-- The time of its record, in steps of 100 nanoseconds. -/
  time : UInt64
  level : SignalLevel
  /-- What the trim loop decided, where it runs. -/
  trim : Option TrimDecision
  /-- What the radio is asked to do. -/
  commands : List Command
  symbols : List UInt8
  deriving DecidableEq, Repr

namespace Packet

/-- Where the header begins, counted from the sync word. -/
def headerStart : Nat := 68

/-- The ratio of signal to noise in dB, held within the bounds of its word. -/
def ratio (packet : Packet) : Int8 :=
  Int8.ofInt (max (-128) (min 127
    (packet.level.signal.toInt - packet.level.noise.toInt)))

def dewhitened (packet : Packet) : List UInt8 :=
  Whitening.addFrom (Whitening.start packet.masterClock)
    (packet.symbols.drop headerStart)

def text (packet : Packet) : String :=
  "ch=" ++ Text.Decimal.padded 2 packet.channel.toNat ++
  " LAP=" ++ String.ofList (Text.Hex.ofNat 6 packet.lap.toNat) ++
  " err=" ++ toString packet.found.errors ++
  " clkn=" ++ toString packet.nativeClock ++
  " clk_offset=" ++ toString packet.phase ++
  " s=" ++ toString packet.level.signal.toInt ++
  " n=" ++ toString packet.level.noise.toInt ++
  " snr=" ++ toString packet.ratio.toInt

@[simp] theorem length_dewhitened (packet : Packet) :
    packet.dewhitened.length = packet.symbols.length - headerStart := by
  simp [dewhitened]

end Packet

end Piconet
