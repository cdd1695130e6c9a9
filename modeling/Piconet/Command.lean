import Piconet.ByteOrder
import Piconet.ChannelMap
import Piconet.Radio.Request

/-!
# Commands

What a session asks of the radio while it follows a piconet.  A command is sent
as one request with a value and a payload.
-/

namespace Piconet

inductive Command where
  /-- Tune to a frequency. -/
  | setChannel (megahertz : UInt16)
  /-- Move the clock by steps of 100 nanoseconds, modulo one slot. -/
  | trimClock (offset : UInt16)
  /-- Correct the rate of the clock, in parts per million. -/
  | correctDrift (rate : Int16)
  | setChannelMap (map : ChannelMap)
  | clearChannelMap
  /-- Hop along, with the master's clock ahead of the native one. -/
  | startHopping (clockOffset : UInt32) (counterOffset : UInt16)
  deriving DecidableEq, Repr

namespace Command

def text : Command → String
  | setChannel megahertz => "set channel " ++ toString megahertz ++ " MHz"
  | trimClock offset => "trim clock " ++ toString offset
  | correctDrift rate => "fix clock drift " ++ toString rate.toInt ++ " ppm"
  | setChannelMap map => "set AFH map " ++ toString map
  | clearChannelMap => "clear AFH map"
  | startHopping clockOffset _ =>
      "start hopping at clock offset " ++ toString clockOffset

structure Message where
  request : Radio.Request
  value : UInt16
  data : List UInt8
  deriving DecidableEq, Repr

def encode : Command → Message
  | setChannel megahertz => ⟨.setChannel, megahertz, []⟩
  | trimClock offset => ⟨.trimClock, 0, ByteOrder.big 2 offset.toNat⟩
  | correctDrift rate => ⟨.correctDrift, 0, ByteOrder.big 2 rate.toUInt16.toNat⟩
  | setChannelMap map => ⟨.setChannelMap, 0, map.bytes.toList⟩
  | clearChannelMap => ⟨.clearChannelMap, 0, []⟩
  | startHopping clockOffset counterOffset =>
      ⟨.startHopping, 0,
        ByteOrder.big 4 clockOffset.toNat ++ ByteOrder.big 2 counterOffset.toNat⟩

end Command

end Piconet
