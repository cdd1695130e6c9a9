import Piconet.Address
import Piconet.ByteOrder
import Piconet.Command
import Piconet.Radio.Basic
import Piconet.Radio.Link
import Piconet.SyncWord

/-!
# Controlling a radio

The settings of a radio and the requests that change what it does.  Each is one
control transfer; a setting outside its range is refused before any.
-/

namespace Piconet.Radio

def readByte (request : Request) : Conversation UInt8 := do
  expect (← read request 1).head?

/-- A reply of exactly `width` bytes, as a number. -/
def readNumber (request : Request) (width : Nat) : Conversation Nat := do
  let data ← read request width
  expect (if data.length = width then some (ByteOrder.ofLittle data) else none)

def writeValue (request : Request) (value : UInt16) : Conversation Unit :=
  write request value []

def ping : Conversation Unit := do
  let _ ← read .ping 0

def stop : Conversation Unit :=
  writeValue .stop 0

/-- The radio restarted, after which it is another device on the bus. -/
def reset : Conversation Unit :=
  writeValue .reset 0

/-! ## Tuning -/

def lowestFrequency : UInt16 := 2268

def highestFrequency : UInt16 := 2794

def setChannel (megahertz : UInt16) : Conversation Unit :=
  if lowestFrequency ≤ megahertz ∧ megahertz ≤ highestFrequency then
    writeValue .setChannel megahertz
  else
    throw (.outOfRange megahertz.toNat lowestFrequency.toNat (highestFrequency.toNat + 1))

def getChannel : Conversation UInt16 := do
  return UInt16.ofNat (← readNumber .getChannel 2)

inductive Modulation where
  | basicRate
  | lowEnergy
  | frequencyHopping
  | off
  deriving DecidableEq, Repr

namespace Modulation

def code : Modulation → UInt8
  | basicRate => 0
  | lowEnergy => 1
  | frequencyHopping => 2
  | off => 3

def ofCode? (code : UInt8) : Option Modulation :=
  if code = 0 then some basicRate
  else if code = 1 then some lowEnergy
  else if code = 2 then some frequencyHopping
  else if code = 3 then some off
  else none

def text : Modulation → String
  | basicRate => "Bluetooth basic rate"
  | lowEnergy => "Bluetooth low energy"
  | frequencyHopping => "802.11 FHSS"
  | off => "none"

end Modulation

def setModulation (modulation : Modulation) : Conversation Unit :=
  writeValue .setModulation modulation.code.toUInt16

def getModulation : Conversation Modulation := do
  expect (Modulation.ofCode? (← readByte .getModulation))

/-! ## Switches and levels -/

inductive Switch where
  | userLed
  | receiveLed
  | transmitLed
  | amplifier
  | highGain
  deriving DecidableEq, Repr

def Switch.setter : Switch → Request
  | userLed => .setUserLed
  | receiveLed => .setReceiveLed
  | transmitLed => .setTransmitLed
  | amplifier => .setAmplifier
  | highGain => .setHighGain

def Switch.getter : Switch → Request
  | userLed => .getUserLed
  | receiveLed => .getReceiveLed
  | transmitLed => .getTransmitLed
  | amplifier => .getAmplifier
  | highGain => .getHighGain

def setSwitch (switch : Switch) (on : Bool) : Conversation Unit :=
  writeValue switch.setter (if on then 1 else 0)

def getSwitch (switch : Switch) : Conversation Bool := do
  return (← readByte switch.getter) != 0

def setPowerLevel (level : UInt8) : Conversation Unit :=
  if level ≤ 7 then writeValue .setPowerLevel level.toUInt16
  else throw (.outOfRange level.toNat 0 8)

def getPowerLevel : Conversation UInt8 :=
  readByte .getPowerLevel

/-- The level below which the firmware drops a record. -/
def setSquelch (level : Int8) : Conversation Unit :=
  writeValue .setSquelch level.toUInt8.toUInt16

def getSquelch : Conversation Int8 := do
  return (← readByte .getSquelch).toInt8

/-! ## Following a piconet -/

/-- Tells the firmware which piconet to follow, with the sync word it has to match. -/
def setAddress (address : Address) : Conversation Unit :=
  write .setAddress 0
    (ByteOrder.little 8 address.bits.toNat ++
      ByteOrder.little 8 address.syncWord.bits.toNat)

def send (command : Command) : Conversation Unit :=
  let message := command.encode
  write message.request message.value message.data

def startHopping (clockOffset : UInt32) (counterOffset : UInt16) : Conversation Unit :=
  send (.startHopping clockOffset counterOffset)

def setClock (clock : UInt32) : Conversation Unit :=
  write .setClock 0 (ByteOrder.little 4 clock.toNat)

def getClock : Conversation UInt32 := do
  return UInt32.ofNat (← readNumber .getClock 4)

def setChannelMap (map : ChannelMap) : Conversation Unit :=
  write .setChannelMap 0 map.bytes.toList

def clearChannelMap : Conversation Unit :=
  writeValue .clearChannelMap 0

def surveyChannels : Conversation Unit :=
  writeValue .surveyChannels 0

def hop : Conversation Unit :=
  writeValue .hop 0

def trimClock (offset : UInt16) : Conversation Unit :=
  write .trimClock 0 (ByteOrder.big 2 offset.toNat)

def correctDrift (rate : Int16) : Conversation Unit :=
  write .correctDrift 0 (ByteOrder.big 2 rate.toUInt16.toNat)

end Piconet.Radio
