import Piconet.Radio.Board
import Piconet.Radio.Control

/-!
# Operations on an open radio

Everything that can be asked of an open radio without changing its mode, as
data.  The same operations serve an idle radio and one that streams records.
-/

namespace Piconet.Radio

inductive Operation where
  | checkVersion
  | version
  | model
  | ping
  | stop
  | setChannel (megahertz : UInt16)
  | getChannel
  | setModulation (modulation : Modulation)
  | getModulation
  | setSwitch (switch : Switch) (on : Bool)
  | getSwitch (switch : Switch)
  | setPowerLevel (level : UInt8)
  | getPowerLevel
  | setSquelch (level : Int8)
  | getSquelch
  | setAddress (address : Address)
  | startHopping (clockOffset : UInt32) (counterOffset : UInt16)
  | setClock (clock : UInt32)
  | getClock
  | setChannelMap (map : ChannelMap)
  | clearChannelMap
  | surveyChannels
  | hop
  | trimClock (offset : UInt16)
  | correctDrift (rate : Int16)
  | send (command : Command)
  | getBoard
  | getSerial
  | getPartNumber
  | getRevision
  | getBuildInfo
  deriving DecidableEq

inductive Answer where
  | done
  | version (number : UInt16)
  | model (model : Model)
  | number (value : Int)
  | flag (on : Bool)
  | modulation (modulation : Modulation)
  | board (board : Board)
  | serial (serial : SerialNumber)
  | part (part : PartNumber)
  | text (text : String)
  deriving DecidableEq

def finish (conversation : Conversation Unit) : Conversation Answer := do
  conversation
  return .done

def perform (radio : Radio) : Operation → Conversation Answer
  | .checkVersion => finish radio.checkVersion
  | .version => return .version radio.version
  | .model => return .model radio.model
  | .ping => finish ping
  | .stop => finish stop
  | .setChannel megahertz => finish (setChannel megahertz)
  | .getChannel => return .number (← getChannel).toNat
  | .setModulation modulation => finish (setModulation modulation)
  | .getModulation => return .modulation (← getModulation)
  | .setSwitch switch on => finish (setSwitch switch on)
  | .getSwitch switch => return .flag (← getSwitch switch)
  | .setPowerLevel level => finish (setPowerLevel level)
  | .getPowerLevel => return .number (← getPowerLevel).toNat
  | .setSquelch level => finish (setSquelch level)
  | .getSquelch => return .number (← getSquelch).toInt
  | .setAddress address => finish (setAddress address)
  | .startHopping clockOffset counterOffset =>
      finish (startHopping clockOffset counterOffset)
  | .setClock clock => finish (setClock clock)
  | .getClock => return .number (← getClock).toNat
  | .setChannelMap map => finish (setChannelMap map)
  | .clearChannelMap => finish clearChannelMap
  | .surveyChannels => finish surveyChannels
  | .hop => finish hop
  | .trimClock offset => finish (trimClock offset)
  | .correctDrift rate => finish (correctDrift rate)
  | .send command => finish (send command)
  | .getBoard => return .board (← getBoard)
  | .getSerial => return .serial (← getSerial)
  | .getPartNumber => return .part (← getPartNumber)
  | .getRevision => return .text (← getRevision)
  | .getBuildInfo => return .text (← getBuildInfo)

end Piconet.Radio
