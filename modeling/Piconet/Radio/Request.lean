/-!
# Radio requests

The requests that the radio's firmware knows, and the numbers by which they are
sent over USB.
-/

namespace Piconet.Radio

inductive Request where
  | ping
  | receiveSymbols
  | getUserLed
  | setUserLed
  | getReceiveLed
  | setReceiveLed
  | getTransmitLed
  | setTransmitLed
  | getChannel
  | setChannel
  | reset
  | getSerial
  | getPartNumber
  | getAmplifier
  | setAmplifier
  | getHighGain
  | setHighGain
  | stop
  | getModulation
  | setModulation
  | getPowerLevel
  | setPowerLevel
  | getRevision
  | getBoard
  | setSquelch
  | getSquelch
  | setAddress
  | startHopping
  | setClock
  | getClock
  | setChannelMap
  | clearChannelMap
  | getBuildInfo
  | surveyChannels
  | hop
  | trimClock
  | correctDrift
  deriving DecidableEq, Repr

def Request.number : Request → UInt8
  | .ping => 0
  | .receiveSymbols => 1
  | .getUserLed => 3
  | .setUserLed => 4
  | .getReceiveLed => 5
  | .setReceiveLed => 6
  | .getTransmitLed => 7
  | .setTransmitLed => 8
  | .getChannel => 11
  | .setChannel => 12
  | .reset => 13
  | .getSerial => 14
  | .getPartNumber => 15
  | .getAmplifier => 16
  | .setAmplifier => 17
  | .getHighGain => 18
  | .setHighGain => 19
  | .stop => 21
  | .getModulation => 22
  | .setModulation => 23
  | .getPowerLevel => 28
  | .setPowerLevel => 29
  | .getRevision => 33
  | .getBoard => 35
  | .setSquelch => 36
  | .getSquelch => 37
  | .setAddress => 38
  | .startHopping => 39
  | .setClock => 40
  | .getClock => 41
  | .setChannelMap => 51
  | .clearChannelMap => 52
  | .getBuildInfo => 55
  | .surveyChannels => 61
  | .hop => 62
  | .trimClock => 63
  | .correctDrift => 69

def Request.all : List Request :=
  [.ping, .receiveSymbols, .getUserLed, .setUserLed, .getReceiveLed, .setReceiveLed,
   .getTransmitLed, .setTransmitLed, .getChannel, .setChannel, .reset, .getSerial,
   .getPartNumber, .getAmplifier, .setAmplifier, .getHighGain, .setHighGain, .stop,
   .getModulation, .setModulation, .getPowerLevel, .setPowerLevel, .getRevision,
   .getBoard, .setSquelch, .getSquelch, .setAddress, .startHopping, .setClock,
   .getClock, .setChannelMap, .clearChannelMap, .getBuildInfo, .surveyChannels, .hop,
   .trimClock, .correctDrift]

def Request.ofNumber? (number : UInt8) : Option Request :=
  all.find? fun request => request.number = number

theorem Request.ofNumber?_number (request : Request) :
    ofNumber? request.number = some request := by
  cases request <;> rfl

/-- Requests are told apart by their numbers. -/
theorem Request.number_injective {first second : Request}
    (same : first.number = second.number) : first = second := by
  have read := ofNumber?_number second
  rw [← same, ofNumber?_number] at read
  exact Option.some.inj read

end Piconet.Radio
