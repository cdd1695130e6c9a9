import Piconet.ChannelMap

/-!
# Signal levels

The radio reports levels as raw readings.  A curve of straight pieces turns
them into dBm.  The energy of one packet can be spread over several records, so
the signal of a packet is taken from the highest of the last few peaks on its
channel; the noise is the average of its own record.  The peaks of a channel are
kept in a fixed number of slots, from which each new one pushes out the oldest.
-/

namespace Piconet

/-- The level of a raw reading, in dBm; the pieces are cut toward zero. -/
def dbm (reading : Int8) : Int8 :=
  let value := reading.toInt
  Int8.ofInt <|
    if value < -48 then -120
    else if value ≤ -45 then 6 * (value + 28)
    else if value ≤ 30 then (99 * (value - 62)).tdiv 110
    else if value ≤ 35 then (60 * (value - 35)).tdiv 11
    else 0

structure SignalLevel where
  signal : Int8
  noise : Int8
  deriving DecidableEq, Repr

namespace PeakHistory

def depth : Nat := 10

/-- The last peaks on one channel, the latest in the last slot. -/
abbrev Slots := Vector Int8 depth

end PeakHistory

structure PeakHistory where
  channels : Vector PeakHistory.Slots channelCount
  deriving DecidableEq, Repr

namespace PeakHistory

/-- A history without records: a slot that none has come to holds the lowest reading. -/
def empty : PeakHistory :=
  ⟨.replicate channelCount (.replicate depth Int8.minValue)⟩

/-- Every peak moves to the slot before its own, and that of the first slot to the last one. -/
def rotate (slots : Slots) : Slots :=
  .ofFn fun place => slots.get ⟨(place + 1) % depth, Nat.mod_lt _ (by decide)⟩

def push (peak : Int8) (slots : Slots) : Slots :=
  (rotate slots).set (depth - 1) peak

/-- The highest peak in the slots; if there were none, that of the record itself. -/
def highest (slots : Slots) (own : Int8) : Int8 :=
  slots.toList.max?.getD own

/--
The history after one more record, and the levels of that record.  A record on
a channel that does not exist is not kept, and its own peak is its signal.
-/
def observe (history : PeakHistory) (channel : UInt8) (peak average : Int8) :
    PeakHistory × SignalLevel :=
  if inside : channel.toNat < channelCount then
    let slots := push peak history.channels[channel.toNat]
    (⟨history.channels.set channel.toNat slots⟩,
     { signal := dbm (highest slots peak), noise := dbm average })
  else
    (history, { signal := dbm peak, noise := dbm average })

end PeakHistory

end Piconet
