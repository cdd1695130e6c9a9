import Piconet.Address
import Piconet.ChannelMap
import Piconet.Hop.Butterfly

/-!
# Hop sequences

A piconet changes channel with its master's clock.  The selection mixes bits of
the master's address with bits of the clock, permutes five of them, and takes
the result as an index into a bank of channels: all 79, the even ones before
the odd ones, or those of them that a channel map leaves in use.
-/

namespace Piconet

/-- The bank of all channels: the even ones in order, then the odd ones. -/
def allChannels : List UInt8 :=
  (List.range channelCount).map fun index => UInt8.ofNat (2 * index % channelCount)

def ChannelMap.bank (map : ChannelMap) : List UInt8 :=
  allChannels.filter map.isUsed

def bankOf : Option ChannelMap → List UInt8
  | none => allChannels
  | some map => map.bank

/-- A map that leaves at least one channel, with the channels that were chosen by it. -/
structure ReducedBank where
  map : ChannelMap
  channels : List UInt8
  chosen : channels = map.bank
  populated : channels ≠ []
  deriving DecidableEq

def ReducedBank.ofMap? (map : ChannelMap) : Option ReducedBank :=
  if populated : map.bank ≠ [] then
    some { map, channels := map.bank, chosen := rfl, populated }
  else none

/-- The hop sequence of a master, over all channels or over those of a map in force. -/
structure HopSequence where
  address : Address
  reduced : Option ReducedBank
  deriving DecidableEq

namespace HopSequence

def baseMegahertz : UInt16 := 2402

inductive MapError where
  | noChannels
  deriving DecidableEq, Repr

def MapError.message : MapError → String
  | noChannels => "Invalid parameter: AFH map has no used channels"

def unrestricted (address : Address) : HopSequence :=
  { address, reduced := none }

def map (sequence : HopSequence) : Option ChannelMap :=
  sequence.reduced.map ReducedBank.map

def clearMap (sequence : HopSequence) : HopSequence :=
  { sequence with reduced := none }

/--
The sequence under another map.  A map that leaves no channel is refused, and
the sequence goes back to all channels.
-/
def setMap (sequence : HopSequence) (map : ChannelMap) :
    HopSequence × Except MapError Unit :=
  match ReducedBank.ofMap? map with
  | some reduced => ({ sequence with reduced }, .ok ())
  | none => (sequence.clearMap, .error .noChannels)

/-- The sequence under an optional map; one that leaves no channel is ignored. -/
def new (address : Address) (map : Option ChannelMap) : HopSequence :=
  match map with
  | none => unrestricted address
  | some map => ((unrestricted address).setMap map).1

def bank (sequence : HopSequence) : List UInt8 :=
  match sequence.reduced with
  | none => allChannels
  | some reduced => reduced.channels

def channelsInUse (sequence : HopSequence) : Nat :=
  sequence.bank.length

/-- The channels that are kept are those that the map in force leaves. -/
theorem bank_eq (sequence : HopSequence) : sequence.bank = bankOf sequence.map := by
  rw [bank, map]
  cases sequence.reduced with
  | none => rfl
  | some reduced => exact reduced.chosen

theorem bank_length_pos (sequence : HopSequence) : 0 < sequence.bank.length := by
  rw [bank]
  cases sequence.reduced with
  | none => decide
  | some reduced => exact List.length_pos_iff.2 reduced.populated

@[simp] theorem address_setMap (sequence : HopSequence) (map : ChannelMap) :
    (sequence.setMap map).1.address = sequence.address := by
  rw [setMap]
  cases ReducedBank.ofMap? map with
  | none => rfl
  | some reduced => rfl

@[simp] theorem address_new (address : Address) (map : Option ChannelMap) :
    (new address map).address = address := by
  cases map with
  | none => rfl
  | some map => exact address_setMap _ map

/-- The bits of a word at some positions, the first one becoming the top bit. -/
def gather (word : UInt32) (positions : List UInt32) : UInt32 :=
  positions.foldl (fun (bits position : UInt32) => 2 * bits + (word >>> position &&& 1)) 0

def permuted (address clock : UInt32) : UInt8 :=
  let ticks : UInt32 := clock >>> 2 &&& 0x1f
  let offset : UInt32 := (address >>> 23 ^^^ clock >>> 21) &&& 0x1f
  let mask : UInt32 := address >>> 19 &&& 0xf
  let mixed : UInt32 := (ticks + offset) % 32 ^^^ mask
  let parity : UInt32 := clock >>> 1 &&& 1
  let crossed : UInt32 := (gather address [8, 6, 4, 2, 0] ^^^ clock >>> 16) &&& 0x1f
  let high : UInt32 := parity * 0x1f ^^^ crossed
  let low : UInt32 := (address >>> 10 ^^^ clock >>> 7) &&& 0x1ff
  Butterfly.permute mixed.toUInt8 high.toUInt8 low.toUInt16

/-- The part of the clock that moves the whole sequence once in every 64 slots. -/
def segment (clock : UInt32) : UInt32 :=
  clock >>> 3 &&& 0x1fffff0

def half (clock : UInt32) : UInt32 :=
  clock >>> 1 &&& 1

/-- The index into a bank of the given size, before it is reduced. -/
def index (address clock : UInt32) (size : Nat) : Nat :=
  (permuted address clock).toNat +
    (gather address [13, 11, 9, 7, 5, 3, 1]).toNat +
    (segment clock).toNat % size +
    32 * (half clock).toNat

def channel (sequence : HopSequence) (clock : UInt32) : UInt8 :=
  let position := index sequence.address.low clock sequence.bank.length
  sequence.bank.get ⟨position % sequence.bank.length, Nat.mod_lt _ sequence.bank_length_pos⟩

def frequency (sequence : HopSequence) (clock : UInt32) : UInt16 :=
  baseMegahertz + (sequence.channel clock).toUInt16

theorem channel_mem_bank (sequence : HopSequence) (clock : UInt32) :
    sequence.channel clock ∈ sequence.bank :=
  List.get_mem _ _

end HopSequence

end Piconet
