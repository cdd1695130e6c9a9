import Piconet.BitCount
import Piconet.Text.Blank
import Piconet.Text.Hex

/-!
# Channel maps

An adaptive piconet hops over some of the 79 basic-rate channels only.  The set
of channels in use is carried in ten bytes: bit `n % 8` of byte `n / 8` stands
for channel `n`.  The last bit stands for no channel; it is kept and ignored.
-/

namespace Piconet

def channelCount : Nat := 79

/-- A set of channels, as it is carried on the air and over USB. -/
structure ChannelMap where
  bytes : Vector UInt8 10
  deriving DecidableEq, Repr

namespace ChannelMap

def full : ChannelMap :=
  ⟨#v[0xff, 0xff, 0xff, 0xff, 0xff, 0xff, 0xff, 0xff, 0xff, 0x7f]⟩

def empty : ChannelMap :=
  ⟨Vector.replicate 10 0⟩

def mask (channel : UInt8) : UInt8 :=
  1 <<< (channel % 8)

def slot (channel : UInt8) (inside : channel.toNat < channelCount) : Fin 10 :=
  ⟨channel.toNat / 8, by simp only [channelCount] at inside; omega⟩

/-- A channel is in use when its bit is set; a number past the last one never is. -/
def isUsed (map : ChannelMap) (channel : UInt8) : Bool :=
  if inside : channel.toNat < channelCount then
    map.bytes.get (slot channel inside) &&& mask channel != 0
  else
    false

def insert (map : ChannelMap) (channel : UInt8) : ChannelMap :=
  if inside : channel.toNat < channelCount then
    let place := slot channel inside
    ⟨map.bytes.set place (map.bytes.get place ||| mask channel)⟩
  else
    map

def erase (map : ChannelMap) (channel : UInt8) : ChannelMap :=
  if inside : channel.toNat < channelCount then
    let place := slot channel inside
    ⟨map.bytes.set place (map.bytes.get place &&& ~~~(mask channel))⟩
  else
    map

/-- How many channels are in use, counted byte by byte without the last bit. -/
def size (map : ChannelMap) : Nat :=
  (map.bytes.toList.take 9).foldl (fun count byte => count + onesBelow 8 byte.toUInt64)
    (onesBelow 7 map.bytes[9].toUInt64)

theorem isUsed_of_ge {map : ChannelMap} {channel : UInt8}
    (outside : channelCount ≤ channel.toNat) : map.isUsed channel = false := by
  simp [isUsed, Nat.not_lt.2 outside]

def render (map : ChannelMap) : List Char :=
  Text.Hex.ofBytes map.bytes.toList

instance : ToString ChannelMap where
  toString map := String.ofList map.render

inductive ParseError where
  | length
  | digits
  deriving DecidableEq, Repr

def ParseError.message : ParseError → String
  | length => "AFH map must be exactly 20 hex digits"
  | digits => "AFH map isn't valid hex"

def dropMarker : List Char → List Char
  | '0' :: 'x' :: text => text
  | text => text

/-- The bytes spelled by pairs of digits; a pair is read as a number of its own. -/
def readBytes : List Char → Option (List UInt8)
  | first :: second :: rest => do
      let value ← Text.Hex.number? [first, second]
      return UInt8.ofNat value :: (← readBytes rest)
  | _ => some []

def parseChars (text : List Char) : Except ParseError ChannelMap :=
  let body := dropMarker (Text.trim text)
  if body.length = 20 ∧ body.all (fun character => character.toNat < 128) then
    match readBytes body with
    | none => .error .digits
    | some bytes =>
        if exact : bytes.toArray.size = 10 then .ok ⟨⟨bytes.toArray, exact⟩⟩
        else .error .length
  else
    .error .length

def parse (text : String) : Except ParseError ChannelMap :=
  parseChars text.toList

end ChannelMap

end Piconet
