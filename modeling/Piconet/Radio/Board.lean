import Piconet.ByteOrder
import Piconet.Radio.Control
import Piconet.Text.Utf8

/-!
# Board information

What a board tells about itself: its kind, the serial and part numbers of its
processor, and the revision and build of its firmware.  Both numbers come with
a status in front, which is zero if they could be read.  Texts are counted by a
byte in front of them.
-/

namespace Piconet.Radio

/-- The board as its own firmware names it. -/
inductive Board where
  | zero
  | one
  | badge
  | unknown (code : UInt8)
  deriving DecidableEq, Repr

namespace Board

def ofCode (code : UInt8) : Board :=
  if code = 0 then zero
  else if code = 1 then one
  else if code = 2 then badge
  else unknown code

def text : Board → String
  | zero => "Ubertooth Zero"
  | one => "Ubertooth One"
  | badge => "ToorCon 13 Badge"
  | unknown code => "Unknown (0x" ++ String.ofList (Text.Hex.ofNat 1 code.toNat) ++ ")"

end Board

def getBoard : Conversation Board := do
  return .ofCode (← readByte .getBoard)

structure SerialNumber where
  bytes : List UInt8
  deriving DecidableEq, Repr

namespace SerialNumber

def text (serial : SerialNumber) : String :=
  String.ofList (Text.Hex.ofBytes serial.bytes)

/-- A status of zero and the sixteen bytes after it; more bytes do not matter. -/
def ofReply? : List UInt8 → Option SerialNumber
  | status :: rest =>
      if status = 0 ∧ 16 ≤ rest.length then some ⟨rest.take 16⟩ else none
  | [] => none

end SerialNumber

def getSerial : Conversation SerialNumber := do
  expect (SerialNumber.ofReply? (← read .getSerial 17))

structure PartNumber where
  number : UInt32
  deriving DecidableEq, Repr

namespace PartNumber

def text (part : PartNumber) : String :=
  "0x" ++ String.ofList (Text.Hex.ofNat 8 part.number.toNat)

/-- A status of zero and the four bytes after it; more bytes do not matter. -/
def ofReply? : List UInt8 → Option PartNumber
  | status :: first :: second :: third :: fourth :: _ =>
      if status = 0 then
        some ⟨UInt32.ofNat (ByteOrder.ofLittle [first, second, third, fourth])⟩
      else none
  | _ => none

end PartNumber

def getPartNumber : Conversation PartNumber := do
  expect (PartNumber.ofReply? (← read .getPartNumber 5))

/-- A text behind its length; one that is cut short ends with the reply. -/
def countedText? : List UInt8 → Option String
  | [] => none
  | length :: body => some (Text.Utf8.decode (body.take length.toNat))

/--
The firmware's revision.  Old firmware sends a number of two bytes and nothing
else; newer firmware sends a counted text behind it.
-/
def revision? : List UInt8 → Option String
  | [] | [_] => none
  | [low, high] => some (toString (ByteOrder.ofLittle [low, high]))
  | _ :: _ :: rest => countedText? rest

def getRevision : Conversation String := do
  expect (revision? (← read .getRevision 258))

def getBuildInfo : Conversation String := do
  expect (countedText? (← read .getBuildInfo 256))

end Piconet.Radio
