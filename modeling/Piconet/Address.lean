import Piconet.Text.Blank
import Piconet.Text.Hex

/-!
# Device addresses

A device address has 48 bits.  The low 24 are its lower address part, from
which the access code of its piconet is made; the lower part and the eight bits
of the upper part above it decide its hop sequence.  The sixteen bits on top
are not significant on the air.

An address is written as six octets, the most significant first, and is read
back from that form or from a bare hexadecimal number.
-/

namespace Piconet

/-- A 48-bit device address. -/
structure Address where
  bits : BitVec 48
  deriving DecidableEq, Repr

namespace Address

def ofNat (number : Nat) : Address :=
  ⟨BitVec.ofNat 48 number⟩

def ofParts (nap : BitVec 16) (uap : BitVec 8) (lap : BitVec 24) : Address :=
  ⟨nap ++ uap ++ lap⟩

def lap (address : Address) : BitVec 24 :=
  address.bits.extractLsb' 0 24

def uap (address : Address) : BitVec 8 :=
  address.bits.extractLsb' 24 8

def nap (address : Address) : BitVec 16 :=
  address.bits.extractLsb' 32 16

/-- The low 32 bits, which are all that hopping depends on. -/
def low (address : Address) : UInt32 :=
  ⟨address.bits.extractLsb' 0 32⟩

def octets (address : Address) : List UInt8 :=
  [⟨address.bits.extractLsb' 40 8⟩, ⟨address.bits.extractLsb' 32 8⟩,
   ⟨address.bits.extractLsb' 24 8⟩, ⟨address.bits.extractLsb' 16 8⟩,
   ⟨address.bits.extractLsb' 8 8⟩, ⟨address.bits.extractLsb' 0 8⟩]

def render (address : Address) : List Char :=
  List.intercalate [':'] (address.octets.map Text.Hex.ofByte)

instance : ToString Address where
  toString address := String.ofList address.render

inductive ParseError where
  | octetLength
  | octetDigits
  | octetCount
  | length
  | digits
  deriving DecidableEq, Repr

def ParseError.message : ParseError → String
  | octetLength => "Each address octet must be two hex digits"
  | octetDigits => "Address octet isn't valid hex"
  | octetCount => "Address must have six octets"
  | length => "Address must be 1-12 hex digits"
  | digits => "Address isn't valid hex"

/-- The length of a text in bytes of UTF-8, by which the written forms are measured. -/
def byteLength (text : List Char) : Nat :=
  text.foldl (fun length char => length + char.utf8Size) 0

def parseOctet (text : List Char) : Except ParseError Nat :=
  if byteLength text ≠ 2 then .error .octetLength
  else match Text.Hex.number? text with
    | none => .error .octetDigits
    | some value => .ok value

/-- The octets between colons; the first one that is wrong decides the error. -/
def parseOctets (text : List Char) : Except ParseError Address := do
  let values ← (text.splitOn ':').mapM parseOctet
  if values.length = 6 then
    .ok (ofNat (values.foldl (fun number octet => 256 * number + octet) 0))
  else
    .error .octetCount

def dropMarker : List Char → List Char
  | '0' :: 'x' :: text => text
  | '0' :: 'X' :: text => text
  | text => text

def parseNumber (text : List Char) : Except ParseError Address :=
  let number := dropMarker text
  if byteLength number = 0 ∨ 12 < byteLength number then .error .length
  else match Text.Hex.number? number with
    | none => .error .digits
    | some value => .ok (ofNat value)

def parseChars (text : List Char) : Except ParseError Address :=
  let body := Text.trim text
  if ':' ∈ body then parseOctets body else parseNumber body

def parse (text : String) : Except ParseError Address :=
  parseChars text.toList

end Address

end Piconet
