/-!
# Decoding UTF-8

Decoding never fails.  Where the bytes are no well-formed UTF-8, each maximal
prefix of a well-formed sequence becomes one replacement character, and
decoding goes on with the byte that did not fit.
-/

namespace Piconet.Text.Utf8

def replacement : Char := '\ufffd'

/--
A character whose first bytes have been read.  The next byte must lie between
`low` and `high`; the ranges of the second byte exclude overlong forms, the
surrogates and values past the last code point.
-/
structure Pending where
  missing : Nat
  value : Nat
  low : UInt8 := 0x80
  high : UInt8 := 0xbf
  deriving DecidableEq, Repr

def first (byte : UInt8) : List Char × Option Pending :=
  if byte < 0x80 then ([Char.ofNat byte.toNat], none)
  else if 0xc2 ≤ byte && byte ≤ 0xdf then
    ([], some { missing := 1, value := byte.toNat - 0xc0 })
  else if byte = 0xe0 then
    ([], some { missing := 2, value := 0, low := 0xa0 })
  else if byte = 0xed then
    ([], some { missing := 2, value := 0xd, high := 0x9f })
  else if 0xe1 ≤ byte && byte ≤ 0xef then
    ([], some { missing := 2, value := byte.toNat - 0xe0 })
  else if byte = 0xf0 then
    ([], some { missing := 3, value := 0, low := 0x90 })
  else if 0xf1 ≤ byte && byte ≤ 0xf3 then
    ([], some { missing := 3, value := byte.toNat - 0xf0 })
  else if byte = 0xf4 then
    ([], some { missing := 3, value := 4, high := 0x8f })
  else ([replacement], none)

def Pending.extend (pending : Pending) (byte : UInt8) : List Char × Option Pending :=
  let value := 64 * pending.value + (byte.toNat - 0x80)
  if pending.missing ≤ 1 then ([Char.ofNat value], none)
  else ([], some { missing := pending.missing - 1, value })

/-- One byte of the input, with the characters it completes or ends. -/
def next (pending : Option Pending) (byte : UInt8) : List Char × Option Pending :=
  match pending with
  | none => first byte
  | some begun =>
      if begun.low ≤ byte && byte ≤ begun.high then begun.extend byte
      else
        let (characters, after) := first byte
        (replacement :: characters, after)

def decodeFrom : Option Pending → List UInt8 → List Char
  | none, [] => []
  | some _, [] => [replacement]
  | pending, byte :: rest =>
      (next pending byte).1 ++ decodeFrom (next pending byte).2 rest

def decode (bytes : List UInt8) : String :=
  String.ofList (decodeFrom none bytes)

/-- Bytes of ASCII text stand for themselves. -/
theorem decodeFrom_ascii (byte : UInt8) (rest : List UInt8) (ascii : byte < 0x80) :
    decodeFrom none (byte :: rest) =
      Char.ofNat byte.toNat :: decodeFrom none rest := by
  simp [decodeFrom, next, first, ascii]

end Piconet.Text.Utf8
