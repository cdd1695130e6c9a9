/-!
# Hexadecimal digits

Numbers and bytes are written with lower-case digits.  A reader takes digits of
either case, and a number may carry one plus sign before its first digit.
-/

namespace Piconet.Text.Hex

def digit (value : Nat) : Char :=
  if value < 10 then Char.ofNat (48 + value) else Char.ofNat (87 + value)

def digit? (character : Char) : Option Nat :=
  if '0' ≤ character && character ≤ '9' then some (character.toNat - 48)
  else if 'a' ≤ character && character ≤ 'f' then some (character.toNat - 87)
  else if 'A' ≤ character && character ≤ 'F' then some (character.toNat - 55)
  else none

theorem digit?_digit {value : Nat} (small : value < 16) :
    digit? (digit value) = some value := by
  have checked : ∀ value : Fin 16, digit? (digit value.val) = some value.val := by
    decide
  exact checked ⟨value, small⟩

def ofByte (byte : UInt8) : List Char :=
  [digit (byte.toNat / 16), digit (byte.toNat % 16)]

def ofBytes (bytes : List UInt8) : List Char :=
  bytes.flatMap ofByte

@[simp] theorem length_ofByte (byte : UInt8) : (ofByte byte).length = 2 :=
  rfl

/-- The digits of a number, padded with zeros on the left to at least `width`. -/
def ofNat (width value : Nat) : List Char :=
  (Nat.toDigits 16 value).leftpad width '0'

def digits? (text : List Char) : Option Nat :=
  text.foldlM (fun value character =>
    (digit? character).map (16 * value + ·)) 0

/-- A number with at least one digit, behind at most one plus sign. -/
def number? : List Char → Option Nat
  | [] => none
  | ['+'] => none
  | '+' :: text => digits? text
  | text => digits? text

end Piconet.Text.Hex
