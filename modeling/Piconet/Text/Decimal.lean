/-!
# Decimal numbers

Readers for whole numbers in decimal: at least one digit, behind at most one
sign.  Blanks, separators and other digits than the ten of ASCII are refused.
-/

namespace Piconet.Text.Decimal

def digit? (character : Char) : Option Nat :=
  if '0' ≤ character && character ≤ '9' then some (character.toNat - 48) else none

def digits? (text : List Char) : Option Nat :=
  match text with
  | [] => none
  | _ => text.foldlM (fun value character =>
      (digit? character).map (10 * value + ·)) 0

def natural? : List Char → Option Nat
  | '+' :: text => digits? text
  | text => digits? text

def integer? : List Char → Option Int
  | '-' :: text => (digits? text).map fun value => -(value : Int)
  | text => (natural? text).map Int.ofNat

/-- The digits of a number, padded with spaces on the left to at least `width`. -/
def padded (width value : Nat) : String :=
  String.ofList ((Nat.toDigits 10 value).leftpad width ' ')

end Piconet.Text.Decimal
