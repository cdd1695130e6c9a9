import Piconet.Text.Hex

/-!
# Faults

What can go wrong while a radio is open.  A fault is kept as its cause; the
wording is in `message`, and the form used in diagnostics is in `details`.
-/

namespace Piconet.Radio

inductive TransferError where
  | cancelled
  | stalled
  | disconnected
  | fault
  | unknown
  deriving DecidableEq, Repr

def TransferError.details : TransferError → String
  | cancelled => "Cancelled"
  | stalled => "Stall"
  | disconnected => "Disconnected"
  | fault => "Fault"
  | unknown => "Unknown"

inductive Fault where
  | transfer (cause : TransferError)
  /-- A setting outside the range from `first` to before `stop`. -/
  | outOfRange (value first stop : Nat)
  /-- Firmware that is too old for the requests made of it. -/
  | outdated (needed actual : UInt16)
  /-- A reply or a record that does not have its form. -/
  | malformed
  deriving DecidableEq, Repr

namespace Fault

/-- A range with its end excluded. -/
def range (first stop : Nat) : String :=
  toString first ++ ".." ++ toString stop

def version (number : UInt16) : String :=
  "0x" ++ String.ofList (Text.Hex.ofNat 4 number.toNat)

def message : Fault → String
  | transfer _ => "USB transfer failed"
  | outOfRange value first stop =>
      toString value ++ " is outside the accepted range " ++ range first stop
  | outdated needed actual =>
      "Firmware API " ++ version actual ++ " is older than the required " ++
        version needed ++ "; update the firmware"
  | malformed => "Malformed data from the Ubertooth"

def details : Fault → String
  | transfer cause => "Transfer(" ++ cause.details ++ ")"
  | outOfRange value first stop =>
      "ValueRange \x7b range: " ++ range first stop ++ ", val: " ++
        toString value ++ " \x7d"
  | outdated needed actual =>
      "ApiVersion \x7b needed: " ++ toString needed ++ ", actual: " ++
        toString actual ++ " \x7d"
  | malformed => "ReturnData"

end Fault

end Piconet.Radio
