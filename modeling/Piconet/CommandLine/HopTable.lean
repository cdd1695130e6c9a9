import Piconet.CommandLine.Invocation
import Piconet.CommandLine.Terminal

/-!
# The table of a hop sequence

The `hop` command prints the channel of every slot from a given clock on.  It
touches no radio.
-/

namespace Piconet.CommandLine.HopTable

def clockOf (start : UInt32) (slot : Nat) : UInt32 :=
  (start + 2 * UInt32.ofNat slot) &&& 0x0ffffffe

def line (sequence : HopSequence) (clock : UInt32) : String :=
  "clk=" ++ String.ofList (Text.Hex.ofNat 7 clock.toNat) ++
  " ch=" ++ Text.Decimal.padded 2 (sequence.channel clock).toNat ++
  " freq=" ++ toString (sequence.frequency clock) ++ " MHz"

def heading (sequence : HopSequence) : String :=
  let address := sequence.address
  "Address " ++ toString address ++
  " (UAP " ++ String.ofList (Text.Hex.ofNat 2 address.uap.toNat) ++
  ", LAP " ++ String.ofList (Text.Hex.ofNat 6 address.lap.toNat) ++
  "), " ++ toString sequence.channelsInUse ++ " channels in use"

/-- The sequence that is asked for; a map that leaves no channel is refused here. -/
def sequence (options : HopOptions) : Except String HopSequence :=
  let unrestricted := HopSequence.unrestricted options.address
  match options.map with
  | none => .ok unrestricted
  | some map =>
      match unrestricted.setMap map with
      | (restricted, .ok ()) => .ok restricted
      | (_, .error error) => .error ("Bad AFH map " ++ toString map ++ ": " ++ error.message)

def lines (options : HopOptions) (sequence : HopSequence) : List String :=
  heading sequence ::
    (List.range options.count.toNat).map fun slot =>
      line sequence (clockOf options.clock slot)

def script (options : HopOptions) : Script Unit := do
  match sequence options with
  | .error message => throw { message }
  | .ok sequence => (lines options sequence).forM Script.print

end Piconet.CommandLine.HopTable
