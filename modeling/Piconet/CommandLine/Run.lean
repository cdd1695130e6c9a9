import Piconet.CommandLine.Follow
import Piconet.CommandLine.HopTable
import Piconet.CommandLine.Inventory

/-!
# Running a command line

The whole of a run as a function of the host's devices, the replies of the
radio, and the arguments.
-/

namespace Piconet.CommandLine

def versionLine : String :=
  "ubertooth-bin 0.1.0"

/-- Everything that a run depends on besides its arguments. -/
structure Surroundings where
  host : Radio.Host := {}
  /-- The replies to control transfers, in order. -/
  replies : List Radio.Reply := []
  /-- The completions of receive requests, in order; after them comes an interrupt. -/
  completions : List Radio.Reply := []
  /-- The completions of the requests that are cancelled in the end. -/
  leftovers : List Radio.Reply := []
  /-- The replies to commands of a session that are waited for, if an interrupt comes then. -/
  patience : Option Nat := none

def Invocation.script (surroundings : Surroundings) : Invocation → Script Unit
  | version => Script.print versionLine
  | help => pure ()
  | info serial => Inventory.script surroundings.host serial
  | hop options => HopTable.script options
  | follow serial options =>
      Follow.script surroundings.host serial surroundings.completions surroundings.leftovers
        surroundings.patience options

structure Report where
  ending : Ending
  /-- What the run complained of, if it did not succeed. -/
  complaint : Option String := none
  /-- The lines on standard output. -/
  printed : List String := []
  /-- What passed over the link to the radio. -/
  events : List Radio.Event := []

/-- The report of a command line that asks for nothing the program knows. -/
def Report.refused : Report where
  ending := .refusal
  complaint := some "unexpected or missing arguments"

def run (surroundings : Surroundings) (arguments : List String) : Report :=
  match Invocation.parse? arguments with
  | none => .refused
  | some invocation =>
      let (result, terminal) :=
        (invocation.script surroundings).run { link := { replies := surroundings.replies } }
      let printed := terminal.printed
      let events := terminal.link.events
      match result with
      | .ok () => { ending := .success, printed, events }
      | .error complaint =>
          { ending := complaint.ending, complaint := complaint.message, printed, events }

def Report.output (report : Report) : String :=
  String.join (report.printed.map (· ++ "\n"))

end Piconet.CommandLine
