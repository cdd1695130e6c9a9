import Piconet.Address
import Piconet.ChannelMap
import Piconet.CommandLine.Options
import Piconet.Session
import Piconet.Text.Decimal

/-!
# Invocations

What a command line asks for.  A command line that asks for nothing the program
knows is refused as a whole.
-/

namespace Piconet.CommandLine

structure HopOptions where
  address : Address
  clock : UInt32
  count : UInt32
  map : Option ChannelMap
  deriving DecidableEq

structure FollowOptions where
  address : Address
  map : Option ChannelMap
  settings : Settings
  /-- The frequency to stay on while not hopping, in megahertz. -/
  channel : UInt16
  /-- The number of packets after which to stop. -/
  limit : Option Nat
  /-- The number of receive requests to keep in the queue. -/
  depth : Nat
  deriving DecidableEq

inductive Invocation where
  | version
  /-- Asks how the program is used.  The text that tells so is not kept here. -/
  | help
  /-- Tells about the radios of the host, or about the one with a serial number. -/
  | info (serial : Option String)
  | hop (options : HopOptions)
  | follow (serial : Option String) (options : FollowOptions)
  deriving DecidableEq

namespace Invocation

/-- A number that fits a word of `bits` bits; minus zero is one. -/
def word? (bits : Nat) (text : List Char) : Option Nat := do
  let value ← Text.Decimal.integer? text
  if 0 ≤ value ∧ value.toNat < 1 <<< bits then some value.toNat else none

def count? (text : List Char) : Option Nat := do
  let value ← Text.Decimal.natural? text
  if value < UInt64.size then some value else none

/-- The value of an option that may be missing; one that cannot be read refuses the whole. -/
def optional {α : Type} (read : List Char → Option α) (given : Given) (long : String) :
    Option (Option α) :=
  match given.value? long with
  | none => some none
  | some text => (read text).map some

def withDefault {α : Type} (read : List Char → Option α) (given : Given) (long : String)
    (usual : α) : Option α :=
  (optional read given long).map (·.getD usual)

def required {α : Type} (read : List Char → Option α) (given : Given) (long : String) :
    Option α :=
  (given.value? long).bind read

def address? (text : List Char) : Option Address :=
  (Address.parseChars text).toOption

def map? (text : List Char) : Option ChannelMap :=
  (ChannelMap.parseChars text).toOption

def hopFlags : List Flag :=
  [{ long := "address", short := some 'a' }, { long := "clock", short := some 'c' },
   { long := "count", short := some 'n' }, { long := "afh-map", short := some 'm' }]

def hopOptions? (given : Given) : Option HopOptions := do
  return {
    address := ← required address? given "address"
    clock := UInt32.ofNat (← withDefault (word? 32) given "clock" 0)
    count := UInt32.ofNat (← withDefault (word? 32) given "count" 32)
    map := ← optional map? given "afh-map" }

def followFlags : List Flag :=
  [{ long := "address", short := some 'a' }, { long := "max-ac-errors", short := some 'e' },
   { long := "no-trim", takesValue := false }, { long := "afh-map", short := some 'm' },
   { long := "clock-offset", short := some 'o' }, { long := "channel", short := some 'c' },
   { long := "lost-after" }, { long := "count", short := some 'n' }, { long := "depth" }]

def followOptions? (given : Given) : Option FollowOptions := do
  let usual : Settings := {}
  let clockOffset ← optional (word? 32) given "clock-offset"
  let lostAfter ← withDefault (word? 32) given "lost-after" usual.lostAfter.toNat
  return {
    address := ← required address? given "address"
    map := ← optional map? given "afh-map"
    settings := {
      tolerance := ← withDefault (word? 32) given "max-ac-errors" usual.tolerance
      trims := !given.has "no-trim"
      clockOffset := clockOffset.map UInt32.ofNat
      lostAfter := UInt32.ofNat lostAfter }
    channel := UInt16.ofNat (← withDefault (word? 16) given "channel" 2441)
    limit := ← optional count? given "count"
    depth := ← withDefault count? given "depth" 16 }

def helpFlag : Flag :=
  { long := "help", short := some 'h', takesValue := false, answersAtOnce := true }

def globalFlags : List Flag :=
  [helpFlag, { long := "serial", short := some 'd' },
   { long := "version", short := some 'V', takesValue := false, answersAtOnce := true }]

/-- A command with its options, which nothing may follow. -/
def withOptions? (flags : List Flag) (read : Given → Option Invocation)
    (words : List (List Char)) : Option Invocation := do
  match ← collect (helpFlag :: flags) [] words with
  | (given, []) => if given.has helpFlag.long then some help else read given
  | _ => none

def commandNames : List String := ["info", "hop", "rx", "help"]

def helpOn? : List (List Char) → Option Invocation
  | [] => some help
  | [name] => if String.ofList name ∈ commandNames then some help else none
  | _ => none

def command? (serial : Option String) (name : List Char) (words : List (List Char)) :
    Option Invocation :=
  if name = "info".toList then withOptions? [] (fun _ => some (info serial)) words
  else if name = "hop".toList then
    withOptions? hopFlags (fun given => (hopOptions? given).map hop) words
  else if name = "rx".toList then
    withOptions? followFlags (fun given => (followOptions? given).map (follow serial)) words
  else if name = "help".toList then helpOn? words
  else none

def parse? (arguments : List String) : Option Invocation := do
  let (given, words) ← collect globalFlags [] (arguments.map String.toList)
  if given.has "version" then some version
  else if given.has helpFlag.long then some help
  else
    match words with
    | [] => none
    | name :: rest => command? ((given.value? "serial").map String.ofList) name rest

end Invocation

end Piconet.CommandLine
