import Piconet.Radio.Control

/-!
# Scripts

A script is what a command does: it prints lines, talks over the link to a
radio, and may end with a complaint.  The lines that were printed before a
complaint stay.  Standard output is taken to work, so that printing does not fail.
-/

namespace Piconet.CommandLine

inductive Ending where
  | success
  | failure
  /-- The command line was refused. -/
  | refusal
  /-- The arithmetic of the trim loop overflowed. -/
  | abortion
  deriving DecidableEq, Repr

def Ending.code : Ending → UInt8
  | success => 0
  | failure => 1
  | refusal => 2
  | abortion => 101

structure Complaint where
  ending : Ending := .failure
  message : String
  deriving DecidableEq, Repr

structure Terminal where
  link : Radio.Link := {}
  /-- The lines that were printed, the latest in front. -/
  lines : List String := []

def Terminal.printed (terminal : Terminal) : List String :=
  terminal.lines.reverse

abbrev Script := ExceptT Complaint (StateM Terminal)

namespace Script

def print (line : String) : Script Unit :=
  modify fun terminal => { terminal with lines := line :: terminal.lines }

def talk {α : Type} (conversation : StateM Radio.Link α) : Script α :=
  ExceptT.lift fun terminal =>
    let (result, link) := conversation terminal.link
    (result, { terminal with link })

/-- A conversation whose faults do not end the script. -/
def attempt {α : Type} (conversation : Radio.Conversation α) : Script (Except Radio.Fault α) :=
  talk conversation.run

def complain {α : Type} (doing cause : String) : Script α :=
  throw { message := doing ++ ": " ++ cause }

/-- A conversation whose faults end the script. -/
def demand {α : Type} (doing : String) (conversation : Radio.Conversation α) : Script α := do
  match ← attempt conversation with
  | .ok result => return result
  | .error fault => complain doing fault.message

end Script

end Piconet.CommandLine
