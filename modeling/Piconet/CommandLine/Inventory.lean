import Piconet.CommandLine.Terminal
import Piconet.Radio.Board
import Piconet.Radio.Host

/-!
# The inventory of radios

The `info` command opens one radio after another and prints what each tells
about itself.  What cannot be read is marked, and the next thing is asked for.
-/

namespace Piconet.CommandLine.Inventory

open Script

def serialOf (descriptor : Radio.Descriptor) : String :=
  descriptor.serial.getD "Unknown"

/-- A text that the radio gives, or the mark of one that it does not. -/
def retrieved {α : Type} (write : α → String) (conversation : Radio.Conversation α) :
    Script String := do
  match ← attempt conversation with
  | .ok value => return write value
  | .error _ => return "❌ Failed to retrieve"

def tell {α : Type} (label : String) (write : α → String)
    (conversation : Radio.Conversation α) : Script Unit := do
  print (label ++ ": " ++ (← retrieved write conversation))

def versionText (version : UInt16) : String :=
  let digit (position : UInt16) := toString ((version >>> position) &&& 0xf)
  digit 12 ++ digit 8 ++ "." ++ digit 4 ++ digit 0

def describe (serial : String) (radio : Radio) : Script Unit := do
  print ""
  print ("Found " ++ radio.model.text ++ ", USB serial " ++ serial)
  tell "Serial number" Radio.SerialNumber.text Radio.getSerial
  tell "Board ID" Radio.Board.text Radio.getBoard
  let revision ← retrieved id Radio.getRevision
  print ("Firmware revision: " ++ revision ++ " (API:" ++ versionText radio.version ++ ")")
  match radio.checkVersion with
  | .ok () => pure ()
  | .error fault => print ("    " ++ fault.message)
  tell "Compile info" id Radio.getBuildInfo
  tell "Part ID Number" Radio.PartNumber.text Radio.getPartNumber
  tell "Modulation" Radio.Modulation.text Radio.getModulation
  tell "Channel" (fun megahertz => toString megahertz ++ " MHz") Radio.getChannel
  tell "Clock" toString Radio.getClock

def visit (descriptor : Radio.Descriptor) : Script Unit := do
  let serial := serialOf descriptor
  match ← talk descriptor.connect.run with
  | .ok radio => describe serial radio
  | .error error =>
      print ("Couldn't open Ubertooth, serial " ++ serial ++ ": " ++ error.message)

def nothingFound : Option String → String
  | some serial => "Unable to locate Ubertooth with serial number " ++ serial
  | none => "Couldn't find any Ubertooth devices"

def script (host : Radio.Host) (serial : Option String) : Script Unit := do
  print "Binary release 0.1.0"
  match host.radios with
  | .error error => complain "Couldn't enumerate Ubertooth devices" error.message
  | .ok radios =>
      let chosen := radios.filter fun descriptor =>
        serial.all fun wanted => wanted = serialOf descriptor
      chosen.forM visit
      if chosen = [] then print (nothingFound serial)

end Piconet.CommandLine.Inventory
