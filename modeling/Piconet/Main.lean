import Piconet.CommandLine.Run

/-!
# The program

Runs the command line.  This program has no access to the USB bus, so its host
has no devices; the commands that need none work as they are.
-/

open Piconet.CommandLine

def main (arguments : List String) : IO UInt32 := do
  let report := run {} arguments
  IO.print report.output
  if let some complaint := report.complaint then
    IO.eprintln ("Error: " ++ complaint)
  return report.ending.code.toUInt32
