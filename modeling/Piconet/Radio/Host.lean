import Piconet.Radio.Basic
import Piconet.Radio.Link

/-!
# Finding and opening radios

A host knows its USB devices.  Those whose numbers belong to a radio can be
opened; opening asks for one step after another and ends at the first that
fails.
-/

namespace Piconet.Radio

structure Device where
  vendor : UInt16
  product : UInt16
  version : UInt16
  /-- The number of its active configuration. -/
  configuration : UInt8 := 1
  serial : Option String := none
  /-- The steps of opening that fail, with the words of the system. -/
  failures : List (Stage × String) := []
  deriving DecidableEq, Repr

structure Descriptor where
  device : Device
  model : Model
  deriving DecidableEq, Repr

namespace Descriptor

def unknownMessage : String :=
  "VID and PID don't match any Ubertooth"

def ofDevice? (device : Device) : Option Descriptor :=
  (Model.ofIds? device.vendor device.product).map fun model => { device, model }

def serial (descriptor : Descriptor) : Option String :=
  descriptor.device.serial

end Descriptor

inductive OpenError where
  | system (words : String)
  | noRadio
  deriving DecidableEq, Repr

def OpenError.message : OpenError → String
  | system words => words
  | noRadio => "No Ubertooth devices"

def receiveEndpoint : UInt8 := 0x82

/-- The steps of opening a device; only another configuration than the first is replaced. -/
def Device.stages (device : Device) : List Stage :=
  [.openDevice, .activeConfiguration] ++
    (if device.configuration = 1 then [] else [.detachKernelDriver, .setConfiguration]) ++
    [.claimInterface]

def Device.take (device : Device) (stage : Stage) : ExceptT OpenError (StateM Link) Unit := do
  note (.opening stage)
  match device.failures.lookup stage with
  | none => return ()
  | some words => throw (.system words)

def Descriptor.connect (descriptor : Descriptor) : ExceptT OpenError (StateM Link) Radio := do
  descriptor.device.stages.forM descriptor.device.take
  note (.openQueue receiveEndpoint)
  return { model := descriptor.model, version := descriptor.device.version }

/-- The USB devices of a host, or the words in which it refused to list them. -/
structure Host where
  devices : List Device := []
  refusal : Option String := none
  deriving DecidableEq, Repr

namespace Host

def radios (host : Host) : Except OpenError (List Descriptor) :=
  match host.refusal with
  | some words => .error (.system words)
  | none => .ok (host.devices.filterMap Descriptor.ofDevice?)

def connect (host : Host) : ExceptT OpenError (StateM Link) Radio := do
  match ← host.radios with
  | [] => throw .noRadio
  | descriptor :: _ => descriptor.connect

end Host

end Piconet.Radio
