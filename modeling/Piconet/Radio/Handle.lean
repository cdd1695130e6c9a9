import Piconet.Radio.Host
import Piconet.Radio.Operation
import Piconet.Radio.Receiver

/-!
# What a program holds of a radio

A program holds nothing, an idle radio, or one that streams records.  Steps
lead from one to another; a step that does not fit what is held changes nothing
and touches no radio.
-/

namespace Piconet.Radio

inductive Handle where
  | closed
  | idle (radio : Radio)
  | receiving (receiver : Receiver)
  deriving DecidableEq, Repr

inductive Step where
  /-- Lists the radios of the host. -/
  | list
  /-- Tells of each device of the host whether it is a radio. -/
  | identify
  /-- Drops what is held and opens the first radio. -/
  | openFirst
  | reset
  | startReceiving
  | submit
  | pending
  /-- Takes the request at the head of the queue, which completes as given. -/
  | next (completion : Reply)
  /-- The requests that are left complete as given, and as cancelled where this ends. -/
  | stopReceiving (completions : List Reply := [])
  | operate (operation : Operation)

inductive Outcome where
  /-- There is no radio. -/
  | noRadio
  /-- The radio is in another mode. -/
  | wrongMode
  | listed (radios : List Descriptor)
  | identified (devices : List (Option Descriptor))
  | opened (radio : Radio)
  | openFailed (error : OpenError)
  | startFailed (error : StartError)
  | pending (count : Nat)
  | completed (captures : Except Fault (List Capture)) (pending : Nat)
  | answered (answer : Answer)
  | failed (fault : Fault)

def Outcome.ofAnswer : Except Fault Answer → Outcome
  | .ok answer => answered answer
  | .error fault => failed fault

namespace Handle

def radio? : Handle → Option Radio
  | closed => none
  | idle radio => some radio
  | receiving receiver => some receiver.radio

def stepIdle (radio : Radio) : Step → StateM Link (Handle × Outcome)
  | .reset => do
      match ← reset.run with
      | .ok () => return (closed, .answered .done)
      | .error fault => return (closed, .failed fault)
  | .startReceiving => do
      match ← (startReceiving radio).run with
      | .ok receiver => return (receiving receiver, .answered .done)
      | .error error => return (idle error.radio, .startFailed error)
  | .operate operation => do
      return (idle radio, .ofAnswer (← (perform radio operation).run))
  | _ => return (idle radio, .wrongMode)

def stepReceiving (receiver : Receiver) : Step → StateM Link (Handle × Outcome)
  | .submit => do
      let next ← receiver.submit
      return (receiving next, .pending next.pending)
  | .pending => return (receiving receiver, .pending receiver.pending)
  | .next completion => do
      let (next, captures) ← receiver.next completion
      return (receiving next, .completed captures next.pending)
  | .stopReceiving completions => do
      match ← (receiver.stop completions).run with
      | .ok radio => return (idle radio, .answered .done)
      | .error fault => return (closed, .failed fault)
  | .operate operation => do
      return (receiving receiver, .ofAnswer (← (perform receiver.radio operation).run))
  | _ => return (receiving receiver, .wrongMode)

def step (host : Host) (handle : Handle) : Step → StateM Link (Handle × Outcome)
  | .list =>
      match host.radios with
      | .ok radios => return (handle, .listed radios)
      | .error error => return (handle, .openFailed error)
  | .identify =>
      return (handle, .identified (host.devices.map Descriptor.ofDevice?))
  | .openFirst => do
      match ← host.connect.run with
      | .ok radio => return (idle radio, .opened radio)
      | .error error => return (closed, .openFailed error)
  | other =>
      match handle with
      | closed => return (closed, .noRadio)
      | idle radio => stepIdle radio other
      | receiving receiver => stepReceiving receiver other

end Handle

end Piconet.Radio
