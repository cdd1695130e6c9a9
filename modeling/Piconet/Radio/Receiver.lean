import Piconet.Capture
import Piconet.Radio.Control

/-!
# Receiving

A radio that streams records.  Requests for records are put into a queue and
complete one by one, each with the data of one transfer or with the failure of
it.  When receiving ends, the requests that are left are cancelled and waited
for, and the radio is told to stop.
-/

namespace Piconet.Radio

structure Receiver where
  radio : Radio
  deriving DecidableEq, Repr

/-- Why receiving did not start, with the radio in an unknown mode. -/
structure StartError where
  cause : Fault
  radio : Radio
  deriving DecidableEq, Repr

namespace StartError

def message (error : StartError) : String :=
  error.radio.model.text ++ " failed to change mode"

def details (error : StartError) : String :=
  "StateChangeError \x7b err: " ++ error.cause.details ++ ", radio_type: " ++
    error.radio.model.details ++ ", .. \x7d"

end StartError

def startReceiving (radio : Radio) : ExceptT StartError (StateM Link) Receiver :=
  ExceptT.adapt (fun cause => { cause, radio }) do
    radio.checkVersion
    writeValue .receiveSymbols 0
    return { radio }

namespace Receiver

def transferLength : Nat := 8 * Capture.recordLength

def pending (receiver : Receiver) : Nat :=
  receiver.radio.pending

def withPending (receiver : Receiver) (pending : Nat) : Receiver :=
  { radio := { receiver.radio with pending } }

def submit (receiver : Receiver) : StateM Link Receiver := do
  note (.submit transferLength)
  return receiver.withPending (receiver.pending + 1)

def capturesOf : Reply → Except Fault (List Capture)
  | .error cause => .error (.transfer cause)
  | .ok data =>
      match Capture.ofTransfer? data with
      | none => .error .malformed
      | some captures => .ok captures

/-- What the completion of a request leaves of a receiver, and the records that it brings. -/
def complete (receiver : Receiver) (reply : Reply) :
    Receiver × Except Fault (List Capture) :=
  (receiver.withPending (receiver.pending - 1), capturesOf reply)

/-- Takes the request at the head of the queue, which has completed with a reply. -/
def next (receiver : Receiver) (reply : Reply) :
    StateM Link (Receiver × Except Fault (List Capture)) := do
  note (.complete reply)
  return receiver.complete reply

/--
Takes completions for as long as requests are pending, whatever they bring.  The
replies are taken in order; where they end, a request completes as cancelled.
-/
def drain (receiver : Receiver) (completions : List Reply) : StateM Link Receiver := do
  if 0 < receiver.pending then
    let reply := completions.headD (.error .cancelled)
    note (.complete reply)
    drain (receiver.complete reply).1 completions.tail
  else
    return receiver
termination_by receiver.pending
decreasing_by
  rename_i waiting
  exact Nat.sub_one_lt_of_lt waiting

/-- The end of receiving: what is pending is cancelled and waited for. -/
def stop (receiver : Receiver) (completions : List Reply) : Conversation Radio := do
  note .cancel
  let drained ← receiver.drain completions
  Radio.stop
  return drained.radio

@[simp] theorem pending_withPending (receiver : Receiver) (pending : Nat) :
    (receiver.withPending pending).pending = pending :=
  rfl

end Receiver

end Piconet.Radio
