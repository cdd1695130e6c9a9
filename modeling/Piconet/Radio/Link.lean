import Piconet.Radio.Fault
import Piconet.Radio.Request
import Piconet.Text.Hex

/-!
# The link to a radio

Everything that passes between this program and a radio is an event on their
link.  The radio's part of a conversation is given beforehand, as the replies
to the control transfers in order; where they end, every transfer succeeds
without data.  The link keeps a log of the events, so that what a conversation
did can be read off it.
-/

namespace Piconet.Radio

/-- What one transfer brought: data, or the way in which it failed. -/
abbrev Reply := Except TransferError (List UInt8)

instance : DecidableEq Reply
  | .ok first, .ok second => decidable_of_iff (first = second) ⟨congrArg _, Except.ok.inj⟩
  | .error first, .error second =>
      decidable_of_iff (first = second) ⟨congrArg _, Except.error.inj⟩
  | .ok _, .error _ | .error _, .ok _ => isFalse nofun

inductive Stage where
  | openDevice
  | activeConfiguration
  | detachKernelDriver
  | setConfiguration
  | claimInterface
  deriving DecidableEq, Repr

def Stage.name : Stage → String
  | openDevice => "open"
  | activeConfiguration => "active_configuration"
  | detachKernelDriver => "detach_kernel_driver"
  | setConfiguration => "set_configuration"
  | claimInterface => "claim_interface"

def Stage.text (stage : Stage) : String :=
  match stage with
  | openDevice | activeConfiguration => stage.name
  | detachKernelDriver | claimInterface => stage.name ++ " 0"
  | setConfiguration => stage.name ++ " 1"

inductive Event where
  | opening (stage : Stage)
  | openQueue (endpoint : UInt8)
  | write (request : Request) (value : UInt16) (data : List UInt8)
  | read (request : Request) (length : Nat)
  | submit (length : Nat)
  /-- The request at the head of the queue has completed. -/
  | complete (reply : Reply)
  | cancel
  deriving DecidableEq, Repr

/-- Whether an event comes from this side of the link. -/
def Event.isOutgoing : Event → Bool
  | complete _ => false
  | _ => true

def Event.text : Event → String
  | opening stage => stage.text
  | openQueue endpoint => "bulk_queue " ++ toString endpoint
  | write request value data =>
      "out " ++ toString request.number ++ " " ++ toString value ++
        (if data = [] then "" else " " ++ String.ofList (Text.Hex.ofBytes data))
  | read request length =>
      "in " ++ toString request.number ++ " 0 " ++ toString length
  | submit length => "bulk_submit " ++ toString length
  | complete _ => "bulk_complete"
  | cancel => "bulk_cancel"

structure Link where
  /-- The replies to the control transfers to come. -/
  replies : List Reply := []
  /-- What has passed, the latest in front. -/
  log : List Event := []
  deriving Repr

/-- What was asked of the other side, in order. -/
def Link.events (link : Link) : List Event :=
  (link.log.filter Event.isOutgoing).reverse

/-- Something that is done over a link and may end in a fault. -/
abbrev Conversation := ExceptT Fault (StateM Link)

def note (event : Event) : StateM Link Unit :=
  modify fun link => { link with log := event :: link.log }

def exchange (event : Event) : StateM Link Reply := fun link =>
  (link.replies.headD (.ok []), { replies := link.replies.tail, log := event :: link.log })

def transfer (event : Event) : Conversation (List UInt8) := do
  match ← exchange event with
  | .ok data => return data
  | .error cause => throw (.transfer cause)

def write (request : Request) (value : UInt16) (data : List UInt8) : Conversation Unit := do
  let _ ← transfer (.write request value data)

def read (request : Request) (length : Nat) : Conversation (List UInt8) :=
  transfer (.read request length)

def expect {α : Type} : Option α → Conversation α
  | some value => return value
  | none => throw .malformed

end Piconet.Radio
