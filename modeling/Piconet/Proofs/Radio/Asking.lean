import Piconet.Proofs.Radio.Conversation
import Piconet.Radio.Operation

/-!
# Asking a radio once

Most conversations are one control transfer, and what they come to is read off its
reply: a transfer that failed is their failure, and data either has the form that is
expected or does not.  This holds of reading and of writing, and stays true of
whatever is made of the answer.
-/

namespace Piconet.Radio

def understood {Result : Type} (answer : List UInt8 → Option Result) : Reply → Except Fault Result
  | .ok data => (answer data).elim (.error .malformed) .ok
  | .error cause => .error (.transfer cause)

/-- A conversation that is one control transfer, after which it depends on the reply alone. -/
def Asks {Result : Type} (conversation : Conversation Result) (event : Event)
    (answer : List UInt8 → Option Result) : Prop :=
  ∀ link, conversation.run link = (understood answer link.reply, link.after event)

theorem read_asks (request : Request) (length : Nat) :
    Asks (read request length) (.read request length) some := by
  intro link
  rw [read, transfer_run]
  cases link.reply with
  | ok data => rfl
  | error cause => rfl

theorem Sends.asks {conversation : Conversation Unit} {event : Event}
    (sends : Sends conversation event) : Asks conversation event fun _ => some () := by
  intro link
  rw [sends]
  cases link.reply with
  | ok data => rfl
  | error cause => rfl

namespace Asks

variable {Result Other : Type} {conversation : Conversation Result} {event : Event}
  {answer : List UInt8 → Option Result}

/-- An answer may be refused that does not have its form. -/
theorem expect (asks : Asks conversation event answer) (form : Result → Option Other) :
    Asks (conversation >>= fun result => Radio.expect (form result)) event
      fun data => (answer data).bind form := by
  intro link
  rw [run_bind, asks]
  cases link.reply with
  | error cause => rfl
  | ok data =>
      dsimp only [understood]
      cases answer data with
      | none => rfl
      | some result =>
          dsimp only [Option.elim, Option.bind]
          cases form result with
          | none => rfl
          | some other => rfl

theorem map (asks : Asks conversation event answer) (change : Result → Other) :
    Asks (conversation >>= fun result => Pure.pure (change result)) event
      fun data => (answer data).map change := by
  intro link
  rw [run_bind, asks]
  cases link.reply with
  | error cause => rfl
  | ok data =>
      dsimp only [understood]
      cases answer data with
      | none => rfl
      | some result => rfl

end Asks

theorem readByte_asks (request : Request) :
    Asks (readByte request) (.read request 1) List.head? :=
  (read_asks request 1).expect List.head?

theorem readNumber_asks (request : Request) (width : Nat) :
    Asks (readNumber request width) (.read request width)
      fun data => if data.length = width then some (ByteOrder.ofLittle data) else none :=
  (read_asks request width).expect _

end Piconet.Radio
