import Piconet.CommandLine.Terminal
import Piconet.Proofs.Radio.Conversation

/-!
# What a script leaves behind

A script prints lines and lets events pass over its link.  What it leaves behind
is described by the terminal in the beginning and by these lines and events.
-/

namespace Piconet

def Command.event (command : Command) : Radio.Event :=
  .write command.encode.request command.encode.value command.encode.data

theorem Command.isControl_event (command : Command) : command.event.isControl = true :=
  rfl

namespace CommandLine

def Terminal.advanced (terminal : Terminal) (lines : List String)
    (events : List Radio.Event) : Terminal where
  link := terminal.link.passed events
  lines := lines.reverse ++ terminal.lines

theorem Terminal.advanced_advanced (terminal : Terminal) (lines others : List String)
    (events later : List Radio.Event) :
    (terminal.advanced lines events).advanced others later =
      terminal.advanced (lines ++ others) (events ++ later) := by
  rw [advanced, advanced, advanced, Radio.Link.passed_passed, List.reverse_append,
    List.append_assoc]

theorem Terminal.printed_advanced (terminal : Terminal) (lines : List String)
    (events : List Radio.Event) :
    (terminal.advanced lines events).printed = terminal.printed ++ lines := by
  rw [printed, advanced, List.reverse_append, List.reverse_reverse]
  rfl

namespace Script

theorem print_run (line : String) (terminal : Terminal) :
    (print line).run terminal = (.ok (), terminal.advanced [line] []) :=
  rfl

theorem forM_print_run (lines : List String) (terminal : Terminal) :
    (lines.forM print).run terminal = (.ok (), terminal.advanced lines []) := by
  induction lines generalizing terminal with
  | nil => rfl
  | cons line rest ih =>
      rw [List.forM, Radio.run_bind, print_run]
      exact (ih (terminal.advanced [line] [])).trans
        (congrArg (Except.ok (), ·) (terminal.advanced_advanced [line] rest [] []))

theorem attempt_run {α : Type} (conversation : Radio.Conversation α) (terminal : Terminal) :
    (attempt conversation).run terminal =
      (.ok (conversation.run terminal.link).1,
        { terminal with link := (conversation.run terminal.link).2 }) :=
  rfl

/-- A command that is sent leaves its event behind, whatever becomes of it. -/
theorem attempt_send_run (command : Command) (terminal : Terminal) :
    (attempt (Radio.send command)).run terminal =
      (.ok (Radio.acknowledged terminal.link.reply),
        terminal.advanced [] [command.event]) := by
  rw [attempt_run, Radio.send, Radio.write_run, Radio.Link.after_eq_passed]
  · rfl
  · rfl

theorem demand_run {α : Type} (doing : String) (conversation : Radio.Conversation α)
    (terminal : Terminal) :
    (demand doing conversation).run terminal =
      ((conversation.run terminal.link).1.mapError fun fault =>
          { message := doing ++ ": " ++ fault.message },
        { terminal with link := (conversation.run terminal.link).2 }) := by
  rw [demand, Radio.run_bind, attempt_run]
  cases (conversation.run terminal.link).1 with
  | ok value => rfl
  | error fault => rfl

theorem isOk_demand {α : Type} (doing : String) (conversation : Radio.Conversation α)
    (terminal : Terminal) :
    ((demand doing conversation).run terminal).1.isOk =
      (conversation.run terminal.link).1.isOk := by
  rw [demand_run]
  cases (conversation.run terminal.link).1 with
  | ok value => rfl
  | error fault => rfl

/-- A transfer that is demanded takes a reply, which says whether the script goes on. -/
theorem isOk_bind_demand {conversation : Radio.Conversation Unit} {event : Radio.Event}
    (sends : Radio.Sends conversation event) (doing : String) (next : Unit → Script Unit)
    (terminal : Terminal) :
    ((demand doing conversation >>= next).run terminal).1.isOk =
      (terminal.link.reply.isOk &&
        ((next ()).run { terminal with link := terminal.link.after event }).1.isOk) := by
  rw [Radio.run_bind, demand_run, sends]
  cases terminal.link.reply with
  | ok data => rfl
  | error cause => rfl

section Leaves

variable {α : Type} {required never : Terminal → Prop} {before : Radio.Link → Prop}

/-- Talking comes to an end, whatever the conversation came to. -/
theorem talk_leaves (conversation : StateM Radio.Link α) :
    Radio.Leaves required (talk conversation) (fun _ _ => True) never :=
  fun _ _ => trivial

theorem attempt_leaves (conversation : Radio.Conversation α) :
    Radio.Leaves required (attempt conversation) (fun _ _ => True) never :=
  talk_leaves conversation.run

theorem print_leaves (line : String) :
    Radio.Leaves required (print line) (fun _ _ => True) never :=
  fun _ _ => trivial

/-- What a conversation leaves behind in any case is there after the talk. -/
theorem talk_leaves_kept {Error : Type} {step : ExceptT Error (StateM Radio.Link) α}
    {kept : Radio.Link → Prop} (left : Radio.Leaves before step (fun _ => kept) kept) :
    Radio.Leaves (fun terminal : Terminal => before terminal.link)
      (talk step.run) (fun _ terminal => kept terminal.link) never :=
  fun _ holds => left.either holds

theorem demand_leaves {conversation : Radio.Conversation α} {success : α → Radio.Link → Prop}
    {failure : Radio.Link → Prop} (doing : String)
    (left : Radio.Leaves before conversation success failure) :
    Radio.Leaves (fun terminal : Terminal => before terminal.link)
      (demand doing conversation) (fun value terminal => success value terminal.link)
      fun terminal => failure terminal.link := by
  intro terminal holds
  have reached := left terminal.link holds
  rw [demand_run]
  revert reached
  match conversation.run terminal.link with
  | (.ok value, later) => exact id
  | (.error cause, later) => exact id

end Leaves

end Script

end CommandLine

end Piconet
