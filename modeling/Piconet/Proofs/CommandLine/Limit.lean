import Mathlib.Data.List.Infix
import Piconet.Proofs.CommandLine.Watch
import Piconet.Proofs.Session.Timestamps

/-!
# How many packets a watch prints

A watch looks whether it has printed the packets that were asked for only after it
has printed one.  It prints the first of the packets that the session finds, up to
the number asked for; where none at all was asked for, it still prints the first
one.  An interruption while a reply is waited for can only leave some of the last
ones out.
-/

namespace Piconet.CommandLine

open Radio

/-- A terminal with some lines and behind them the first of some packets. -/
def Terminal.ShowsFirst (terminal : Terminal) (lines : List String)
    (packets : List Packet) : Prop :=
  ∃ printed, printed <+: packets ∧ terminal.printed = lines ++ printed.map Packet.text

namespace Terminal

variable {terminal : Terminal} {lines : List String} {first second : List Packet}

theorem showsFirst_of_none (same : terminal.printed = lines) (packets : List Packet) :
    terminal.ShowsFirst lines packets :=
  ⟨[], List.nil_prefix, same.trans (List.append_nil lines).symm⟩

theorem showsFirst_of_all (same : terminal.printed = lines ++ first.map Packet.text) :
    terminal.ShowsFirst lines first :=
  ⟨first, List.prefix_rfl, same⟩

theorem ShowsFirst.mono (shows : terminal.ShowsFirst lines first) (more : first <+: second) :
    terminal.ShowsFirst lines second := by
  obtain ⟨printed, starts, same⟩ := shows
  exact ⟨printed, starts.trans more, same⟩

/-- The first packets behind those that are all there. -/
theorem ShowsFirst.behind (shows : terminal.ShowsFirst (lines ++ first.map Packet.text) second) :
    terminal.ShowsFirst lines (first ++ second) := by
  obtain ⟨printed, starts, same⟩ := shows
  refine ⟨first ++ printed, (List.prefix_append_right_inj first).2 starts, ?_⟩
  rw [same, List.map_append, List.append_assoc]

end Terminal

namespace Follow

open Script Session

/-! ## One record -/

variable {lines : List String} {never : Terminal → Prop}

/-- What is sent prints nothing, and leaves the session and the count as they are. -/
theorem sendAll_prints (watch : Watch) (commands : List Command) :
    Leaves (fun terminal => terminal.printed = lines) (sendAll watch commands)
      (fun sent terminal => terminal.printed = lines ∧ sent.1.session = watch.session ∧
        sent.1.packets = watch.packets) never := by
  induction commands generalizing watch with
  | nil => exact Leaves.pure fun _ same => ⟨same, rfl, rfl⟩
  | cons command rest ih =>
      have quiet : Leaves (fun terminal => terminal.printed = lines)
          (attempt (Radio.send command)) (fun _ terminal => terminal.printed = lines) never :=
        fun _ same => same
      rw [sendAll]
      refine Leaves.bind quiet fun _ => ?_
      cases watch.patience with
      | none => exact ih watch
      | some patience =>
          cases patience with
          | zero => exact Leaves.pure fun _ same => ⟨same, rfl, rfl⟩
          | succ patience => exact ih _

/-- A record whose packet is not the last one leaves its packet behind, and the others the
first of it at most. -/
theorem take_prints (limit : Option Nat) (watch : Watch) {capture : Capture}
    {processed : Session} {packet : Option Packet}
    (done : watch.session.process capture = .ok (processed, packet)) :
    Leaves (fun terminal => terminal.printed = lines) (take limit watch capture)
      (fun taken terminal =>
        if taken.2 then terminal.ShowsFirst lines packet.toList
        else terminal.printed = lines ++ packet.toList.map Packet.text ∧
          taken.1.session = processed.drain.1 ∧
          taken.1.packets = watch.packets + packet.toList.length ∧
          (packet.isSome && enough limit (watch.packets + packet.toList.length)) = false)
      never := by
  rw [take, done]
  dsimp only
  refine Leaves.bind (sendAll_prints _ _) fun sent => ?_
  obtain ⟨restarted, interrupted⟩ := sent
  cases interrupted with
  | true => exact Leaves.pure fun _ sent => Terminal.showsFirst_of_none sent.1 _
  | false =>
      cases packet with
      | none =>
          refine Leaves.pure fun _ sent => ⟨?_, sent.2.1, sent.2.2, rfl⟩
          exact sent.1.trans (List.append_nil lines).symm
      | some packet =>
          intro terminal sent
          have whole : lines ++ [packet.text] = lines ++ (some packet).toList.map Packet.text := rfl
          have shown : Leaves (fun terminal => terminal.printed = lines) (print packet.text)
              (fun _ terminal => terminal.printed = lines ++ [packet.text]) never := by
            rintro before rfl
            exact before.printed_advanced [packet.text] []
          refine Leaves.bind shown (fun _ => Leaves.bind (sendAll_prints _ _) fun later => ?_)
            terminal sent.1
          refine Leaves.pure fun _ told => ?_
          rw [whole] at told
          cases final : later.2 || limit.any (· ≤ watch.packets + 1) with
          | true => exact Terminal.showsFirst_of_all told.1
          | false =>
              refine ⟨told.1, told.2.1.trans sent.2.1, told.2.2, ?_⟩
              exact (Bool.or_eq_false_iff.1 final).2

/-! ## The records of transfers -/

variable {limit : Option Nat} {yields : List Yield} {ending : Except Overflow (Session × Bool)}

theorem packet_isPrefix_of_gather {packets : Nat} {session processed : Session}
    {capture : Capture} {packet : Option Packet} {rest : List Capture}
    (done : session.process capture = .ok (processed, packet))
    (gathered : gather limit packets session (capture :: rest) = (yields, ending)) :
    packet.toList <+: Yield.packets yields := by
  cases final : packet.isSome && enough limit (packets + packet.toList.length) with
  | true =>
      rw [gather_cons_of_last done final] at gathered
      cases gathered
      rw [Yield.packets_cons]
      exact List.prefix_append _ _
  | false =>
      rw [gather_cons_of_few done final] at gathered
      cases gathered
      rw [Yield.packets_cons]
      exact List.prefix_append _ _

/-- Further records take back no packet. -/
theorem packets_gather_isPrefix (limit : Option Nat) (packets : Nat) (session : Session)
    (captures rest : List Capture) :
    Yield.packets (gather limit packets session captures).1 <+:
      Yield.packets (gather limit packets session (captures ++ rest)).1 := by
  obtain ⟨yields, ending, gathered⟩ : ∃ yields ending,
      gather limit packets session captures = (yields, ending) := ⟨_, _, rfl⟩
  match ending with
  | .error overflow => rw [gather_append_of_over gathered rfl, gathered]
  | .ok (last, true) => rw [gather_append_of_over gathered rfl, gathered]
  | .ok (last, false) =>
      rw [gather_append_of_few gathered, gathered, Yield.packets_append]
      exact List.prefix_append _ _

theorem takeAll_prints {watch : Watch} {captures : List Capture}
    (gathered : gather limit watch.packets watch.session captures = (yields, ending)) :
    Leaves (fun terminal => terminal.printed = lines) (takeAll limit watch captures)
      (fun taken terminal =>
        if taken.2 then terminal.ShowsFirst lines (Yield.packets yields)
        else terminal.printed = lines ++ linesOf yields ∧
          taken.1.packets = watch.packets + (Yield.packets yields).length ∧
          ending = .ok (taken.1.session, false))
      fun terminal => terminal.ShowsFirst lines (Yield.packets yields) := by
  induction captures generalizing watch yields lines with
  | nil =>
      cases gathered
      exact Leaves.pure fun _ same => ⟨same.trans (List.append_nil lines).symm, rfl, rfl⟩
  | cons capture rest ih =>
      rw [takeAll]
      cases done : watch.session.process capture with
      | error overflow =>
          have stops : Leaves (fun terminal => terminal.printed = lines)
              (take limit watch capture) (fun _ _ => False)
              fun terminal => terminal.ShowsFirst lines (Yield.packets yields) := by
            intro terminal same
            rw [take_run_of_error done]
            exact Terminal.showsFirst_of_none same _
          exact Leaves.bind stops fun _ _ impossible => impossible.elim
      | ok outcome =>
          obtain ⟨processed, packet⟩ := outcome
          have front := packet_isPrefix_of_gather done gathered
          refine Leaves.bind (take_prints limit watch done) fun taken => ?_
          obtain ⟨next, finished⟩ := taken
          cases finished with
          | true => exact Leaves.pure fun _ shows => shows.mono front
          | false =>
              rintro terminal ⟨shown, session, counted, few⟩
              dsimp only at session counted
              rw [gather_cons_of_few done few, ← session, ← counted] at gathered
              obtain ⟨rfl, rfl⟩ := Prod.mk.inj gathered
              rw [Yield.packets_cons]
              refine (ih rfl).imp (fun taken later => ?_) (fun later => Terminal.ShowsFirst.behind)
                terminal shown
              dsimp only
              split
              · exact Terminal.ShowsFirst.behind
              · rintro ⟨shown, total, reached⟩
                refine ⟨?_, ?_, reached⟩
                · rw [shown, List.append_assoc, linesOf, linesOf, Yield.packets_cons,
                    List.map_append]
                · rw [total, counted, List.length_append, Nat.add_assoc]

/-- Filling the queue prints nothing. -/
theorem refill_prints (depth : Nat) (watch : Watch) :
    Leaves (fun terminal => terminal.printed = lines) (refill depth watch)
      (fun filled terminal => terminal.printed = lines ∧ filled = watch.filled depth) never := by
  intro terminal same
  rw [refill_run]
  exact ⟨same, rfl⟩

/-- However its waiting is interrupted, a watch prints the first of the packets that it gathers. -/
theorem watchAll_prints {watch : Watch} (depth : Nat) {completions : List Radio.Reply}
    (gathered : gather limit watch.packets watch.session (completions.flatMap received) =
      (yields, ending)) :
    Leaves (fun terminal => terminal.printed = lines) (watchAll depth limit watch completions)
      (fun _ terminal => terminal.ShowsFirst lines (Yield.packets yields))
      fun terminal => terminal.ShowsFirst lines (Yield.packets yields) := by
  induction completions generalizing watch yields lines with
  | nil =>
      rw [watchAll]
      exact (refill_prints depth watch).imp
        (fun _ _ filled => Terminal.showsFirst_of_none filled.1 _)
        fun _ => id
  | cons completion rest ih =>
      rw [List.flatMap_cons] at gathered
      have front := packets_gather_isPrefix limit watch.packets watch.session (received completion)
        (rest.flatMap received)
      rw [gathered] at front
      rw [watchAll_cons]
      refine Leaves.bind (refill_prints depth watch) fun filled => ?_
      rintro terminal ⟨same, rfl⟩
      have completed : Leaves (fun terminal => terminal.printed = lines)
          (talk (note (.complete completion))) (fun _ terminal => terminal.printed = lines)
          fun terminal => terminal.ShowsFirst lines (Yield.packets yields) := fun _ same => same
      have taken := @takeAll_prints lines limit _ _ (watch.filled depth).relieved (received completion) rfl
      refine Leaves.bind completed (fun _ => Leaves.bind
        (taken.imp (fun _ _ => id) fun _ shows => shows.mono front) fun outcome => ?_) terminal same
      obtain ⟨next, finished⟩ := outcome
      cases finished with
      | true => exact Leaves.pure fun _ shows => shows.mono front
      | false =>
          rintro later ⟨shown, counted, reached⟩
          have head : gather limit watch.packets watch.session (received completion) =
              ((gather limit watch.packets watch.session (received completion)).1,
                .ok (next.session, false)) := Prod.ext rfl reached
          have total : next.packets = watch.packets + (Yield.packets
              (gather limit watch.packets watch.session (received completion)).1).length := counted
          rw [gather_append_of_few head, ← total] at gathered
          obtain ⟨rfl, rfl⟩ := Prod.mk.inj gathered
          rw [Yield.packets_append]
          exact (ih rfl).imp (fun _ _ => Terminal.ShowsFirst.behind)
            (fun _ => Terminal.ShowsFirst.behind) later shown

/-! ## Up to the limit -/

/-- The limit is asked about behind a packet only, where none is as good as one. -/
theorem gather_max_one (wanted packets : Nat) (session : Session) (captures : List Capture) :
    gather (some wanted) packets session captures =
      gather (some (max 1 wanted)) packets session captures := by
  have asked (count : Nat) (packet : Option Packet) :
      (packet.isSome && enough (some wanted) (count + packet.toList.length)) =
        (packet.isSome && enough (some (max 1 wanted)) (count + packet.toList.length)) := by
    cases packet with
    | none => rfl
    | some packet =>
        have same : wanted ≤ count + 1 ↔ max 1 wanted ≤ count + 1 := by omega
        exact decide_eq_decide.2 same
  induction captures generalizing packets session with
  | nil => rfl
  | cons capture rest ih =>
      cases done : session.process capture with
      | error overflow => rw [gather_cons_of_error done, gather_cons_of_error done]
      | ok outcome =>
          cases final : outcome.2.isSome &&
              enough (some wanted) (packets + outcome.2.toList.length) with
          | true =>
              rw [gather_cons_of_last done final, gather_cons_of_last done (asked _ _ ▸ final)]
          | false =>
              rw [gather_cons_of_few done final, gather_cons_of_few done (asked _ _ ▸ final), ih]

/-- The packets that a limited watch gathers are the first ones, and the first one in any case. -/
theorem exists_gather (wanted : Nat) (session : Session) (captures : List Capture) :
    ∃ yields ending, gather (some wanted) 0 session captures = (yields, ending) ∧
      Yield.packets yields = (session.packetsOf captures).1.take (max 1 wanted) := by
  have one : (some (max 1 wanted) : Option Nat) ≠ some 0 := fun none => by
    have zero := Option.some.inj none
    omega
  obtain ⟨ending, gathered, -, -⟩ := gather_eq one session captures
  rw [← gather_max_one] at gathered
  refine ⟨_, ending, gathered, ?_⟩
  rw [packets_seenOf, packetsOf_eq]
  rfl

variable {options : FollowOptions} {wanted : Nat}

theorem printed_of_calm (limited : options.limit = some wanted) (receiver : Receiver)
    (session : Session) (completions : List Reply) (terminal : Terminal) :
    ((follow options completions none receiver session).run terminal).2.printed =
      terminal.printed ++ ((session.packetsOf (completions.flatMap received)).1.take
        (max 1 wanted)).map Packet.text := by
  obtain ⟨yields, ending, gathered, first⟩ :=
    exists_gather wanted session (completions.flatMap received)
  let watch : Watch := { receiver, session }
  obtain ⟨last, events, done, -⟩ := @watchAll_run _ _ _ watch rfl (max 1 options.depth) _ gathered
    terminal
  rw [follow, limited, done, Terminal.printed_advanced, linesOf, first]

theorem follow_showsFirst (limited : options.limit = some wanted) (receiver : Receiver)
    (session : Session) (completions : List Reply) (patience : Option Nat) (terminal : Terminal) :
    ((follow options completions patience receiver session).run terminal).2.ShowsFirst
      terminal.printed
      ((session.packetsOf (completions.flatMap received)).1.take (max 1 wanted)) := by
  obtain ⟨yields, ending, gathered, first⟩ :=
    exists_gather wanted session (completions.flatMap received)
  let watch : Watch := { receiver, session, patience }
  have prints := @watchAll_prints terminal.printed _ _ _ watch (max 1 options.depth) _ gathered
  rw [follow, limited, ← first]
  exact prints.either rfl

/--
A watch that is asked for some number of packets prints the first packets that the
session finds, up to this number and at least one, and all of them unless it is
interrupted while it waits for a reply.  It keeps to the number unless this is zero
and there is a packet to print.
-/
theorem printed_le_limit_iff (limited : options.limit = some wanted) (receiver : Receiver)
    (session : Session) (completions : List Reply) (patience : Option Nat) (terminal : Terminal) :
    let found := (session.packetsOf (completions.flatMap received)).1
    ∃ printed,
      ((follow options completions patience receiver session).run terminal).2.printed =
        terminal.printed ++ printed.map Packet.text ∧
      printed <+: found.take (max 1 wanted) ∧
      (patience = none → printed = found.take (max 1 wanted)) ∧
      (printed.length ≤ wanted ↔ wanted ≠ 0 ∨ printed = []) := by
  intro found
  obtain ⟨printed, lines, starts, whole⟩ : ∃ printed,
      ((follow options completions patience receiver session).run terminal).2.printed =
        terminal.printed ++ printed.map Packet.text ∧
      printed <+: found.take (max 1 wanted) ∧
      (patience = none → printed = found.take (max 1 wanted)) := by
    cases patience with
    | none =>
        exact ⟨_, printed_of_calm limited receiver session completions terminal,
          List.prefix_rfl, fun _ => rfl⟩
    | some patience =>
        obtain ⟨printed, starts, lines⟩ :=
          follow_showsFirst limited receiver session completions (some patience) terminal
        exact ⟨printed, lines, starts, nofun⟩
  have short : printed.length ≤ max 1 wanted :=
    starts.length_le.trans (List.length_take_le _ _)
  refine ⟨printed, lines, starts, whole, ?_⟩
  rw [← List.length_eq_zero_iff]
  omega

def inquiryOptions (wanted : Nat) : FollowOptions where
  address := .ofNat 0x9e8b33
  map := none
  settings := { trims := false }
  channel := 2441
  limit := some wanted
  depth := 16

theorem packetsOf_inquiry {session : Session} (follows : session.address = .ofNat 0x9e8b33)
    (idle : session.settings = { trims := false }) (rest : List Capture) :
    ∃ packet others, (session.packetsOf (inquiryRecord :: rest)).1 = packet :: others := by
  obtain ⟨next, packet, heard⟩ :=
    session.exists_process_inquiry follows (by rw [idle]) (by rw [idle]) 100000
  have done : session.process inquiryRecord = .ok (next, some packet) := heard
  rw [packetsOf, done]
  exact ⟨packet, _, rfl⟩

/-- One packet is asked for and printed, and the second one is left out. -/
theorem printed_le_limit_iff_inquiry :
    let session := Session.new (.ofNat 0x9e8b33) none { trims := false }
    let receiver : Receiver := { radio := { model := .one, version := 0x0107 } }
    let completions := [.ok ([inquiryRecord, inquiryRecord].flatMap Capture.toBytes)]
    (inquiryOptions 1).limit = some 1 ∧ ∃ packet : Packet,
      ((follow (inquiryOptions 1) completions none receiver session).run {}).2.printed =
        [packet.text] := by
  intro session receiver completions
  obtain ⟨packet, others, found⟩ := @packetsOf_inquiry session rfl rfl [inquiryRecord]
  have records : completions.flatMap received = [inquiryRecord, inquiryRecord] := by
    rw [List.flatMap_singleton]
    exact received_flatMap_toBytes (by decide)
  obtain ⟨printed, lines, -, whole, -⟩ :=
    @printed_le_limit_iff (inquiryOptions 1) 1 rfl receiver session completions none {}
  refine ⟨rfl, packet, ?_⟩
  rw [lines, whole rfl, records, found]
  rfl

/-- No packet is asked for, and one is printed. -/
theorem zero_lt_length_printed :
    let session := Session.new (.ofNat 0x9e8b33) none { trims := false }
    let receiver : Receiver := { radio := { model := .one, version := 0x0107 } }
    let completions := [.ok ([inquiryRecord].flatMap Capture.toBytes)]
    (inquiryOptions 0).limit = some 0 ∧
      0 < ((follow (inquiryOptions 0) completions none receiver session).run {}).2.printed.length := by
  intro session receiver completions
  obtain ⟨packet, others, found⟩ := @packetsOf_inquiry session rfl rfl []
  have records : completions.flatMap received = [inquiryRecord] := by
    rw [List.flatMap_singleton]
    exact received_flatMap_toBytes (by decide)
  refine ⟨rfl, ?_⟩
  rw [printed_of_calm rfl, records, found]
  exact Nat.one_pos

end Follow

end Piconet.CommandLine
