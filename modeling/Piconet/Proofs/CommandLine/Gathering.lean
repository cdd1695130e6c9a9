import Piconet.Proofs.Session.Harvest

/-!
# Up to the last packet

A watch may be asked for a number of packets.  It takes records one by one and
stops behind the one with the last of these packets, so that how far it comes
with the records of one transfer decides whether it goes on with the next.  What
it has gathered in the end is the front of what all the records would have
yielded.
-/

namespace Piconet.CommandLine.Follow

open Session

def enough (limit : Option Nat) (packets : Nat) : Bool :=
  limit.any (· ≤ packets)

/--
What records yield up to the last packet that was asked for, after so many packets
before them, and whether that packet was among them.
-/
def gather (limit : Option Nat) (packets : Nat) (session : Session) :
    List Capture → List Yield × Except Overflow (Session × Bool)
  | [] => ([], .ok (session, false))
  | capture :: rest =>
      match session.process capture with
      | .error overflow => ([], .error overflow)
      | .ok (processed, packet) =>
          let yield : Yield := ⟨processed.outbox, packet⟩
          let packets := packets + packet.toList.length
          if packet.isSome && enough limit packets then
            ([yield], .ok (processed.drain.1, true))
          else
            let (yields, ending) := gather limit packets processed.drain.1 rest
            (yield :: yields, ending)

def isOver : Except Overflow (Session × Bool) → Bool
  | .ok (_, finished) => finished
  | .error _ => true

/-- The yields that a watch sees: all of them, or those up to the last packet asked for. -/
def seenOf (limit : Option Nat) (yields : List Yield) : List Yield :=
  limit.elim yields (Yield.upTo · yields)

/-- The packets that a watch prints: all of them, or as many as were asked for. -/
def printedOf (limit : Option Nat) (packets : List Packet) : List Packet :=
  limit.elim packets packets.take

variable {limit : Option Nat} {packets : Nat} {session last : Session}
  {captures : List Capture} {yields : List Yield}

theorem gather_cons_of_error {capture : Capture} {overflow : Overflow}
    (stopped : session.process capture = .error overflow) (rest : List Capture) :
    gather limit packets session (capture :: rest) = ([], .error overflow) := by
  rw [gather, stopped]

theorem gather_cons_of_last {capture : Capture} {processed : Session} {packet : Option Packet}
    (done : session.process capture = .ok (processed, packet))
    (reached : (packet.isSome && enough limit (packets + packet.toList.length)) = true)
    (rest : List Capture) :
    gather limit packets session (capture :: rest) =
      ([⟨processed.outbox, packet⟩], .ok (processed.drain.1, true)) := by
  rw [gather, done]
  exact if_pos reached

theorem gather_cons_of_few {capture : Capture} {processed : Session} {packet : Option Packet}
    (done : session.process capture = .ok (processed, packet))
    (few : (packet.isSome && enough limit (packets + packet.toList.length)) = false)
    (rest : List Capture) :
    gather limit packets session (capture :: rest) =
      (⟨processed.outbox, packet⟩ ::
          (gather limit (packets + packet.toList.length) processed.drain.1 rest).1,
        (gather limit (packets + packet.toList.length) processed.drain.1 rest).2) := by
  rw [gather, done]
  exact if_neg (Bool.eq_false_iff.1 few)

/-- Where records have not ended it, a watch goes on with those behind them. -/
theorem gather_append_of_few
    (reached : gather limit packets session captures = (yields, .ok (last, false)))
    (rest : List Capture) :
    gather limit packets session (captures ++ rest) =
      (yields ++ (gather limit (packets + (Yield.packets yields).length) last rest).1,
        (gather limit (packets + (Yield.packets yields).length) last rest).2) := by
  induction captures generalizing packets session yields with
  | nil =>
      cases reached
      rfl
  | cons capture others ih =>
      cases done : session.process capture with
      | error overflow =>
          rw [gather_cons_of_error done] at reached
          cases reached
      | ok outcome =>
          cases final : outcome.2.isSome &&
              enough limit (packets + outcome.2.toList.length) with
          | true =>
              rw [gather_cons_of_last done final] at reached
              cases reached
          | false =>
              rw [gather_cons_of_few done final] at reached
              obtain ⟨rfl, ending⟩ := Prod.mk.inj reached
              rw [List.cons_append, gather_cons_of_few done final, ih (Prod.ext rfl ending),
                Yield.packets_cons, List.length_append, ← Nat.add_assoc]
              rfl

/-- Where records have ended it, those behind them have no part in a watch. -/
theorem gather_append_of_over {ending : Except Overflow (Session × Bool)}
    (reached : gather limit packets session captures = (yields, ending))
    (ended : isOver ending = true) (rest : List Capture) :
    gather limit packets session (captures ++ rest) = (yields, ending) := by
  induction captures generalizing packets session yields with
  | nil =>
      cases reached
      exact absurd ended Bool.false_ne_true
  | cons capture others ih =>
      cases done : session.process capture with
      | error overflow =>
          rw [gather_cons_of_error done] at reached
          rw [List.cons_append, gather_cons_of_error done, reached]
      | ok outcome =>
          cases final : outcome.2.isSome &&
              enough limit (packets + outcome.2.toList.length) with
          | true =>
              rw [gather_cons_of_last done final] at reached
              rw [List.cons_append, gather_cons_of_last done final, reached]
          | false =>
              rw [gather_cons_of_few done final] at reached
              obtain ⟨rfl, ending⟩ := Prod.mk.inj reached
              rw [List.cons_append, gather_cons_of_few done final, ih (Prod.ext rfl ending)]

theorem enough_of_le {fewer more : Nat} (le : fewer ≤ more) (few : enough limit more = false) :
    enough limit fewer = false := by
  cases limit with
  | none => rfl
  | some wanted =>
      have short : ¬ wanted ≤ more := of_decide_eq_false few
      exact decide_eq_false fun reached => short (Nat.le_trans reached le)

variable (packets) in
/-- Records with too few packets are all of them gathered. -/
theorem gather_of_few
    (few : enough limit (packets + (Yield.packets (session.harvest captures).1).length) = false) :
    gather limit packets session captures =
      ((session.harvest captures).1, (session.harvest captures).2.map (·, false)) := by
  induction captures generalizing packets session with
  | nil => rfl
  | cons capture rest ih =>
      cases done : session.process capture with
      | error overflow =>
          rw [gather_cons_of_error done, harvest_cons_of_error done]
          rfl
      | ok outcome =>
          rw [harvest_cons_of_ok done, Yield.packets_cons, List.length_append,
            ← Nat.add_assoc] at few
          have soon : enough limit (packets + outcome.2.toList.length) = false :=
            enough_of_le (Nat.le_add_right _ _) few
          rw [gather_cons_of_few done (by rw [soon, Bool.and_false]), harvest_cons_of_ok done,
            ih _ few]

variable (packets) in
/-- Of records with enough packets those up to the last packet that is wanted are gathered. -/
theorem gather_of_reached {left : Nat}
    (reached : left < (Yield.packets (session.harvest captures).1).length) :
    ∃ last,
      gather (some (packets + (left + 1))) packets session captures =
        (Yield.upTo (left + 1) (session.harvest captures).1, .ok (last, true)) ∧
      session.harvest
          (captures.take (Yield.upTo (left + 1) (session.harvest captures).1).length) =
        (Yield.upTo (left + 1) (session.harvest captures).1, .ok last) := by
  induction captures generalizing packets session left with
  | nil => exact absurd reached (Nat.not_lt_zero _)
  | cons capture rest ih =>
      cases done : session.process capture with
      | error overflow =>
          rw [harvest_cons_of_error done] at reached
          exact absurd reached (Nat.not_lt_zero _)
      | ok outcome =>
          obtain ⟨processed, packet⟩ := outcome
          rw [harvest_cons_of_ok done, Yield.packets_cons, List.length_append] at reached
          rw [harvest_cons_of_ok done, Yield.upTo]
          cases packet with
          | none =>
              obtain ⟨last, gathered, fed⟩ := ih packets
                (Nat.zero_add (Yield.packets _).length ▸ reached)
              refine ⟨last, ?_, ?_⟩
              · rw [gather_cons_of_few done (Bool.false_and _)]
                exact congrArg (fun others => (⟨processed.outbox, none⟩ :: others.1, others.2))
                  gathered
              · rw [List.length_cons, List.take_succ_cons, harvest_cons_of_ok done]
                exact congrArg (fun others => (⟨processed.outbox, none⟩ :: others.1, others.2)) fed
          | some packet =>
              cases left with
              | zero =>
                  have last : enough (some (packets + 1)) (packets + 1) = true :=
                    decide_eq_true (Nat.le_refl _)
                  have none_left : Yield.upTo
                      (if (⟨processed.outbox, some packet⟩ : Yield).packet.isSome then 0 else 0 + 1)
                      (processed.drain.1.harvest rest).1 = [] := Yield.upTo_zero _
                  rw [none_left]
                  exact ⟨processed.drain.1, gather_cons_of_last done last rest,
                    harvest_cons_of_ok done []⟩
              | succ left =>
                  have short : enough (some (packets + (left + 1 + 1))) (packets + 1) = false :=
                    decide_eq_false (by omega)
                  have others : left < (Yield.packets (processed.drain.1.harvest rest).1).length := by
                    change left + 1 < 1 + _ at reached
                    omega
                  obtain ⟨last, gathered, fed⟩ := ih (packets + 1) others
                  rw [Nat.add_right_comm, Nat.add_assoc, Nat.add_assoc] at gathered
                  refine ⟨last, ?_, ?_⟩
                  · rw [gather_cons_of_few done short]
                    exact congrArg
                      (fun others => (⟨processed.outbox, some packet⟩ :: others.1, others.2))
                      gathered
                  · rw [List.length_cons, List.take_succ_cons, harvest_cons_of_ok done]
                    exact congrArg
                      (fun others => (⟨processed.outbox, some packet⟩ :: others.1, others.2)) fed

theorem packets_seenOf (limit : Option Nat) (yields : List Yield) :
    Yield.packets (seenOf limit yields) = printedOf limit (Yield.packets yields) := by
  cases limit with
  | none => rfl
  | some wanted => exact Yield.packets_upTo wanted yields

theorem seenOf_of_few {yields : List Yield}
    (few : enough limit (Yield.packets yields).length = false) : seenOf limit yields = yields := by
  cases limit with
  | none => rfl
  | some wanted => exact Yield.upTo_eq_self (Nat.lt_of_not_le (of_decide_eq_false few))

/-- What is gathered is what is seen of the yields of all the records. -/
theorem gather_eq (wanted : limit ≠ some 0) (session : Session) (captures : List Capture) :
    ∃ ending,
      gather limit 0 session captures =
        (seenOf limit (session.harvest captures).1, ending) ∧
      (enough limit (Yield.packets (session.harvest captures).1).length = true →
        ∃ last, ending = .ok (last, true) ∧
          session.harvest
              (captures.take (seenOf limit (session.harvest captures).1).length) =
            (seenOf limit (session.harvest captures).1, .ok last)) ∧
      (enough limit (Yield.packets (session.harvest captures).1).length = false →
        ending = (session.harvest captures).2.map (·, false)) := by
  cases reached : enough limit (Yield.packets (session.harvest captures).1).length with
  | false =>
      rw [seenOf_of_few reached]
      exact ⟨_, gather_of_few 0 (by rw [Nat.zero_add, reached]), nofun, fun _ => rfl⟩
  | true =>
      match limit with
      | none => cases reached
      | some 0 => exact absurd rfl wanted
      | some (left + 1) =>
          obtain ⟨last, gathered, fed⟩ :=
            gather_of_reached 0 (Nat.lt_of_succ_le (of_decide_eq_true reached))
          rw [Nat.zero_add] at gathered
          exact ⟨_, gathered, fun _ => ⟨last, rfl, fed⟩, nofun⟩

end Piconet.CommandLine.Follow
