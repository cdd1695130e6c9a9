import Piconet.Proofs.Session.Loss
import Piconet.Proofs.Session.Reception

/-!
# Rejected records leave no trace

A session counts the records it takes, and this number has a part in nothing else
that it does.  A record that is no basic-rate capture changes only this number.
Two runs whose operations agree up to such records therefore give the same
answers and come to the same state, apart from how many records were taken.
-/

namespace Piconet.Session

def Operation.isRejected : Operation → Bool
  | process capture => !capture.isBasicRate
  | _ => false

/-- The answers to the operations of a run that are no rejected records. -/
def remaining (operations : List Operation) (answers : List Answer) : List Answer :=
  ((operations.zip answers).filter fun entry => !entry.1.isRejected).map Prod.snd

def withEarlier (session : Session) (records : Nat) : Session :=
  { session with stats := { session.stats with captures := records + session.stats.captures } }

/-! ## The number of records taken has no part in anything else -/

theorem withEarlier_zero (session : Session) : session.withEarlier 0 = session := by
  rw [withEarlier, Nat.zero_add]

theorem withEarlier_withEarlier (session : Session) (first second : Nat) :
    (session.withEarlier first).withEarlier second = session.withEarlier (first + second) := by
  simp only [withEarlier, Nat.add_comm first, Nat.add_assoc]

theorem counted_eq_withEarlier (session : Session) : session.counted = session.withEarlier 1 := by
  rw [counted, withEarlier, Nat.add_comm]

theorem inert_withEarlier (records : Nat) : Inert (withEarlier · records) where
  settings _ := rfl
  correlator _ := rfl
  loop _ := rfl
  rollover _ := rfl
  counted _ := rfl
  note _ _ := rfl
  miss session := by
    have asked : (session.withEarlier records).losesAt ((session.withEarlier records).misses + 1) =
        session.losesAt (session.misses + 1) := rfl
    rw [miss_eq, miss_eq, asked]
    split
    · rfl
    · rfl
  credited _ := rfl
  adjusted _ _ _ := rfl

/-- An operation does the same whatever number of records was taken before. -/
theorem perform_withEarlier (session : Session) (records : Nat) (operation : Operation) :
    (session.withEarlier records).perform operation =
      (session.perform operation).map (Prod.map (withEarlier · records) id) := by
  cases operation with
  | process capture => exact (inert_withEarlier records).perform_process session capture
  | setMap map => exact perform_setMap_comm (withEarlier · records) rfl
  | drain | hop clock | start native | clearMap | resetTrim => rfl

/-! ## Runs -/

theorem run_withEarlier (session : Session) (records : Nat) (operations : List Operation) :
    (session.withEarlier records).run operations =
      Prod.map (withEarlier · records) id <$> session.run operations :=
  run_of_perform_comm (fun session => session.perform_withEarlier records) session operations

theorem remaining_cons_of_rejected {operation : Operation} (rejected : operation.isRejected = true)
    (answer : Answer) (operations : List Operation) (answers : List Answer) :
    remaining (operation :: operations) (answer :: answers) = remaining operations answers := by
  rw [remaining, List.zip_cons_cons, List.filter_cons_of_neg (by simp [rejected]), remaining]

theorem remaining_cons_of_kept {operation : Operation} (kept : operation.isRejected = false)
    (answer : Answer) (operations : List Operation) (answers : List Answer) :
    remaining (operation :: operations) (answer :: answers) =
      answer :: remaining operations answers := by
  rw [remaining, List.zip_cons_cons, List.filter_cons_of_pos (by simp [kept]), List.map_cons,
    remaining]

theorem perform_of_rejected {operation : Operation} (rejected : operation.isRejected = true)
    (session : Session) :
    session.perform operation = .ok (session.withEarlier 1, .packet none) := by
  cases operation with
  | process capture =>
      rw [Operation.isRejected, Bool.not_eq_true'] at rejected
      rw [← counted_eq_withEarlier]
      exact perform_process_eq_ok_iff.2 ⟨none, session.process_of_rejected rejected, rfl⟩
  | _ => cases rejected

/--
A run is told apart from the run without its rejected records only by the number
of records taken.
-/
theorem run_eq_run_filter (session : Session) (operations : List Operation) :
    Prod.map id (remaining operations) <$> session.run operations =
      Prod.map (withEarlier · (operations.countP Operation.isRejected)) id <$>
        session.run (operations.filter fun operation => !operation.isRejected) := by
  induction operations generalizing session with
  | nil => exact congrArg (fun last => Except.ok (last, [])) session.withEarlier_zero.symm
  | cons operation rest ih =>
      cases rejected : operation.isRejected with
      | true =>
          rw [List.filter_cons_of_neg (by simp [rejected]), List.countP_cons_of_pos rejected,
            run_cons_of_ok (perform_of_rejected rejected session), run_withEarlier]
          calc Prod.map id (remaining (operation :: rest)) <$> Prod.map id (.packet none :: ·) <$>
                Prod.map (withEarlier · 1) id <$> session.run rest
              = Prod.map (withEarlier · 1) id <$>
                  Prod.map id (remaining rest) <$> session.run rest := by
                simp only [Functor.map_map, Prod.map, remaining_cons_of_rejected rejected, id]
            _ = Prod.map (withEarlier · (rest.countP Operation.isRejected + 1)) id <$>
                  session.run (rest.filter fun operation => !operation.isRejected) := by
                rw [ih, Functor.map_map]
                simp only [Prod.map, withEarlier_withEarlier, id]
                rfl
      | false =>
          rw [List.filter_cons_of_pos (by simp [rejected]),
            List.countP_cons_of_neg (by simp [rejected])]
          cases performed : session.perform operation with
          | error overflow =>
              rw [run_cons_of_error performed, run_cons_of_error performed]
              rfl
          | ok outcome =>
              rw [run_cons_of_ok performed, run_cons_of_ok performed]
              calc Prod.map id (remaining (operation :: rest)) <$>
                    Prod.map id (outcome.2 :: ·) <$> outcome.1.run rest
                  = Prod.map id (outcome.2 :: ·) <$>
                      Prod.map id (remaining rest) <$> outcome.1.run rest := by
                    simp only [Functor.map_map, Prod.map, remaining_cons_of_kept rejected, id]
                _ = Prod.map (withEarlier · (rest.countP Operation.isRejected)) id <$>
                      Prod.map id (outcome.2 :: ·) <$>
                        outcome.1.run (rest.filter fun operation => !operation.isRejected) := by
                    rw [ih]
                    simp only [Functor.map_map, Prod.map, id]

theorem run_filter_eq_error_iff {session : Session} {operations : List Operation}
    {overflow : Overflow} :
    session.run (operations.filter fun operation => !operation.isRejected) = .error overflow ↔
      session.run operations = .error overflow := by
  have all := session.run_eq_run_filter operations
  cases whole : session.run operations with
  | error other =>
      cases kept : session.run (operations.filter fun operation => !operation.isRejected) with
      | error another =>
          rw [whole, kept] at all
          cases all
          rfl
      | ok outcome =>
          rw [whole, kept] at all
          cases all
  | ok outcome =>
      cases kept : session.run (operations.filter fun operation => !operation.isRejected) with
      | error another =>
          rw [whole, kept] at all
          cases all
      | ok outcome => exact iff_of_false nofun nofun

/-- What a run comes to is what the run without its rejected records comes to. -/
theorem run_filter_of_run {session last : Session} {operations : List Operation}
    {answers : List Answer} (reached : session.run operations = .ok (last, answers)) :
    ∃ base, session.run (operations.filter fun operation => !operation.isRejected) =
        .ok (base, remaining operations answers) ∧
      last = base.withEarlier (operations.countP Operation.isRejected) := by
  have all := session.run_eq_run_filter operations
  rw [reached] at all
  cases kept : session.run (operations.filter fun operation => !operation.isRejected) with
  | error overflow =>
      rw [kept] at all
      cases all
  | ok outcome =>
      rw [kept] at all
      obtain ⟨same, replies⟩ := Prod.mk.inj (Except.ok.inj all)
      exact ⟨outcome.1, by rw [replies]; rfl, same⟩

theorem run_of_run_filter {session base : Session} {operations : List Operation}
    {replies : List Answer}
    (kept : session.run (operations.filter fun operation => !operation.isRejected) =
      .ok (base, replies)) :
    ∃ answers, session.run operations =
        .ok (base.withEarlier (operations.countP Operation.isRejected), answers) ∧
      remaining operations answers = replies := by
  cases reached : session.run operations with
  | error overflow =>
      rw [run_filter_eq_error_iff.2 reached] at kept
      cases kept
  | ok outcome =>
      obtain ⟨last, answers⟩ := outcome
      obtain ⟨other, again, rfl⟩ := run_filter_of_run reached
      cases kept.symm.trans again
      exact ⟨answers, rfl, rfl⟩

/--
Records that are no basic-rate captures can be put into a run and taken out of it
anywhere.  The run overflows where it did, every other operation is answered as
before, and the last states agree in everything but the number of records taken,
which is greater by the records put in.
-/
theorem rejected_records_leave_no_trace (session : Session) {first second : List Operation}
    (same : first.filter (fun operation => !operation.isRejected) =
      second.filter fun operation => !operation.isRejected) :
    (∀ overflow, session.run first = .error overflow ↔ session.run second = .error overflow) ∧
    ∀ last answers, session.run first = .ok (last, answers) →
      ∃ other replies, session.run second = .ok (other, replies) ∧
        remaining second replies = remaining first answers ∧
        other.stats.captures + first.countP Operation.isRejected =
          last.stats.captures + second.countP Operation.isRejected ∧
        other =
          { last with stats := { last.stats with captures := other.stats.captures } } := by
  constructor
  · intro overflow
    rw [← run_filter_eq_error_iff, same, run_filter_eq_error_iff]
  · intro last answers reached
    obtain ⟨base, kept, rfl⟩ := run_filter_of_run reached
    rw [same] at kept
    obtain ⟨replies, again, agrees⟩ := run_of_run_filter kept
    refine ⟨_, replies, again, agrees, ?_, rfl⟩
    change second.countP _ + base.stats.captures + first.countP _ =
      first.countP _ + base.stats.captures + second.countP _
    omega

/-- A loss and a drain, among inquiries on no channel, of another kind, and to be discarded. -/
theorem rejected_records_leave_no_trace_between :
    let session := Session.new (.ofNat 0x9e8b33) none { lostAfter := 1 }
    let first : List Operation := [.process (quietRecord 100000), .drain]
    let second : List Operation := [.process { inquiryRecord with channel := 79 },
      .process (quietRecord 100000), .process { inquiryRecord with status := 0x20 }, .drain,
      .process { inquiryRecord with kind := .lowEnergy }]
    (first.filter fun operation => !operation.isRejected) =
      (second.filter fun operation => !operation.isRejected) ∧
    ∃ last answers other replies, session.run first = .ok (last, answers) ∧
      session.run second = .ok (other, replies) ∧
      remaining second replies = remaining first answers ∧
      last.stats.losses = 1 ∧ last.stats.captures = 1 ∧
      other = { last with stats := { last.stats with captures := 4 } } := by
  intro session first second
  have miss := isMiss_quietRecord 100000 { lostAfter := 1 } rfl
  have lost := @process_of_miss session _ miss
  rw [miss_note_eq, if_pos (by decide)] at lost
  have reached : session.run first = .ok (_, _) :=
    run_cons_eq_ok_iff.2 ⟨_, _, _, perform_process_eq_ok_iff.2 ⟨none, lost, rfl⟩, rfl, rfl⟩
  have same : (first.filter fun operation => !operation.isRejected) =
      (second.filter fun operation => !operation.isRejected) := rfl
  obtain ⟨other, replies, again, agrees, number, everything⟩ :=
    (rejected_records_leave_no_trace session same).2 _ _ reached
  have taken : other.stats.captures = 4 := number
  rw [taken] at everything
  exact ⟨same, _, _, other, replies, reached, again, agrees, rfl, rfl, everything⟩

end Piconet.Session
