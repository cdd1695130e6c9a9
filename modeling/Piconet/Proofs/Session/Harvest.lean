import Mathlib.Algebra.Group.Nat.Defs
import Piconet.Proofs.Session.Step

/-!
# Records in a row

A list of records brings packets one after another until the arithmetic of the
trim loop overflows.  Draining the queue behind each record changes none of the
packets, and what is drained comes of the records so far.
-/

namespace Piconet.Session

/-- What came of one record: the commands drained behind it, and the packet in it. -/
structure Yield where
  restart : List Command
  packet : Option Packet
  deriving DecidableEq

namespace Yield

def commands (yield : Yield) : List Command :=
  yield.restart ++ yield.packet.elim [] Packet.commands

def packets (yields : List Yield) : List Packet :=
  yields.filterMap Yield.packet

/-- Some yields up to the one with the last packet that is wanted. -/
def upTo : Nat → List Yield → List Yield
  | 0, _ => []
  | _ + 1, [] => []
  | wanted + 1, yield :: rest =>
      yield :: upTo (if yield.packet.isSome then wanted else wanted + 1) rest

end Yield

/-- The packets that records bring one after another, and the overflow that ends them. -/
def packetsOf (session : Session) : List Capture → List Packet × Option Overflow
  | [] => ([], none)
  | capture :: rest =>
      match session.process capture with
      | .error overflow => ([], some overflow)
      | .ok (next, packet) =>
          let (packets, ending) := next.packetsOf rest
          (packet.toList ++ packets, ending)

/-- What records yield one after another while the queue is drained behind each of them. -/
def harvest (session : Session) : List Capture → List Yield × Except Overflow Session
  | [] => ([], .ok session)
  | capture :: rest =>
      match session.process capture with
      | .error overflow => ([], .error overflow)
      | .ok (processed, packet) =>
          let (next, restart) := processed.drain
          let (yields, ending) := next.harvest rest
          (⟨restart, packet⟩ :: yields, ending)

/-! ## Up to a packet -/

namespace Yield

theorem packets_cons (yield : Yield) (rest : List Yield) :
    packets (yield :: rest) = yield.packet.toList ++ packets rest := by
  cases packet : yield.packet with
  | none => exact List.filterMap_cons_none packet
  | some found => exact List.filterMap_cons_some packet

theorem packets_append (first second : List Yield) :
    packets (first ++ second) = packets first ++ packets second :=
  List.filterMap_append

@[simp] theorem upTo_zero (yields : List Yield) : upTo 0 yields = [] := by
  rw [upTo]

/-- The packets of the yields up to the last one that is wanted are the first so many. -/
theorem packets_upTo (wanted : Nat) (yields : List Yield) :
    packets (upTo wanted yields) = (packets yields).take wanted := by
  induction yields generalizing wanted with
  | nil =>
      cases wanted with
      | zero => rfl
      | succ wanted => rfl
  | cons yield rest ih =>
      cases wanted with
      | zero =>
          rw [upTo_zero]
          rfl
      | succ wanted =>
          rw [upTo, packets_cons, packets_cons, ih]
          cases yield.packet with
          | none => rfl
          | some packet => rfl

/-- Too few packets leave nothing out. -/
theorem upTo_eq_self {wanted : Nat} {yields : List Yield}
    (few : (packets yields).length < wanted) : upTo wanted yields = yields := by
  induction yields generalizing wanted with
  | nil =>
      cases wanted with
      | zero => rfl
      | succ wanted => rfl
  | cons yield rest ih =>
      rw [packets_cons, List.length_append] at few
      cases wanted with
      | zero => exact absurd few (Nat.not_lt_zero _)
      | succ wanted =>
          rw [upTo, ih]
          cases found : yield.packet with
          | none =>
              rw [found] at few
              exact Nat.lt_of_le_of_lt (Nat.le_add_left _ _) few
          | some packet =>
              rw [found, Option.toList_some, List.length_singleton] at few
              change (packets rest).length < wanted
              omega

/-- Nothing behind the last packet that is wanted is left in. -/
theorem upTo_append_of_last {wanted : Nat} {front : List Yield} {last : Yield}
    (reached : (packets front).length + 1 = wanted) (brings : last.packet.isSome = true)
    (rest : List Yield) : upTo wanted (front ++ last :: rest) = front ++ [last] := by
  subst reached
  induction front with
  | nil =>
      change upTo 1 (last :: rest) = [last]
      rw [upTo, if_pos brings, upTo_zero]
  | cons yield others ih =>
      rw [packets_cons, List.cons_append, upTo, List.cons_append]
      cases found : yield.packet with
      | none =>
          refine congrArg (yield :: ·) (Eq.trans ?_ ih)
          rfl
      | some packet =>
          refine congrArg (yield :: ·) (Eq.trans ?_ ih)
          rw [Option.toList_some, List.singleton_append, List.length_cons]
          rfl

end Yield

/-! ## One record after another -/

variable {session processed : Session} {overflow : Overflow}

theorem harvest_cons_of_ok {capture : Capture} {packet : Option Packet}
    (done : session.process capture = .ok (processed, packet)) (rest : List Capture) :
    session.harvest (capture :: rest) =
      (⟨processed.outbox, packet⟩ :: (processed.drain.1.harvest rest).1,
        (processed.drain.1.harvest rest).2) := by
  rw [harvest, done]
  rfl

theorem harvest_cons_of_error {capture : Capture}
    (stopped : session.process capture = .error overflow) (rest : List Capture) :
    session.harvest (capture :: rest) = ([], .error overflow) := by
  rw [harvest, stopped]

/-! ## The queue has no part in the packets -/

def queueing (session : Session) (earlier : List Command) : Session :=
  { session with outbox := earlier ++ session.outbox }

theorem inert_queueing (earlier : List Command) : Inert (queueing · earlier) where
  settings _ := rfl
  correlator _ := rfl
  loop _ := rfl
  rollover _ := rfl
  counted _ := rfl
  note _ _ := rfl
  miss session := by
    have asked : (session.queueing earlier).losesAt ((session.queueing earlier).misses + 1) =
        session.losesAt (session.misses + 1) := rfl
    rw [miss_eq, miss_eq, asked]
    split
    · exact congrArg (fun outbox => { session.missedOnce.lose with outbox })
        (List.append_assoc _ _ _)
    · rfl
  credited _ := rfl
  adjusted _ _ _ := rfl

theorem packetsOf_queueing (session : Session) (earlier : List Command)
    (captures : List Capture) :
    (session.queueing earlier).packetsOf captures = session.packetsOf captures := by
  induction captures generalizing session with
  | nil => rfl
  | cons capture rest ih =>
      rw [packetsOf, packetsOf, (inert_queueing earlier).process]
      cases session.process capture with
      | error overflow => rfl
      | ok outcome =>
          change (_ ++ ((outcome.1.queueing earlier).packetsOf rest).1,
            ((outcome.1.queueing earlier).packetsOf rest).2) = _
          rw [ih]
          rfl

theorem queueing_drain (session : Session) :
    session.drain.1.queueing session.outbox = session := by
  rw [drain, queueing, List.append_nil]

/-- What is yielded has the packets of the records, and ends where they end. -/
theorem packetsOf_eq (session : Session) (captures : List Capture) :
    session.packetsOf captures =
      (Yield.packets (session.harvest captures).1,
        match (session.harvest captures).2 with
        | .ok _ => none
        | .error overflow => some overflow) := by
  induction captures generalizing session with
  | nil => rfl
  | cons capture rest ih =>
      cases done : session.process capture with
      | error overflow =>
          rw [packetsOf, done, harvest_cons_of_error done]
          rfl
      | ok outcome =>
          obtain ⟨processed, packet⟩ := outcome
          have same := packetsOf_queueing processed.drain.1 processed.outbox rest
          rw [queueing_drain] at same
          rw [packetsOf, done, harvest_cons_of_ok done, Yield.packets_cons]
          change (packet.toList ++ (processed.packetsOf rest).1, (processed.packetsOf rest).2) = _
          rw [same, ih]

end Piconet.Session
