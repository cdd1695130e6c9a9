import Piconet.Proofs.Radio.Asking
import Piconet.Proofs.Radio.Sending
import Piconet.Proofs.Radio.Streaming

/-!
# What reaches the radio

A setting that the radio does not accept is refused before anything is sent, and so
is streaming from firmware that is too old.  What is known of the radio is answered
without it.  Everything else is one control transfer; if it fails, this failure is
the outcome, and what is held of the radio stays as it was.
-/

namespace Piconet.Radio

namespace Operation

def isLocal : Operation → Bool
  | checkVersion | version | model => true
  | _ => false

/-- The refusal of a setting outside the range that the radio accepts. -/
def refusal? : Operation → Option Fault
  | setChannel megahertz =>
      if megahertz.toNat < 2268 ∨ 2794 < megahertz.toNat then
        some (.outOfRange megahertz.toNat 2268 2795)
      else none
  | setPowerLevel level =>
      if 7 < level.toNat then some (.outOfRange level.toNat 0 8) else none
  | _ => none

end Operation

theorem setChannel_eq (megahertz : UInt16) :
    setChannel megahertz = ((Operation.setChannel megahertz).refusal?).elim
      (writeValue .setChannel megahertz) throw := by
  have inside : (lowestFrequency ≤ megahertz ∧ megahertz ≤ highestFrequency) ↔
      ¬(megahertz.toNat < 2268 ∨ 2794 < megahertz.toNat) := by
    rw [UInt16.le_iff_toNat_le, UInt16.le_iff_toNat_le, not_or, Nat.not_lt, Nat.not_lt]
    rfl
  rw [setChannel, Operation.refusal?]
  by_cases outside : megahertz.toNat < 2268 ∨ 2794 < megahertz.toNat
  · rw [if_neg fun fits => inside.1 fits outside, if_pos outside]
    rfl
  · rw [if_pos (inside.2 outside), if_neg outside]
    rfl

theorem setPowerLevel_eq (level : UInt8) :
    setPowerLevel level = ((Operation.setPowerLevel level).refusal?).elim
      (writeValue .setPowerLevel level.toUInt16) throw := by
  have inside : level ≤ 7 ↔ ¬7 < level.toNat := by
    rw [UInt8.le_iff_toNat_le, Nat.not_lt]
    rfl
  rw [setPowerLevel, Operation.refusal?]
  by_cases high : 7 < level.toNat
  · rw [if_neg fun fits => inside.1 fits high, if_pos high]
    rfl
  · rw [if_pos (inside.2 high), if_neg high]
    rfl

/-- A local operation leaves nothing on the link. -/
theorem perform_local (radio : Radio) {operation : Operation} (known : operation.isLocal = true)
    (link : Link) : ((perform radio operation).run link).2 = link := by
  cases operation with
  | checkVersion =>
      change ((finish (liftM radio.checkVersion)).run link).2 = link
      cases radio.checkVersion with
      | ok supported => rfl
      | error fault => rfl
  | version | model => rfl
  | _ => cases known

/-- A refused setting is the outcome, and leaves nothing on the link. -/
theorem perform_refused (radio : Radio) {operation : Operation} {fault : Fault}
    (refused : operation.refusal? = some fault) (link : Link) :
    (perform radio operation).run link = (.error fault, link) := by
  cases operation with
  | setChannel megahertz =>
      change (finish (setChannel megahertz)).run link = _
      rw [setChannel_eq, refused]
      rfl
  | setPowerLevel level =>
      change (finish (setPowerLevel level)).run link = _
      rw [setPowerLevel_eq, refused]
      rfl
  | _ => cases refused

/-- Every other operation asks the radio once. -/
theorem exists_asks (radio : Radio) {operation : Operation} (remote : operation.isLocal = false)
    (accepted : operation.refusal? = none) :
    ∃ event answer, Asks (perform radio operation) event answer ∧ event.isControl = true := by
  have finished {conversation : Conversation Unit} {event : Event}
      {answer : List UInt8 → Option Unit} (asks : Asks conversation event answer) :
      Asks (finish conversation) event fun data => (answer data).map fun _ => .done :=
    asks.map fun _ => Answer.done
  have told (request : Request) (value : UInt16) (data : List UInt8) :=
    finished (write_sends request value data).asks
  cases operation with
  | checkVersion | version | model => cases remote
  | ping => exact ⟨_, _, finished ((read_asks .ping 0).map fun _ => ()), rfl⟩
  | setChannel megahertz =>
      have sent : perform radio (.setChannel megahertz) =
          finish (writeValue .setChannel megahertz) := by
        rw [perform, setChannel_eq, accepted, Option.elim]
      exact ⟨_, _, sent ▸ told .setChannel megahertz [], rfl⟩
  | setPowerLevel level =>
      have sent : perform radio (.setPowerLevel level) =
          finish (writeValue .setPowerLevel level.toUInt16) := by
        rw [perform, setPowerLevel_eq, accepted, Option.elim]
      exact ⟨_, _, sent ▸ told .setPowerLevel level.toUInt16 [], rfl⟩
  | stop | setModulation _ | setSwitch _ _ | setSquelch _ | setAddress _ | startHopping _ _
  | setClock _ | setChannelMap _ | clearChannelMap | surveyChannels | hop | trimClock _
  | correctDrift _ | send _ => exact ⟨_, _, told _ _ _, rfl⟩
  | getChannel => exact ⟨_, _, ((readNumber_asks .getChannel 2).map _).map _, rfl⟩
  | getModulation => exact ⟨_, _, ((readByte_asks _).expect _).map _, rfl⟩
  | getSwitch switch => exact ⟨_, _, ((readByte_asks _).map _).map _, rfl⟩
  | getPowerLevel => exact ⟨_, _, (readByte_asks _).map _, rfl⟩
  | getSquelch => exact ⟨_, _, ((readByte_asks _).map _).map _, rfl⟩
  | getClock => exact ⟨_, _, ((readNumber_asks .getClock 4).map _).map _, rfl⟩
  | getBoard => exact ⟨_, _, ((readByte_asks _).map _).map _, rfl⟩
  | getSerial => exact ⟨_, _, ((read_asks _ _).expect _).map _, rfl⟩
  | getPartNumber => exact ⟨_, _, ((read_asks _ _).expect _).map _, rfl⟩
  | getRevision => exact ⟨_, _, ((read_asks _ _).expect _).map _, rfl⟩
  | getBuildInfo => exact ⟨_, _, ((read_asks _ _).expect _).map _, rfl⟩

/-- Whatever an operation comes to, only control transfers pass. -/
theorem perform_passed (radio : Radio) (operation : Operation) (link : Link) :
    ∃ events, ((perform radio operation).run link).2 = link.passed events ∧
      ∀ event ∈ events, event.isControl = true := by
  cases known : operation.isLocal with
  | true => exact ⟨[], perform_local radio known link, nofun⟩
  | false =>
      cases refused : operation.refusal? with
      | some fault => exact ⟨[], congrArg Prod.snd (perform_refused radio refused link), nofun⟩
      | none =>
          obtain ⟨event, answer, asks, control⟩ := exists_asks radio known refused
          refine ⟨[event], ?_, List.forall_mem_singleton.2 control⟩
          rw [asks, link.after_eq_passed control]

/-- The outcome of a reply: the fault of the transfer, or what is made of the data. -/
theorem ofAnswer_understood (answer : List UInt8 → Option Answer) (reply : Reply) :
    match reply with
    | .ok _ => Outcome.ofAnswer (understood answer reply) = .failed .malformed ∨
        ∃ given, Outcome.ofAnswer (understood answer reply) = .answered given
    | .error cause => Outcome.ofAnswer (understood answer reply) = .failed (.transfer cause) := by
  cases reply with
  | error cause => rfl
  | ok data =>
      dsimp only [understood]
      cases answer data with
      | none => exact .inl rfl
      | some given => exact .inr ⟨given, rfl⟩

/--
Whatever radio is held, in whichever mode, and whatever it replies: a setting outside
its range is refused and not sent, an operation whose answer is known sends nothing,
and every other operation is one control transfer.  If this transfer fails, its failure
is the outcome; the mode stays in every case.  Streaming is refused, with nothing sent,
where the firmware is too old, and is one control transfer otherwise, whose failure
leaves the radio idle.  A reset is one control transfer and gives the radio up.
-/
theorem refused_settings_are_not_sent (host : Host) {handle : Handle} {radio : Radio}
    (held : handle.radio? = some radio) (link : Link) :
    (∀ operation : Operation, ∃ outcome later,
      (handle.step host (.operate operation)).run link = ((handle, outcome), later) ∧
      (operation.isLocal = true → later = link) ∧
      (∀ fault, operation.refusal? = some fault → outcome = .failed fault ∧ later = link) ∧
      (operation.isLocal = false → operation.refusal? = none →
        (∃ event, event.isControl = true ∧ later = link.after event) ∧
        match link.reply with
        | .ok _ => outcome = .failed .malformed ∨ ∃ given, outcome = .answered given
        | .error cause => outcome = .failed (.transfer cause))) ∧
    (handle = .idle radio →
      (handle.step host .startReceiving).run link =
        (if radio.version.toNat < 0x0102 then
          ((.idle radio, .startFailed { cause := .outdated 0x0102 radio.version, radio }), link)
        else
          (match link.reply with
            | .ok _ => (.receiving { radio }, .answered .done)
            | .error cause => (.idle radio, .startFailed { cause := .transfer cause, radio }),
          link.after (.write .receiveSymbols 0 []))) ∧
      (handle.step host .reset).run link =
        ((.closed, match link.reply with
          | .ok _ => .answered .done
          | .error cause => .failed (.transfer cause)), link.after (.write .reset 0 []))) := by
  constructor
  · intro operation
    refine ⟨_, _, step_operate host held operation link, fun known => ?_, fun fault refused => ?_,
      fun remote accepted => ?_⟩
    · exact perform_local radio known link
    · rw [perform_refused radio refused]
      exact ⟨rfl, rfl⟩
    · obtain ⟨event, answer, asks, control⟩ := exists_asks radio remote accepted
      rw [asks]
      exact ⟨⟨event, control, rfl⟩, ofAnswer_understood answer link.reply⟩
  · rintro rfl
    constructor
    · rw [Handle.step_startReceiving_run, startReceiving_run]
      by_cases old : radio.version.toNat < 0x0102
      · rw [if_pos old, if_pos old]
      · rw [if_neg old, if_neg old]
        cases link.reply with
        | ok data => rfl
        | error cause => rfl
    · rw [link.after_eq_passed rfl]
      exact Handle.step_reset_run host link radio

/-- Settings just inside and just outside their range, and firmware just too old. -/
theorem refused_settings_are_not_sent_old :
    let radio : Radio := { model := .one, version := 0x0101 }
    let link : Link := { replies := [.error .stalled] }
    (Handle.idle radio).radio? = some radio ∧
      ((Handle.idle radio).step {} (.operate (.setChannel 2795))).run link =
        ((.idle radio, .failed (.outOfRange 2795 2268 2795)), link) ∧
      ((Handle.idle radio).step {} .startReceiving).run link =
        ((.idle radio, .startFailed { cause := .outdated 0x0102 0x0101, radio }), link) ∧
      ∃ event, event.isControl = true ∧
        ((Handle.idle radio).step {} (.operate (.setChannel 2794))).run link =
          ((.idle radio, .failed (.transfer .stalled)), link.after event) := by
  intro radio link
  have held : (Handle.idle radio).radio? = some radio := rfl
  obtain ⟨operate, idle⟩ := refused_settings_are_not_sent {} held link
  obtain ⟨outcome, later, high, -, refused, -⟩ := operate (.setChannel 2795)
  obtain ⟨rfl, rfl⟩ := refused _ rfl
  obtain ⟨outcome, later, highest, -, -, sent⟩ := operate (.setChannel 2794)
  obtain ⟨⟨event, control, rfl⟩, failed⟩ := sent rfl rfl
  refine ⟨held, high, (idle rfl).1, event, control, ?_⟩
  rw [highest, show outcome = .failed (.transfer .stalled) from failed]

end Piconet.Radio
