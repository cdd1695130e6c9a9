import Piconet.Proofs.ByteOrder
import Piconet.Proofs.Radio.Conversation
import Piconet.Radio.Handle

/-!
# Commands on their way to the radio

What is sent for a command says which command it is.  Sending a command is the
operation of the radio that does the same, in every mode and whatever becomes of
the transfer; only a frequency that cannot be tuned to is refused by the
operation and sent as a command.
-/

namespace Piconet

namespace Command

/-! ## Reading a command back -/

def mapOfBytes? (bytes : List UInt8) : Option ChannelMap :=
  if exact : bytes.toArray.size = 10 then some ⟨⟨bytes.toArray, exact⟩⟩ else none

def wordOf? : List UInt8 → Option UInt16
  | [high, low] => some (UInt16.ofNat (ByteOrder.ofBig [high, low]))
  | _ => none

def offsetsOf? : List UInt8 → Option (UInt32 × UInt16)
  | [first, second, third, fourth, high, low] =>
      some (UInt32.ofNat (ByteOrder.ofBig [first, second, third, fourth]),
        UInt16.ofNat (ByteOrder.ofBig [high, low]))
  | _ => none

def ofPayload? (request : Radio.Request) (data : List UInt8) : Option Command :=
  match request with
  | .trimClock => (wordOf? data).map .trimClock
  | .correctDrift => (wordOf? data).map fun rate => .correctDrift rate.toInt16
  | .setChannelMap => (mapOfBytes? data).map .setChannelMap
  | .clearChannelMap => if data = [] then some .clearChannelMap else none
  | .startHopping => (offsetsOf? data).map fun offsets => .startHopping offsets.1 offsets.2
  | _ => none

/-- The command that a message stands for; only a frequency is carried as a value. -/
def ofMessage? (message : Message) : Option Command :=
  if message.request = .setChannel then
    if message.data = [] then some (.setChannel message.value) else none
  else if message.value = 0 then ofPayload? message.request message.data
  else none

theorem mapOfBytes?_eq_some_iff {bytes : List UInt8} {map : ChannelMap} :
    mapOfBytes? bytes = some map ↔ bytes = map.bytes.toList := by
  constructor
  · intro read
    unfold mapOfBytes? at read
    split at read
    · cases read
      rfl
    · cases read
  · rintro rfl
    exact dif_pos map.bytes.size_toArray

theorem wordOf?_eq_some_iff {bytes : List UInt8} {word : UInt16} :
    wordOf? bytes = some word ↔ bytes = ByteOrder.big 2 word.toNat := by
  constructor
  · intro read
    unfold wordOf? at read
    split at read
    · rename_i high low
      cases read
      exact (ByteOrder.big_two_ofNat high low).symm
    · cases read
  · rintro rfl
    exact congrArg some (ByteOrder.ofNat_big_two word)

theorem offsetsOf?_eq_some_iff {bytes : List UInt8} {offsets : UInt32 × UInt16} :
    offsetsOf? bytes = some offsets ↔
      bytes = ByteOrder.big 4 offsets.1.toNat ++ ByteOrder.big 2 offsets.2.toNat := by
  constructor
  · intro read
    unfold offsetsOf? at read
    split at read
    · cases read
      rw [ByteOrder.big_four_ofNat, ByteOrder.big_two_ofNat]
      rfl
    · cases read
  · rintro rfl
    exact congrArg some (Prod.ext (ByteOrder.ofNat_big_four offsets.1)
      (ByteOrder.ofNat_big_two offsets.2))

theorem ofPayload?_eq_some {request : Radio.Request} {data : List UInt8} {command : Command}
    (read : ofPayload? request data = some command) : command.encode = ⟨request, 0, data⟩ := by
  unfold ofPayload? at read
  split at read
  · obtain ⟨offset, spelled, rfl⟩ := Option.map_eq_some_iff.1 read
    rw [wordOf?_eq_some_iff.1 spelled]
    rfl
  · obtain ⟨rate, spelled, rfl⟩ := Option.map_eq_some_iff.1 read
    rw [wordOf?_eq_some_iff.1 spelled]
    rfl
  · obtain ⟨map, spelled, rfl⟩ := Option.map_eq_some_iff.1 read
    rw [mapOfBytes?_eq_some_iff.1 spelled]
    rfl
  · split at read
    · rename_i empty
      cases read
      rw [empty]
      rfl
    · cases read
  · obtain ⟨offsets, spelled, rfl⟩ := Option.map_eq_some_iff.1 read
    rw [offsetsOf?_eq_some_iff.1 spelled]
    rfl
  · cases read

theorem ofMessage?_encode (command : Command) : ofMessage? command.encode = some command := by
  cases command with
  | setChannel megahertz => rfl
  | trimClock offset =>
      exact congrArg (Option.map trimClock) (wordOf?_eq_some_iff.2 rfl)
  | correctDrift rate =>
      exact congrArg (Option.map (correctDrift ∘ UInt16.toInt16)) (wordOf?_eq_some_iff.2 rfl)
  | setChannelMap map =>
      exact congrArg (Option.map setChannelMap) (mapOfBytes?_eq_some_iff.2 rfl)
  | clearChannelMap => rfl
  | startHopping clockOffset counterOffset =>
      have spelled : offsetsOf? _ = some (clockOffset, counterOffset) :=
        offsetsOf?_eq_some_iff.2 rfl
      exact congrArg (Option.map fun offsets => startHopping offsets.1 offsets.2) spelled

/-- A message is read as a command exactly if it is what is sent for this command. -/
theorem ofMessage?_eq_some_iff {message : Message} {command : Command} :
    ofMessage? message = some command ↔ message = command.encode := by
  constructor
  · intro read
    unfold ofMessage? at read
    split at read
    · rename_i request
      split at read
      · rename_i empty
        cases read
        rw [encode, ← request, ← empty]
      · cases read
    · split at read
      · rename_i value
        rw [ofPayload?_eq_some read, ← value]
      · cases read
  · rintro rfl
    exact ofMessage?_encode command

def sent (command : Command) : UInt8 × UInt16 × List UInt8 :=
  (command.encode.request.number, command.encode.value, command.encode.data)

theorem sent_injective {first second : Command} (same : first.sent = second.sent) :
    first = second := by
  obtain ⟨number, others⟩ := Prod.mk.inj same
  obtain ⟨value, data⟩ := Prod.mk.inj others
  have messages : first.encode = second.encode := by
    rw [Message.mk.injEq]
    exact ⟨Radio.Request.number_injective number, value, data⟩
  have read := ofMessage?_encode first
  rw [messages, ofMessage?_encode] at read
  exact (Option.some.inj read).symm

/-! ## Sending a command -/

def operation : Command → Radio.Operation
  | setChannel megahertz => .setChannel megahertz
  | trimClock offset => .trimClock offset
  | correctDrift rate => .correctDrift rate
  | setChannelMap map => .setChannelMap map
  | clearChannelMap => .clearChannelMap
  | startHopping clockOffset counterOffset => .startHopping clockOffset counterOffset

/-- Whether a command asks for nothing that the radio cannot be tuned to. -/
def Tunable : Command → Prop
  | setChannel megahertz => 2268 ≤ megahertz.toNat ∧ megahertz.toNat ≤ 2794
  | _ => True

/-- Sending a command and the operation for it are the same conversation. -/
theorem perform_send {command : Command} (tunable : command.Tunable) (radio : Radio) :
    Radio.perform radio (.send command) = Radio.perform radio command.operation := by
  cases command with
  | setChannel megahertz =>
      have inside : Radio.lowestFrequency ≤ megahertz ∧ megahertz ≤ Radio.highestFrequency :=
        ⟨UInt16.le_iff_toNat_le.2 tunable.1, UInt16.le_iff_toNat_le.2 tunable.2⟩
      change _ = Radio.finish (Radio.setChannel megahertz)
      rw [Radio.setChannel, if_pos inside]
      rfl
  | trimClock | correctDrift | setChannelMap | clearChannelMap | startHopping => rfl

/-- What a command that was sent comes to. -/
theorem perform_send_run (command : Command) (radio : Radio) (link : Radio.Link) :
    (Radio.perform radio (.send command)).run link =
      ((Radio.acknowledged link.reply).map fun _ => .done,
        link.after (.write command.encode.request command.encode.value command.encode.data)) := by
  change (Radio.finish (Radio.write _ _ _)).run link = _
  rw [Radio.finish, Radio.run_bind, Radio.write_run]
  cases link.reply with
  | ok data => rfl
  | error cause => rfl

end Command

namespace Radio

/-- An operation on an open radio is carried out in either mode, and the mode stays. -/
theorem step_operate (host : Host) {handle : Handle} {radio : Radio}
    (held : handle.radio? = some radio) (operation : Operation) (link : Link) :
    (handle.step host (.operate operation)).run link =
      ((handle, .ofAnswer ((perform radio operation).run link).1),
        ((perform radio operation).run link).2) := by
  cases handle with
  | closed => cases held
  | idle other =>
      cases held
      rfl
  | receiving receiver =>
      cases held
      rfl

/--
Different commands are sent as different requests, values or payloads, and a
reader of these recovers every command.  In every state of a program, and
whatever the reply is, sending a command has the outcome of the operation that
does the same; on an open radio it is one control transfer with what stands for
the command, and its failure is the outcome.
-/
theorem sending_is_the_operation :
    (∀ first second : Command, first ≠ second → first.sent ≠ second.sent) ∧
    (∀ message command,
      Command.ofMessage? message = some command ↔ message = command.encode) ∧
    ∀ command : Command, command.Tunable → ∀ (host : Host) (handle : Handle) (link : Link),
      (handle.step host (.operate (.send command))).run link =
        (handle.step host (.operate command.operation)).run link ∧
      ∀ radio, handle.radio? = some radio →
        (handle.step host (.operate command.operation)).run link =
          ((handle, match link.reply with
            | .ok _ => .answered .done
            | .error cause => .failed (.transfer cause)),
          link.after
            (.write command.encode.request command.encode.value command.encode.data)) := by
  refine ⟨fun first second other same => other (Command.sent_injective same),
    fun message command => Command.ofMessage?_eq_some_iff, ?_⟩
  intro command tunable host handle link
  constructor
  · cases held : handle.radio? with
    | none =>
        cases handle with
        | closed => rfl
        | idle radio => cases held
        | receiving receiver => cases held
    | some radio => rw [step_operate host held, step_operate host held,
        Command.perform_send tunable]
  · intro radio held
    rw [step_operate host held, ← Command.perform_send tunable, Command.perform_send_run]
    cases link.reply with
    | ok data => rfl
    | error cause => rfl

/-- The highest frequency is sent to a radio that streams records and stalls. -/
theorem sending_is_the_operation_stalled :
    let command : Command := .setChannel 2794
    let receiver : Receiver := { radio := { model := .one, version := 0x0102, pending := 3 } }
    let link : Link := { replies := [.error .stalled, .ok [1]] }
    command.Tunable ∧ (Handle.receiving receiver).radio? = some receiver.radio ∧
      ((Handle.receiving receiver).step {} (.operate (.send command))).run link =
        ((.receiving receiver, .failed (.transfer .stalled)),
          { replies := [.ok [1]], log := [.write .setChannel 2794 []] }) ∧
      command ≠ .trimClock 2794 ∧ command.sent ≠ Command.sent (.trimClock 2794) := by
  intro command receiver link
  have tunable : command.Tunable := ⟨by decide, by decide⟩
  obtain ⟨apart, -, same⟩ := sending_is_the_operation
  obtain ⟨sends, does⟩ := same command tunable {} (.receiving receiver) link
  have other : command ≠ .trimClock 2794 := nofun
  exact ⟨tunable, rfl, sends.trans (does receiver.radio rfl), other, apart _ _ other⟩

end Radio

end Piconet
