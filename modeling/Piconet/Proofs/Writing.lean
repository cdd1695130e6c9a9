import Piconet.Proofs.Address.Words
import Piconet.Proofs.Reading

/-!
# What is written is read back

The printed form of an address or of a channel map is read as just this address or
map, also with blanks around it, and a map also behind its marker.  An address is
made of its parts, and no word that is cut, put together or read holds more than the
48 bits of an address.
-/

namespace Piconet

open Text Text.Hex

/-- Blanks around a text. -/
theorem surrounds_toList {before after : String}
    (leading : ∀ character ∈ before.toList, isBlank character = true)
    (trailing : ∀ character ∈ after.toList, isBlank character = true) (body : String) :
    Surrounds (before ++ body ++ after).toList body.toList := by
  rw [String.toList_append, String.toList_append]
  exact ⟨before.toList, after.toList, rfl, leading, trailing⟩

theorem Address.toList_toString (address : Address) :
    (toString address).toList = address.render :=
  String.toList_ofList

theorem ChannelMap.toList_toString (map : ChannelMap) : (toString map).toList = map.render :=
  String.toList_ofList

theorem Address.parse_surrounded {text : String} {address : Address}
    (around : Surrounds text.toList address.render) : Address.parse text = .ok address :=
  ((Address.exists_written_spells_iff text address).1
    ⟨_, around, address.written_render⟩).1

theorem ChannelMap.parse_surrounded {text : String} {map : ChannelMap} {marker : List Char}
    (marked : marker ∈ ChannelMap.markers) (around : Surrounds text.toList (marker ++ map.render)) :
    ChannelMap.parse text = .ok map :=
  ((ChannelMap.exists_written_spells_iff text map).1
    ⟨_, around, map.written_render marked⟩).1

theorem Address.readWord_lt {text : String} {word : UInt64}
    (read : Address.readWord text = .ok word) : word.toNat < 2 ^ 48 := by
  rw [Address.readWord_eq] at read
  cases parsed : Address.parse text with
  | error failure =>
      rw [parsed] at read
      cases read
  | ok address =>
      rw [parsed] at read
      cases read
      exact address.word_lt

/--
An address is read back from its printed form, and a map from its own, behind a
marker or not, whatever blanks are around them; and an address is made of its parts.
Reading, cutting and putting together give addresses of 48 bits: this is so even
where they are carried out on words of 64 bits and nothing that is read is cut.
-/
theorem written_is_read_back {before after : String}
    (leading : ∀ character ∈ before.toList, isBlank character = true)
    (trailing : ∀ character ∈ after.toList, isBlank character = true) (address : Address)
    (map : ChannelMap) :
    Address.parse (before ++ toString address ++ after) = .ok address ∧
    Address.ofParts address.nap address.uap address.lap = address ∧
    (∀ text, Address.readWord text = (Address.parse text).map Address.word ∧
      ∀ word, Address.readWord text = .ok word → word.toNat < 2 ^ 48) ∧
    (∀ number, Address.cutWord number = (Address.ofNat number.toNat).word ∧
      (Address.cutWord number).toNat < 2 ^ 48) ∧
    (∀ nap uap lap, Address.wordOfParts nap uap lap =
        (Address.ofParts nap.toBitVec uap.toBitVec (lap.toBitVec.setWidth 24)).word ∧
      (Address.wordOfParts nap uap lap).toNat < 2 ^ 48) ∧
    ∀ marker ∈ ["", "0x"],
      ChannelMap.parse (before ++ (marker ++ toString map) ++ after) = .ok map := by
  refine ⟨Address.parse_surrounded ?_, address.ofParts_parts,
    fun text => ⟨Address.readWord_eq text, fun _ => Address.readWord_lt⟩, fun number => ?_,
    fun nap uap lap => ?_, fun marker marked => ?_⟩
  · have around := surrounds_toList leading trailing (toString address)
    rwa [address.toList_toString] at around
  · have cut := Address.cutWord_eq number
    exact ⟨cut, cut ▸ Address.word_lt _⟩
  · have put := Address.wordOfParts_eq nap uap lap
    exact ⟨put, put ▸ Address.word_lt _⟩
  · have body : (marker ++ toString map).toList = marker.toList ++ map.render := by
      rw [String.toList_append, map.toList_toString]
    have around := surrounds_toList leading trailing (marker ++ toString map)
    rw [body] at around
    refine ChannelMap.parse_surrounded ?_ around
    have known : ∀ entry ∈ ["", "0x"], entry.toList ∈ ChannelMap.markers := by decide
    exact known marker marked

/-- An address between wide blanks, and a map with its last bit set behind a marker. -/
theorem written_is_read_back_wide :
    let before := "\u2003\t"
    let after := "\r\n\u3000"
    let map : ChannelMap := ⟨#v[0x01, 0x23, 0x45, 0x67, 0x89, 0xab, 0xcd, 0xef, 0x00, 0xff]⟩
    (∀ character ∈ before.toList, isBlank character = true) ∧
      (∀ character ∈ after.toList, isBlank character = true) ∧
      Address.parse (before ++ "00:11:22:9e:8b:33" ++ after) = .ok (.ofNat 0x1122_9e8b33) ∧
      ChannelMap.parse (before ++ "0x0123456789abcdef00ff" ++ after) = .ok map := by
  intro before after map
  have leading : ∀ character ∈ before.toList, isBlank character = true :=
    List.all_eq_true.1 (by decide)
  have trailing : ∀ character ∈ after.toList, isBlank character = true :=
    List.all_eq_true.1 (by decide)
  obtain ⟨address, -, -, -, -, marked⟩ :=
    written_is_read_back leading trailing (.ofNat 0x1122_9e8b33) map
  exact ⟨leading, trailing, address, marked "0x" (by decide)⟩

end Piconet
