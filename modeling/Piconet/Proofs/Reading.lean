import Piconet.Proofs.Address.Forms
import Piconet.Proofs.ChannelMap.Forms

/-!
# What is read as an address or as a map

A text is read as an address or as a channel map just when it is, with blanks
around it, a written form of that address or map whose numbers may carry a plus
sign.  Of these texts the ones in hexadecimal digits alone are those without a
plus sign.
-/

namespace Piconet

open Text Text.Hex

/-- Where a plus sign is all that sets two forms apart, it also does for the texts that
have one of them between blanks. -/
theorem exists_surrounds_unsigned_iff {signed unsigned : List Char → Prop}
    (solid : ∀ body, signed body → Solid body)
    (apart : ∀ body, unsigned body ↔ signed body ∧ '+' ∉ body) (text : List Char) :
    (∃ body, Surrounds text body ∧ unsigned body) ↔ signed (trim text) ∧ '+' ∉ text := by
  rw [exists_surrounds_iff (fun body holds => solid body ((apart body).1 holds).1), apart,
    mem_trim_iff (by decide)]

theorem Address.parse_eq_ok_iff (text : String) (address : Address) :
    Address.parse text = .ok address ↔
      ∃ body, Surrounds text.toList body ∧ Address.Written SpellsSigned body address := by
  rw [exists_surrounds_iff fun _ written => written.solid]
  exact Address.parseChars_eq_ok_iff

theorem Address.exists_written_spells_iff (text : String) (address : Address) :
    (∃ body, Surrounds text.toList body ∧ Address.Written Spells body address) ↔
      Address.parse text = .ok address ∧ '+' ∉ text.toList := by
  rw [exists_surrounds_unsigned_iff (fun _ written => written.solid)
    fun _ => Address.written_spells_iff]
  exact and_congr_left' Address.parseChars_eq_ok_iff.symm

theorem ChannelMap.parse_eq_ok_iff (text : String) (map : ChannelMap) :
    ChannelMap.parse text = .ok map ↔
      ∃ body, Surrounds text.toList body ∧ ChannelMap.Written SpellsSigned body map := by
  rw [exists_surrounds_iff fun _ written => written.solid]
  exact ChannelMap.parseChars_eq_ok_iff

theorem ChannelMap.exists_written_spells_iff (text : String) (map : ChannelMap) :
    (∃ body, Surrounds text.toList body ∧ ChannelMap.Written Spells body map) ↔
      ChannelMap.parse text = .ok map ∧ '+' ∉ text.toList := by
  rw [exists_surrounds_unsigned_iff (fun _ written => written.solid)
    fun _ => ChannelMap.written_spells_iff]
  exact and_congr_left' ChannelMap.parseChars_eq_ok_iff.symm

/-- What is read are the written forms between blanks, where a number may carry a plus
sign; without one the numbers are hexadecimal digits and nothing else. -/
theorem read_iff_written (text : String) (address : Address) (map : ChannelMap) :
    ((Address.parse text = .ok address ↔
        ∃ body, Surrounds text.toList body ∧ Address.Written SpellsSigned body address) ∧
      ((∃ body, Surrounds text.toList body ∧ Address.Written Spells body address) ↔
        Address.parse text = .ok address ∧ '+' ∉ text.toList)) ∧
    ((ChannelMap.parse text = .ok map ↔
        ∃ body, Surrounds text.toList body ∧ ChannelMap.Written SpellsSigned body map) ∧
      ((∃ body, Surrounds text.toList body ∧ ChannelMap.Written Spells body map) ↔
        ChannelMap.parse text = .ok map ∧ '+' ∉ text.toList)) :=
  ⟨⟨Address.parse_eq_ok_iff text address, Address.exists_written_spells_iff text address⟩,
    ChannelMap.parse_eq_ok_iff text map, ChannelMap.exists_written_spells_iff text map⟩

/-- A sign in front of a digit is read, though no address is written like this in digits
alone. -/
theorem read_of_sign :
    Address.parse "+1" = .ok (Address.ofNat 1) ∧
      ¬∃ address body, Surrounds "+1".toList body ∧ Address.Written Spells body address := by
  refine ⟨by decide, ?_⟩
  rintro ⟨address, written⟩
  exact ((Address.exists_written_spells_iff "+1" address).1 written).2 (by decide)

end Piconet
