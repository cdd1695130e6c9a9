import Mathlib.Data.Bool.AllAny
import Mathlib.Data.List.Forall2
import Mathlib.Data.List.Induction
import Mathlib.Data.Nat.Digits.Defs
import Piconet.Text.Hex

/-!
# What hexadecimal digits spell

A digit of either case has the value of its place in the row of all sixteen, and
digits in a row are the number with these digits, the most significant one in
front.  The reader of digits takes just the texts that spell a number; the reader
of numbers also takes one plus sign in front of them.  Where a byte is read from two
characters, the second one may so be its only digit.
-/

namespace Piconet.Text.Hex

def lowerRow : List Char :=
  ['0', '1', '2', '3', '4', '5', '6', '7', '8', '9', 'a', 'b', 'c', 'd', 'e', 'f']

def upperRow : List Char :=
  ['0', '1', '2', '3', '4', '5', '6', '7', '8', '9', 'A', 'B', 'C', 'D', 'E', 'F']

/-- A digit stands for its place in one of the rows. -/
def StandsFor (character : Char) (value : Nat) : Prop :=
  lowerRow[value]? = some character ∨ upperRow[value]? = some character

/-- The number that digits spell: the last one stands for the lowest digit in base sixteen. -/
def Spells (text : List Char) (number : Nat) : Prop :=
  ∃ values, List.Forall₂ StandsFor text.reverse values ∧ Nat.ofDigits 16 values = number

/-- At least one digit, behind a plus sign or not. -/
def SpellsSigned (text : List Char) (number : Nat) : Prop :=
  ∃ digits, digits ≠ [] ∧ (text = digits ∨ text = '+' :: digits) ∧ Spells digits number

def numeral : List Char :=
  '+' :: lowerRow ++ upperRow

/-- Two characters that are the number of a byte, for a given form of numbers. -/
def IsPair (Number : List Char → Nat → Prop) (group : List Char) (byte : UInt8) : Prop :=
  group.length = 2 ∧ Number group byte.toNat

/-! ## One digit -/

theorem StandsFor.lt {character : Char} {value : Nat} (stands : StandsFor character value) :
    value < 16 := by
  obtain lower | upper := stands
  · exact (List.getElem?_eq_some_iff.1 lower).1
  · exact (List.getElem?_eq_some_iff.1 upper).1

/-- What holds of every entry of both rows holds of every digit. -/
theorem StandsFor.of_rows (property : Char → Prop) (lower : ∀ entry ∈ lowerRow, property entry)
    (upper : ∀ entry ∈ upperRow, property entry) {character : Char} {value : Nat}
    (stands : StandsFor character value) : property character := by
  obtain found | found := stands
  · exact lower character (List.mem_of_getElem? found)
  · exact upper character (List.mem_of_getElem? found)

theorem StandsFor.ne_plus {character : Char} {value : Nat} (stands : StandsFor character value) :
    character ≠ '+' :=
  stands.of_rows (· ≠ '+') (List.all_iff_forall_prop.1 (by decide))
    (List.all_iff_forall_prop.1 (by decide))

theorem digit?_of_standsFor {character : Char} {value : Nat}
    (stands : StandsFor character value) : digit? character = some value := by
  have checked : ∀ value : Fin 16, digit? lowerRow[value] = some value.val ∧
      digit? upperRow[value] = some value.val := by
    decide
  have small := stands.lt
  obtain lower | upper := stands
  · obtain ⟨_, rfl⟩ := List.getElem?_eq_some_iff.1 lower
    exact (checked ⟨value, small⟩).1
  · obtain ⟨_, rfl⟩ := List.getElem?_eq_some_iff.1 upper
    exact (checked ⟨value, small⟩).2

instance (character : Char) (value : Nat) : Decidable (StandsFor character value) :=
  inferInstanceAs (Decidable (_ ∨ _))

theorem lt_of_digit? {character : Char} {value : Nat} (read : digit? character = some value) :
    character.toNat < 128 := by
  have below {last : Char} (ascii : last.toNat < 128) (within : character ≤ last) :
      character.toNat < 128 := Nat.lt_of_le_of_lt (UInt32.le_iff_toNat_le.1 within) ascii
  unfold digit? at read
  split at read
  case isTrue decimal =>
    rw [Bool.and_eq_true, decide_eq_true_eq, decide_eq_true_eq] at decimal
    exact below (by decide) decimal.2
  case isFalse noDecimal =>
    split at read
    case isTrue lower =>
      rw [Bool.and_eq_true, decide_eq_true_eq, decide_eq_true_eq] at lower
      exact below (by decide) lower.2
    case isFalse noLower =>
      split at read
      case isTrue upper =>
        rw [Bool.and_eq_true, decide_eq_true_eq, decide_eq_true_eq] at upper
        exact below (by decide) upper.2
      case isFalse noUpper => cases read

theorem standsFor_of_digit? {character : Char} {value : Nat}
    (read : digit? character = some value) : StandsFor character value := by
  have checked : ∀ code : Fin 128, ∀ value ∈ digit? (Char.ofNat code),
      StandsFor (Char.ofNat code) value := by
    decide
  have found := checked ⟨character.toNat, lt_of_digit? read⟩ value
  rw [Char.ofNat_toNat] at found
  exact found read

theorem digit?_eq_some_iff {character : Char} {value : Nat} :
    digit? character = some value ↔ StandsFor character value :=
  ⟨standsFor_of_digit?, digit?_of_standsFor⟩

/-! ## Rows of digits -/

theorem spells_nil_iff {number : Nat} : Spells [] number ↔ number = 0 := by
  constructor
  · rintro ⟨values, none, rfl⟩
    cases none
    rfl
  · rintro rfl
    exact ⟨[], .nil, rfl⟩

/-- One more digit at the end moves the others up by one place. -/
theorem spells_concat_iff {text : List Char} {character : Char} {number : Nat} :
    Spells (text ++ [character]) number ↔
      ∃ front last, Spells text front ∧ StandsFor character last ∧ number = 16 * front + last := by
  rw [Spells, List.reverse_append, List.reverse_singleton, List.singleton_append]
  constructor
  · rintro ⟨_, ⟨⟩ | ⟨stands, matched⟩, rfl⟩
    refine ⟨_, _, ⟨_, matched, rfl⟩, stands, ?_⟩
    rw [Nat.ofDigits_cons, Nat.add_comm]
  · rintro ⟨front, last, ⟨values, matched, rfl⟩, stands, rfl⟩
    refine ⟨last :: values, .cons stands matched, ?_⟩
    rw [Nat.ofDigits_cons, Nat.add_comm]

theorem digits?_concat (text : List Char) (character : Char) :
    digits? (text ++ [character]) =
      (digits? text).bind fun front => (digit? character).map (16 * front + ·) := by
  rw [digits?, List.foldlM_append]
  refine congrArg (Option.bind (digits? text)) (funext fun front => ?_)
  rw [List.foldlM_cons]
  cases digit? character with
  | none => rfl
  | some last => rfl

/-- What is read of digits is the number that they spell. -/
theorem digits?_eq_some_iff {text : List Char} {number : Nat} :
    digits? text = some number ↔ Spells text number := by
  induction text using List.reverseRecOn generalizing number with
  | nil =>
      rw [spells_nil_iff]
      exact ⟨fun read => (Option.some.inj read).symm, fun zero => congrArg some zero.symm⟩
  | append_singleton text character ih =>
      rw [digits?_concat, spells_concat_iff, Option.bind_eq_some_iff]
      constructor
      · rintro ⟨front, read, rest⟩
        obtain ⟨last, value, rfl⟩ := Option.map_eq_some_iff.1 rest
        exact ⟨front, last, ih.1 read, digit?_eq_some_iff.1 value, rfl⟩
      · rintro ⟨front, last, spelled, stands, rfl⟩
        exact ⟨front, ih.2 spelled,
          Option.map_eq_some_iff.2 ⟨last, digit?_eq_some_iff.2 stands, rfl⟩⟩

theorem Spells.exists_of_mem {text : List Char} {number : Nat} (spelled : Spells text number) :
    ∀ character ∈ text, ∃ value, StandsFor character value := by
  induction text using List.reverseRecOn generalizing number with
  | nil => exact nofun
  | append_singleton text character ih =>
      obtain ⟨front, last, rest, stands, -⟩ := spells_concat_iff.1 spelled
      intro other member
      obtain earlier | same := List.mem_append.1 member
      · exact ih rest other earlier
      · obtain rfl := List.mem_singleton.1 same
        exact ⟨last, stands⟩

theorem Spells.lt {text : List Char} {number : Nat} (spelled : Spells text number) :
    number < 16 ^ text.length := by
  induction text using List.reverseRecOn generalizing number with
  | nil =>
      rw [spells_nil_iff.1 spelled]
      exact Nat.one_pos
  | append_singleton text character ih =>
      obtain ⟨front, last, rest, stands, rfl⟩ := spells_concat_iff.1 spelled
      have below := ih rest
      have digit := stands.lt
      rw [List.length_append, List.length_singleton, Nat.pow_succ]
      omega

/-! ## Numbers with a sign -/

theorem Spells.ne_plus {text : List Char} {number : Nat} (spelled : Spells text number) :
    '+' ∉ text := by
  intro member
  obtain ⟨value, stands⟩ := spelled.exists_of_mem '+' member
  exact stands.ne_plus rfl

theorem spellsSigned_plus_iff {text : List Char} {number : Nat} :
    SpellsSigned ('+' :: text) number ↔ text ≠ [] ∧ Spells text number := by
  constructor
  · rintro ⟨digits, nonempty, rfl | same, spelled⟩
    · exact absurd List.mem_cons_self spelled.ne_plus
    · cases same
      exact ⟨nonempty, spelled⟩
  · rintro ⟨nonempty, spelled⟩
    exact ⟨text, nonempty, .inr rfl, spelled⟩

theorem spellsSigned_iff_of_ne_plus {text : List Char} {number : Nat}
    (unsigned : ∀ digits, text ≠ '+' :: digits) :
    SpellsSigned text number ↔ text ≠ [] ∧ Spells text number := by
  constructor
  · rintro ⟨digits, nonempty, rfl | same, spelled⟩
    · exact ⟨nonempty, spelled⟩
    · exact absurd same (unsigned digits)
  · rintro ⟨nonempty, spelled⟩
    exact ⟨text, nonempty, .inl rfl, spelled⟩

/-- What is read of a number are its digits, behind at most one plus sign. -/
theorem number?_eq_some_iff {text : List Char} {number : Nat} :
    number? text = some number ↔ SpellsSigned text number := by
  unfold number?
  split
  case h_1 =>
    rw [spellsSigned_iff_of_ne_plus fun _ => (List.cons_ne_nil _ _).symm]
    exact iff_of_false (fun read => nomatch read) fun spelled => spelled.1 rfl
  case h_2 =>
    rw [spellsSigned_plus_iff]
    exact iff_of_false (fun read => nomatch read) fun spelled => spelled.1 rfl
  case h_3 digits several =>
    rw [spellsSigned_plus_iff, digits?_eq_some_iff]
    exact (and_iff_right several).symm
  case h_4 several _ unsigned =>
    rw [spellsSigned_iff_of_ne_plus unsigned, digits?_eq_some_iff]
    exact (and_iff_right several).symm

theorem SpellsSigned.subset {text : List Char} {number : Nat}
    (spelled : SpellsSigned text number) : text ⊆ numeral := by
  obtain ⟨digits, -, same, spelled⟩ := spelled
  have entries : digits ⊆ numeral := by
    intro character member
    obtain ⟨value, stands⟩ := spelled.exists_of_mem character member
    exact stands.of_rows (· ∈ numeral) (List.all_iff_forall_prop.1 (by decide))
      (List.all_iff_forall_prop.1 (by decide))
  obtain rfl | rfl := same
  · exact entries
  · exact List.cons_subset.2 ⟨List.mem_cons_self, entries⟩

theorem SpellsSigned.lt {text : List Char} {number : Nat} (spelled : SpellsSigned text number) :
    number < 16 ^ text.length := by
  obtain ⟨digits, -, rfl | rfl, spelled⟩ := spelled
  · exact spelled.lt
  · exact spelled.lt.trans_le (Nat.pow_le_pow_right (by decide) (Nat.le_succ _))

/-- A number without a plus sign is all digits. -/
theorem spells_iff_spellsSigned {text : List Char} (nonempty : text ≠ []) {number : Nat} :
    Spells text number ↔ '+' ∉ text ∧ SpellsSigned text number := by
  constructor
  · exact fun spelled => ⟨spelled.ne_plus, text, nonempty, .inl rfl, spelled⟩
  · rintro ⟨unsigned, digits, -, rfl | rfl, spelled⟩
    · exact spelled
    · exact absurd List.mem_cons_self unsigned

/-! ## Bytes by two digits each -/

theorem isPair_spells_iff {group : List Char} {byte : UInt8} :
    IsPair Spells group byte ↔ '+' ∉ group ∧ IsPair SpellsSigned group byte := by
  rw [IsPair, IsPair, and_left_comm]
  refine and_congr_right fun two => spells_iff_spellsSigned ?_
  rintro rfl
  cases two

theorem pairs_spells_iff {groups : List (List Char)} {bytes : List UInt8} :
    List.Forall₂ (IsPair Spells) groups bytes ↔
      (∀ group ∈ groups, '+' ∉ group) ∧ List.Forall₂ (IsPair SpellsSigned) groups bytes := by
  rw [← List.forall₂_and_left]
  exact ⟨.imp fun _ _ => isPair_spells_iff.1, .imp fun _ _ => isPair_spells_iff.2⟩

theorem length_of_pairs {Number : List Char → Nat → Prop} {groups : List (List Char)}
    {bytes : List UInt8} (pairs : List.Forall₂ (IsPair Number) groups bytes) :
    ∀ group ∈ groups, group.length = 2 := by
  induction pairs with
  | nil => exact nofun
  | cons pair others ih => exact List.forall_mem_cons.2 ⟨pair.1, ih⟩

theorem pairs_subset {groups : List (List Char)} {bytes : List UInt8}
    (pairs : List.Forall₂ (IsPair SpellsSigned) groups bytes) :
    ∀ group ∈ groups, group ⊆ numeral := by
  induction pairs with
  | nil => exact nofun
  | cons pair others ih => exact List.forall_mem_cons.2 ⟨pair.2.subset, ih⟩

/-! ## Bytes as they are written -/

theorem standsFor_digit {value : Nat} (small : value < 16) : StandsFor (digit value) value :=
  standsFor_of_digit? (digit?_digit small)

theorem spells_ofByte (byte : UInt8) : Spells (ofByte byte) byte.toNat := by
  have below : byte.toNat < 256 := byte.toNat_lt
  have high : Spells [digit (byte.toNat / 16)] (byte.toNat / 16) :=
    spells_concat_iff.2 ⟨0, byte.toNat / 16, spells_nil_iff.2 rfl,
      standsFor_digit (by omega), by omega⟩
  exact spells_concat_iff.2 ⟨byte.toNat / 16, byte.toNat % 16, high,
    standsFor_digit (by omega), by omega⟩

theorem pairs_ofByte (bytes : List UInt8) :
    List.Forall₂ (IsPair Spells) (bytes.map ofByte) bytes := by
  rw [List.forall₂_map_left_iff, List.forall₂_same]
  exact fun byte _ => ⟨length_ofByte byte, spells_ofByte byte⟩

end Piconet.Text.Hex
