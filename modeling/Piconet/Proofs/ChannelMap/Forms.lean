import Piconet.ChannelMap
import Piconet.Proofs.Text.Blank
import Piconet.Proofs.Text.Hex

/-!
# The form of a channel map

A channel map is written as its bytes, two digits for each, behind a marker or
not.  The text that is left between the blanks is read as a map just when it has
this form, where the two characters of a byte may also be a plus sign and a digit.
-/

namespace Piconet.ChannelMap

open Text Text.Hex

def markers : List (List Char) :=
  [[], ['0', 'x']]

/-- The texts that a map is written as, for a given form of numbers: the ten bytes are
twenty characters. -/
inductive Written (Number : List Char → Nat → Prop) : List Char → ChannelMap → Prop where
  | bytes {marker : List Char} {groups : List (List Char)} {map : ChannelMap}
      (marked : marker ∈ markers)
      (pairs : List.Forall₂ (IsPair Number) groups map.bytes.toList) :
      Written Number (marker ++ groups.flatten) map

/-! ## Pairs of characters -/

theorem length_flatten_of_pairs {groups : List (List Char)}
    (two : ∀ group ∈ groups, group.length = 2) :
    groups.flatten.length = 2 * groups.length := by
  induction groups with
  | nil => rfl
  | cons group others ih =>
      obtain ⟨pair, later⟩ := List.forall_mem_cons.1 two
      rw [List.flatten_cons, List.length_append, List.length_cons, pair, ih later]
      omega

theorem exists_pairs (count : Nat) {text : List Char} (whole : text.length = 2 * count) :
    ∃ groups : List (List Char),
      (∀ group ∈ groups, group.length = 2) ∧ groups.flatten = text := by
  induction count generalizing text with
  | zero => exact ⟨[], nofun, (List.eq_nil_of_length_eq_zero whole).symm⟩
  | succ count ih =>
      match text, whole with
      | first :: second :: rest, whole =>
          have shorter : rest.length = 2 * count := by
            rw [List.length_cons, List.length_cons] at whole
            omega
          obtain ⟨groups, two, rfl⟩ := ih shorter
          exact ⟨[first, second] :: groups, List.forall_mem_cons.2 ⟨rfl, two⟩, rfl⟩

/-! ## Bytes -/

theorem readBytes_flatten_eq_some_iff {groups : List (List Char)}
    (two : ∀ group ∈ groups, group.length = 2) {bytes : List UInt8} :
    readBytes groups.flatten = some bytes ↔
      List.Forall₂ (IsPair SpellsSigned) groups bytes := by
  induction groups generalizing bytes with
  | nil =>
      rw [List.forall₂_nil_left_iff]
      exact ⟨fun read => (Option.some.inj read).symm, fun none => congrArg some none.symm⟩
  | cons group others ih =>
      obtain ⟨pair, later⟩ := List.forall_mem_cons.1 two
      obtain ⟨first, second, rfl⟩ := List.length_eq_two.1 pair
      rw [List.forall₂_cons_left_iff, List.flatten_cons, List.cons_append, List.cons_append,
        List.nil_append, readBytes, Option.bind_eq_bind, Option.bind_eq_some_iff]
      constructor
      · rintro ⟨value, number, rest⟩
        obtain ⟨remaining, found, same⟩ := Option.bind_eq_some_iff.1 rest
        have spelled := number?_eq_some_iff.1 number
        have small : value < 256 := spelled.lt
        rw [← UInt8.toNat_ofNat_of_lt' small] at spelled
        exact ⟨_, remaining, ⟨rfl, spelled⟩, (ih later).1 found, (Option.some.inj same).symm⟩
      · rintro ⟨byte, remaining, ⟨-, spelled⟩, matched, rfl⟩
        refine ⟨byte.toNat, number?_eq_some_iff.2 spelled, ?_⟩
        rw [(ih later).2 matched, UInt8.ofNat_toNat]
        rfl

/-! ## The whole form -/

theorem exists_marker (text : List Char) :
    ∃ marker ∈ markers, text = marker ++ dropMarker text := by
  unfold dropMarker
  split
  · exact ⟨['0', 'x'], by decide, rfl⟩
  · exact ⟨[], by decide, rfl⟩

theorem dropMarker_append {marker digits : List Char} (marked : marker ∈ markers)
    (entries : digits ⊆ numeral) : dropMarker (marker ++ digits) = digits := by
  have cases : marker = [] ∨ marker = ['0', 'x'] := by
    simpa only [markers, List.mem_cons, List.not_mem_nil, or_false] using marked
  obtain rfl | rfl := cases
  · rw [List.nil_append]
    unfold dropMarker
    split
    · exact absurd (entries (List.mem_cons_of_mem _ List.mem_cons_self)) (by decide)
    · rfl
  · rfl

theorem flatten_subset {groups : List (List Char)} {bytes : List UInt8}
    (pairs : List.Forall₂ (IsPair SpellsSigned) groups bytes) : groups.flatten ⊆ numeral := by
  intro character member
  obtain ⟨group, among, inside⟩ := List.mem_flatten.1 member
  exact pairs_subset pairs group among inside

theorem parseChars_eq_ok_iff {text : List Char} {map : ChannelMap} :
    parseChars text = .ok map ↔ Written SpellsSigned (trim text) map := by
  rw [parseChars]
  generalize trim text = body
  constructor
  · intro read
    obtain ⟨marker, marked, same⟩ := exists_marker body
    split at read
    case isTrue plain =>
      obtain ⟨groups, two, whole⟩ := exists_pairs 10 plain.1
      rw [← whole] at read
      split at read
      case h_1 => cases read
      case h_2 bytes found =>
        split at read
        case isTrue exact =>
          cases read
          rw [same, ← whole]
          exact .bytes marked ((readBytes_flatten_eq_some_iff two).1 found)
        case isFalse => cases read
    case isFalse => cases read
  · rintro ⟨marked, pairs⟩
    rename_i marker groups
    have two := length_of_pairs pairs
    have entries := flatten_subset pairs
    have count : groups.length = 10 := pairs.length_eq.trans Vector.length_toList
    have twenty : groups.flatten.length = 20 := by
      rw [length_flatten_of_pairs two, count]
    have ascii : groups.flatten.all (fun character => character.toNat < 128) = true := by
      have known : ∀ entry ∈ numeral, entry.toNat < 128 :=
        List.all_iff_forall_prop.1 (by decide)
      exact List.all_eq_true.2 fun character member =>
        decide_eq_true (known character (entries member))
    rw [dropMarker_append marked entries, if_pos ⟨twenty, ascii⟩,
      (readBytes_flatten_eq_some_iff two).2 pairs]
    exact dif_pos map.bytes.size_toArray

theorem Written.solid {body : List Char} {map : ChannelMap}
    (written : Written SpellsSigned body map) : Solid body := by
  have front : ∀ marker ∈ markers, Solid marker := by decide
  have digit : Solid numeral := by decide
  obtain ⟨marked, pairs⟩ := written
  intro character member
  obtain inside | inside := List.mem_append.1 member
  · exact front _ marked character inside
  · exact digit character (flatten_subset pairs inside)

/-- Among the texts that are read, the ones with digits only are those without a plus sign. -/
theorem written_spells_iff {body : List Char} {map : ChannelMap} :
    Written Spells body map ↔ Written SpellsSigned body map ∧ '+' ∉ body := by
  have front : ∀ marker ∈ markers, '+' ∉ marker := by decide
  constructor
  · rintro ⟨marked, pairs⟩
    obtain ⟨unsigned, signed⟩ := pairs_spells_iff.1 pairs
    refine ⟨.bytes marked signed, fun member => ?_⟩
    obtain inside | inside := List.mem_append.1 member
    · exact front _ marked inside
    · obtain ⟨group, among, found⟩ := List.mem_flatten.1 inside
      exact unsigned group among found
  · rintro ⟨⟨marked, signed⟩, unsigned⟩
    refine .bytes marked (pairs_spells_iff.2 ⟨fun group among found => ?_, signed⟩)
    exact unsigned (List.mem_append_right _ (List.mem_flatten.2 ⟨group, among, found⟩))

/-- A map is printed in its form, and so it is with a marker in front. -/
theorem written_render (map : ChannelMap) {marker : List Char} (marked : marker ∈ markers) :
    Written Spells (marker ++ map.render) map := by
  rw [render, ofBytes, List.flatMap_def]
  exact .bytes marked (pairs_ofByte map.bytes.toList)

end Piconet.ChannelMap
