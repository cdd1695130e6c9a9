import Piconet.Address
import Piconet.Proofs.Text.Blank
import Piconet.Proofs.Text.Hex

/-!
# The forms of an address

An address is written as its octets with colons between them or as one number,
which may stand behind a marker.  The text that is left between the blanks is read
as an address just when it has one of these forms, where a number may carry a plus
sign, also in front of the second digit of an octet.
-/

namespace Piconet.Address

open Text Text.Hex

def markers : List (List Char) :=
  [[], ['0', 'x'], ['0', 'X']]

/-- The texts that an address is written as, for a given form of numbers. -/
inductive Written (Number : List Char → Nat → Prop) : List Char → Address → Prop where
  | octets {groups : List (List Char)} {address : Address}
      (pairs : List.Forall₂ (IsPair Number) groups address.octets) :
      Written Number (List.intercalate [':'] groups) address
  | number {marker digits : List Char} {address : Address} (marked : marker ∈ markers)
      (nonempty : digits ≠ []) (short : digits.length ≤ 12)
      (spelled : Number digits address.bits.toNat) :
      Written Number (marker ++ digits) address

/-! ## Groups between separators -/

theorem mem_intercalate {separator character : Char} {groups : List (List Char)}
    (member : character ∈ List.intercalate [separator] groups) :
    character = separator ∨ ∃ group ∈ groups, character ∈ group := by
  induction groups with
  | nil => cases member
  | cons group others ih =>
      cases others with
      | nil =>
          rw [List.intercalate_singleton] at member
          exact .inr ⟨group, List.mem_cons_self, member⟩
      | cons next rest =>
          rw [List.intercalate_cons_cons, List.mem_append, List.mem_append,
            List.mem_singleton] at member
          obtain (inside | same) | later := member
          · exact .inr ⟨group, List.mem_cons_self, inside⟩
          · exact .inl same
          · obtain same | ⟨other, among, inside⟩ := ih later
            · exact .inl same
            · exact .inr ⟨other, List.mem_cons_of_mem group among, inside⟩

theorem subset_intercalate {separator : Char} {groups : List (List Char)} :
    ∀ group ∈ groups, group ⊆ List.intercalate [separator] groups := by
  induction groups with
  | nil => exact nofun
  | cons group others ih =>
      cases others with
      | nil =>
          rw [List.intercalate_singleton]
          exact List.forall_mem_singleton.2 (List.Subset.refl group)
      | cons next rest =>
          rw [List.intercalate_cons_cons, List.append_assoc]
          refine List.forall_mem_cons.2 ⟨List.subset_append_left _ _, fun other among => ?_⟩
          exact List.subset_append_of_subset_right _
            (List.subset_append_of_subset_right _ (ih other among))

theorem separator_mem_intercalate {separator : Char} {groups : List (List Char)}
    (several : 2 ≤ groups.length) : separator ∈ List.intercalate [separator] groups := by
  match groups, several with
  | first :: second :: rest, _ =>
      rw [List.intercalate_cons_cons]
      exact List.mem_append_left _ (List.mem_append_right _ List.mem_cons_self)

/-! ## Octets -/

theorem byteLength_of_subset {text : List Char} (entries : text ⊆ numeral) :
    byteLength text = text.length := by
  have narrow : ∀ entry ∈ numeral, entry.utf8Size = 1 :=
    List.all_iff_forall_prop.1 (by decide)
  have counted : ∀ start, text.foldl (fun length char => length + char.utf8Size) start =
      start + text.length := by
    induction text with
    | nil => exact fun _ => rfl
    | cons first rest ih =>
        intro start
        obtain ⟨known, others⟩ := List.cons_subset.1 entries
        rw [List.foldl_cons, narrow first known, ih others, List.length_cons]
        omega
  rw [byteLength, counted, Nat.zero_add]

theorem parseOctet_eq_ok_iff {group : List Char} {value : Nat} :
    parseOctet group = .ok value ↔ group.length = 2 ∧ SpellsSigned group value := by
  unfold parseOctet
  constructor
  · intro read
    split at read
    case isTrue => cases read
    case isFalse two =>
      rw [Decidable.not_not] at two
      split at read
      case h_1 => cases read
      case h_2 found number =>
        cases read
        have spelled := number?_eq_some_iff.1 number
        exact ⟨byteLength_of_subset spelled.subset ▸ two, spelled⟩
  · rintro ⟨two, spelled⟩
    rw [byteLength_of_subset spelled.subset, if_neg (not_not_intro two),
      number?_eq_some_iff.2 spelled]

theorem mapM_parseOctet_eq_ok_iff {groups : List (List Char)} {values : List Nat} :
    groups.mapM parseOctet = .ok values ↔
      List.Forall₂ (fun group value => parseOctet group = .ok value) groups values := by
  induction groups generalizing values with
  | nil =>
      rw [List.mapM_nil, List.forall₂_nil_left_iff]
      exact ⟨fun read => (Except.ok.inj read).symm, fun same => congrArg Except.ok same.symm⟩
  | cons group others ih =>
      rw [List.mapM_cons, List.forall₂_cons_left_iff]
      cases first : parseOctet group with
      | error failure =>
          constructor
          · exact nofun
          · rintro ⟨_, _, impossible, -⟩
            cases impossible
      | ok value =>
          cases rest : others.mapM parseOctet with
          | error failure =>
              constructor
              · exact nofun
              · rintro ⟨_, remaining, -, matched, -⟩
                cases (ih.2 matched).symm.trans rest
          | ok remaining =>
              constructor
              · rintro ⟨⟩
                exact ⟨value, remaining, rfl, ih.1 rest, rfl⟩
              · rintro ⟨_, found, ⟨⟩, matched, rfl⟩
                cases (ih.2 matched).symm.trans rest
                rfl

theorem ofNat_eq_iff {number : Nat} (small : number < 2 ^ 48) {address : Address} :
    ofNat number = address ↔ number = address.bits.toNat := by
  constructor
  · rintro rfl
    rw [ofNat, BitVec.toNat_ofNat, Nat.mod_eq_of_lt small]
  · rintro rfl
    rw [ofNat, BitVec.ofNat_toNat, BitVec.setWidth_eq]

/-- Six octets put one behind the other are the address that has them. -/
theorem ofNat_foldl_eq_iff {values : List Nat} (six : values.length = 6)
    (small : ∀ value ∈ values, value < 256) {address : Address} :
    ofNat (values.foldl (fun number octet => 256 * number + octet) 0) = address ↔
      values = address.octets.map UInt8.toNat := by
  match values, six with
  | [first, second, third, fourth, fifth, sixth], _ =>
      simp only [List.forall_mem_cons, List.not_mem_nil, false_implies, implies_true,
        and_true] at small
      have below := address.bits.isLt
      have number : List.foldl (fun number octet => 256 * number + octet) 0
          [first, second, third, fourth, fifth, sixth] < 2 ^ 48 := by
        simp only [List.foldl_cons, List.foldl_nil]
        omega
      rw [ofNat_eq_iff number]
      simp only [List.foldl_cons, List.foldl_nil, octets, List.map_cons, List.map_nil,
        UInt8.toNat, BitVec.extractLsb'_toNat, Nat.shiftRight_eq_div_pow, List.cons.injEq,
        and_true]
      omega

theorem parseOctet_pairs_iff {groups : List (List Char)} {bytes : List UInt8} :
    List.Forall₂ (fun group value => parseOctet group = .ok value) groups
        (bytes.map UInt8.toNat) ↔
      List.Forall₂ (IsPair SpellsSigned) groups bytes := by
  rw [List.forall₂_map_right_iff]
  exact ⟨.imp fun _ _ => parseOctet_eq_ok_iff.1, .imp fun _ _ => parseOctet_eq_ok_iff.2⟩

theorem lt_of_parseOctet {groups : List (List Char)} {values : List Nat}
    (read : List.Forall₂ (fun group value => parseOctet group = .ok value) groups values) :
    ∀ value ∈ values, value < 256 := by
  induction read with
  | nil => exact nofun
  | cons first others ih =>
      obtain ⟨two, spelled⟩ := parseOctet_eq_ok_iff.1 first
      have below := spelled.lt
      rw [two] at below
      exact List.forall_mem_cons.2 ⟨below, ih⟩

theorem parseOctets_eq_ok_iff {text : List Char} {address : Address} :
    parseOctets text = .ok address ↔
      List.Forall₂ (IsPair SpellsSigned) (text.splitOn ':') address.octets := by
  rw [← parseOctet_pairs_iff, parseOctets]
  constructor
  · intro read
    cases each : (text.splitOn ':').mapM parseOctet with
    | error failure =>
        rw [each] at read
        cases read
    | ok values =>
        rw [each] at read
        change (if values.length = 6 then _ else _) = _ at read
        have matched := mapM_parseOctet_eq_ok_iff.1 each
        split at read
        case isTrue six =>
          have same := (ofNat_foldl_eq_iff six (lt_of_parseOctet matched)).1 (Except.ok.inj read)
          rwa [← same]
        case isFalse => cases read
  · intro matched
    rw [mapM_parseOctet_eq_ok_iff.2 matched]
    exact congrArg Except.ok ((ofNat_foldl_eq_iff rfl (lt_of_parseOctet matched)).2 rfl)

/-! ## One number -/

theorem marker_plain : ∀ marker ∈ markers, ':' ∉ marker ∧ '+' ∉ marker := by
  decide

theorem exists_marker (text : List Char) :
    ∃ marker ∈ markers, text = marker ++ dropMarker text := by
  unfold dropMarker
  split
  · exact ⟨['0', 'x'], by decide, rfl⟩
  · exact ⟨['0', 'X'], by decide, rfl⟩
  · exact ⟨[], by decide, rfl⟩

theorem dropMarker_append {marker digits : List Char} (marked : marker ∈ markers)
    (entries : digits ⊆ numeral) : dropMarker (marker ++ digits) = digits := by
  have cases : marker = [] ∨ marker = ['0', 'x'] ∨ marker = ['0', 'X'] := by
    simpa only [markers, List.mem_cons, List.not_mem_nil, or_false] using marked
  obtain rfl | rfl | rfl := cases
  · rw [List.nil_append]
    unfold dropMarker
    split
    · exact absurd (entries (List.mem_cons_of_mem _ List.mem_cons_self)) (by decide)
    · exact absurd (entries (List.mem_cons_of_mem _ List.mem_cons_self)) (by decide)
    · rfl
  · rfl
  · rfl

theorem parseNumber_eq_ok_iff {text : List Char} {address : Address} :
    parseNumber text = .ok address ↔
      dropMarker text ≠ [] ∧ (dropMarker text).length ≤ 12 ∧
        SpellsSigned (dropMarker text) address.bits.toNat := by
  rw [parseNumber]
  generalize dropMarker text = digits
  constructor
  · intro read
    split at read
    case isTrue => cases read
    case isFalse measured =>
      split at read
      case h_1 => cases read
      case h_2 value number =>
        have spelled := number?_eq_some_iff.1 number
        rw [byteLength_of_subset spelled.subset, not_or, Nat.not_lt, List.length_eq_zero_iff]
          at measured
        have small := spelled.lt.trans_le (Nat.pow_le_pow_right (by decide) measured.2)
        have same := (ofNat_eq_iff small).1 (Except.ok.inj read)
        exact ⟨measured.1, measured.2, same ▸ spelled⟩
  · rintro ⟨nonempty, short, spelled⟩
    have measured : ¬(digits.length = 0 ∨ 12 < digits.length) := by
      rw [List.length_eq_zero_iff]
      exact not_or.2 ⟨nonempty, Nat.not_lt.2 short⟩
    rw [byteLength_of_subset spelled.subset, if_neg measured, number?_eq_some_iff.2 spelled]
    exact congrArg Except.ok ((ofNat_eq_iff address.bits.isLt).2 rfl)

/-! ## Either form -/

theorem parseChars_eq_ok_iff {text : List Char} {address : Address} :
    parseChars text = .ok address ↔ Written SpellsSigned (trim text) address := by
  rw [parseChars]
  generalize trim text = body
  constructor
  · intro read
    split at read
    case isTrue =>
      have whole : List.intercalate [':'] (body.splitOn ':') = body :=
        List.intercalate_splitOn ':'
      rw [← whole]
      exact .octets (parseOctets_eq_ok_iff.1 read)
    case isFalse =>
      obtain ⟨marker, marked, same⟩ := exists_marker body
      obtain ⟨nonempty, short, spelled⟩ := parseNumber_eq_ok_iff.1 read
      rw [same]
      exact .number marked nonempty short spelled
  · rintro (pairs | ⟨marked, nonempty, short, spelled⟩)
    case octets groups =>
      have count : groups.length = 6 := pairs.length_eq
      rw [if_pos (separator_mem_intercalate (by omega)), parseOctets_eq_ok_iff,
        List.splitOn_intercalate]
      · exact pairs
      · intro group among inside
        exact absurd (pairs_subset pairs group among inside) (by decide)
      · rintro rfl
        cases count
    case number marker digits =>
      have whole : ':' ∉ marker ++ digits := by
        rw [List.mem_append, not_or]
        exact ⟨(marker_plain marker marked).1,
          fun member => absurd (spelled.subset member) (by decide)⟩
      rw [if_neg whole, parseNumber_eq_ok_iff, dropMarker_append marked spelled.subset]
      exact ⟨nonempty, short, spelled⟩

theorem Written.solid {body : List Char} {address : Address}
    (written : Written SpellsSigned body address) : Solid body := by
  have front : ∀ marker ∈ markers, Solid marker := by decide
  have digit : Solid numeral := by decide
  intro character member
  obtain pairs | ⟨marked, nonempty, short, spelled⟩ := written
  case octets groups =>
    obtain rfl | ⟨group, among, inside⟩ := mem_intercalate member
    · rfl
    · exact digit character (pairs_subset pairs group among inside)
  case number marker digits =>
    obtain inside | inside := List.mem_append.1 member
    · exact front _ marked character inside
    · exact digit character (spelled.subset inside)

/-- Among the texts that are read, the ones with digits only are those without a plus sign. -/
theorem written_spells_iff {body : List Char} {address : Address} :
    Written Spells body address ↔ Written SpellsSigned body address ∧ '+' ∉ body := by
  constructor
  · rintro (pairs | ⟨marked, nonempty, short, spelled⟩)
    case octets groups =>
      obtain ⟨unsigned, signed⟩ := pairs_spells_iff.1 pairs
      refine ⟨.octets signed, fun member => ?_⟩
      obtain separator | ⟨group, among, inside⟩ := mem_intercalate member
      · cases separator
      · exact unsigned group among inside
    case number marker digits =>
      obtain ⟨unsigned, signed⟩ := (spells_iff_spellsSigned nonempty).1 spelled
      refine ⟨.number marked nonempty short signed, ?_⟩
      rw [List.mem_append, not_or]
      exact ⟨(marker_plain marker marked).2, unsigned⟩
  · rintro ⟨pairs | ⟨marked, nonempty, short, signed⟩, unsigned⟩
    case octets groups =>
      exact .octets (pairs_spells_iff.2
        ⟨fun group among inside => unsigned (subset_intercalate group among inside), pairs⟩)
    case number marker digits =>
      have plain : '+' ∉ digits := fun member => unsigned (List.mem_append_right marker member)
      exact .number marked nonempty short
        ((spells_iff_spellsSigned nonempty).2 ⟨plain, signed⟩)

/-- An address is printed in the first of its forms. -/
theorem written_render (address : Address) : Written Spells address.render address :=
  .octets (pairs_ofByte address.octets)

end Piconet.Address
