import Piconet.Proofs.Address.Forms

/-!
# Addresses in machine words

An address may stand in a word of 64 bits.  A number is cut to the low 48 of them,
and parts are moved to their places; a text is read without anything being cut off.
Each of these words stands for an address all the same: the digits of a text that is
read are too few for more.
-/

namespace Piconet.Address

open Text Text.Hex

def word (address : Address) : UInt64 :=
  ⟨address.bits.setWidth 64⟩

def cutWord (number : UInt64) : UInt64 :=
  number &&& 0xffffffffffff

/-- The parts of an address at their places in a word; the lower one is cut to its size. -/
def wordOfParts (nap : UInt16) (uap : UInt8) (lap : UInt32) : UInt64 :=
  (nap.toUInt64 <<< 32) ||| (uap.toUInt64 <<< 24) ||| (lap.toUInt64 &&& 0xffffff)

def appendOctet (number : UInt64) (octet : Nat) : UInt64 :=
  (number <<< 8) ||| UInt64.ofNat octet

def readOctets (text : List Char) : Except ParseError UInt64 := do
  let values ← (text.splitOn ':').mapM parseOctet
  if values.length = 6 then .ok (values.foldl appendOctet 0) else .error .octetCount

def readNumber (text : List Char) : Except ParseError UInt64 :=
  let number := dropMarker text
  if byteLength number = 0 ∨ 12 < byteLength number then .error .length
  else match number? number with
    | none => .error .digits
    | some value => if value < UInt64.size then .ok (UInt64.ofNat value) else .error .digits

/-- An address in either form, read into a word. -/
def readWord (text : String) : Except ParseError UInt64 :=
  let body := trim text.toList
  if ':' ∈ body then readOctets body else readNumber body

/-! ## Words of addresses -/

theorem toNat_word (address : Address) : address.word.toNat = address.bits.toNat := by
  change (address.bits.setWidth 64).toNat = _
  rw [BitVec.toNat_setWidth]
  exact Nat.mod_eq_of_lt (Nat.lt_trans address.bits.isLt (by decide))

theorem word_lt (address : Address) : address.word.toNat < 2 ^ 48 := by
  rw [toNat_word]
  exact address.bits.isLt

theorem word_ofNat {number : Nat} (small : number < 2 ^ 48) :
    (ofNat number).word = UInt64.ofNat number := by
  apply UInt64.toNat_inj.1
  rw [toNat_word, ofNat, BitVec.toNat_ofNat, Nat.mod_eq_of_lt small]
  exact (UInt64.toNat_ofNat_of_lt' (Nat.lt_trans small (by decide))).symm

theorem cutWord_eq (number : UInt64) : cutWord number = (ofNat number.toNat).word := by
  apply UInt64.toNat_inj.1
  rw [toNat_word, cutWord, UInt64.toNat_and, ofNat, BitVec.toNat_ofNat]
  exact Nat.and_two_pow_sub_one_eq_mod _ 48

/-- A shift loses nothing where a word has room for it. -/
theorem toNat_shiftLeft_of_room {number amount : UInt64} {size : Nat}
    (small : number.toNat < 2 ^ size) (room : size + amount.toNat ≤ 64)
    (short : amount.toNat < 64) : (number <<< amount).toNat = number.toNat <<< amount.toNat := by
  have fits : number.toNat <<< amount.toNat < 2 ^ 64 := by
    rw [Nat.shiftLeft_eq]
    calc number.toNat * 2 ^ amount.toNat
        < 2 ^ size * 2 ^ amount.toNat := Nat.mul_lt_mul_of_pos_right small (Nat.two_pow_pos _)
      _ = 2 ^ (size + amount.toNat) := (Nat.pow_add 2 _ _).symm
      _ ≤ 2 ^ 64 := Nat.pow_le_pow_right (by decide) room
  rw [UInt64.toNat_shiftLeft, Nat.mod_eq_of_lt short, Nat.mod_eq_of_lt fits]

theorem wordOfParts_eq (nap : UInt16) (uap : UInt8) (lap : UInt32) :
    wordOfParts nap uap lap =
      (ofParts nap.toBitVec uap.toBitVec (lap.toBitVec.setWidth 24)).word := by
  have top : (nap.toUInt64 <<< 32).toNat = nap.toNat <<< 32 :=
    toNat_shiftLeft_of_room nap.toNat_lt (by decide) (by decide)
  have middle : (uap.toUInt64 <<< 24).toNat = uap.toNat <<< 24 :=
    toNat_shiftLeft_of_room uap.toNat_lt (by decide) (by decide)
  have bottom : (lap.toUInt64 &&& 0xffffff).toNat = (lap.toBitVec.setWidth 24).toNat := by
    rw [UInt64.toNat_and, UInt32.toNat_toUInt64, BitVec.toNat_setWidth]
    exact Nat.and_two_pow_sub_one_eq_mod _ 24
  have whole : (ofParts nap.toBitVec uap.toBitVec (lap.toBitVec.setWidth 24)).bits.toNat =
      (nap.toNat <<< 8 ||| uap.toNat) <<< 24 ||| (lap.toBitVec.setWidth 24).toNat := by
    rw [ofParts, BitVec.toNat_append, BitVec.toNat_append]
    rfl
  apply UInt64.toNat_inj.1
  rw [toNat_word, wordOfParts, UInt64.toNat_or, UInt64.toNat_or, top, middle, bottom, whole,
    Nat.shiftLeft_or_distrib, ← Nat.shiftLeft_add]

/-- An address is made of its parts. -/
theorem ofParts_parts (address : Address) :
    ofParts address.nap address.uap address.lap = address := by
  have upper : address.nap ++ address.uap = address.bits.extractLsb' 24 24 :=
    BitVec.extractLsb'_append_extractLsb'_eq_extractLsb' rfl
  have whole : address.bits.extractLsb' 24 24 ++ address.lap = address.bits.extractLsb' 0 48 :=
    BitVec.extractLsb'_append_extractLsb'_eq_extractLsb' rfl
  rw [ofParts, upper, whole, BitVec.extractLsb'_eq_self]

/-! ## Reading -/

theorem toNat_appendOctet {number : UInt64} {octet : Nat} (room : number.toNat < 2 ^ 56)
    (small : octet < 256) : (appendOctet number octet).toNat = 256 * number.toNat + octet := by
  have moved : (number <<< 8).toNat = number.toNat <<< 8 :=
    toNat_shiftLeft_of_room room (by decide) (by decide)
  have byte : (UInt64.ofNat octet).toNat = octet :=
    UInt64.toNat_ofNat_of_lt' (Nat.lt_trans small (by decide))
  rw [appendOctet, UInt64.toNat_or, moved, byte, Nat.shiftLeft_eq, Nat.mul_comm]
  exact (Nat.two_pow_add_eq_or_of_lt small number.toNat).symm

theorem foldl_octets_lt {values : List Nat} (small : ∀ value ∈ values, value < 256)
    {number count : Nat} (below : number < 256 ^ count) :
    values.foldl (fun number octet => 256 * number + octet) number <
      256 ^ (count + values.length) := by
  induction values generalizing number count with
  | nil => exact below
  | cons octet others ih =>
      obtain ⟨first, later⟩ := List.forall_mem_cons.1 small
      have wider : 256 * number + octet < 256 ^ (count + 1) := by
        rw [Nat.pow_succ]
        omega
      rw [List.foldl_cons, List.length_cons, Nat.add_comm others.length, ← Nat.add_assoc]
      exact ih later wider

/-- Octets that fit a word are put into it as into a number. -/
theorem toNat_foldl_appendOctet {values : List Nat} (small : ∀ value ∈ values, value < 256)
    {number : UInt64} {count : Nat} (below : number.toNat < 256 ^ count)
    (room : count + values.length ≤ 8) :
    (values.foldl appendOctet number).toNat =
      values.foldl (fun number octet => 256 * number + octet) number.toNat := by
  induction values generalizing number count with
  | nil => rfl
  | cons octet others ih =>
      obtain ⟨first, later⟩ := List.forall_mem_cons.1 small
      rw [List.length_cons] at room
      have space : number.toNat < 2 ^ 56 :=
        below.trans_le (Nat.pow_le_pow_right (by decide) (by omega : count ≤ 7))
      have next := toNat_appendOctet space first
      have wider : (appendOctet number octet).toNat < 256 ^ (count + 1) := by
        rw [next, Nat.pow_succ]
        omega
      rw [List.foldl_cons, List.foldl_cons, ih later wider (by omega), next]

theorem readOctets_eq (text : List Char) : readOctets text = (parseOctets text).map word := by
  rw [readOctets, parseOctets]
  cases each : (text.splitOn ':').mapM parseOctet with
  | error failure => rfl
  | ok values =>
      change (if values.length = 6 then _ else _) =
        (if values.length = 6 then _ else _ : Except ParseError Address).map word
      by_cases six : values.length = 6
      · have small := lt_of_parseOctet (mapM_parseOctet_eq_ok_iff.1 each)
        have same : (values.foldl appendOctet 0).toNat =
            values.foldl (fun number octet => 256 * number + octet) 0 :=
          @toNat_foldl_appendOctet values small 0 0 Nat.one_pos (by omega)
        have below := @foldl_octets_lt values small 0 0 Nat.one_pos
        rw [six] at below
        rw [if_pos six, if_pos six]
        refine congrArg Except.ok ?_
        rw [word_ofNat below, ← same, UInt64.ofNat_toNat]
      · rw [if_neg six, if_neg six]
        rfl

theorem readNumber_eq (text : List Char) : readNumber text = (parseNumber text).map word := by
  rw [readNumber, parseNumber]
  by_cases long : byteLength (dropMarker text) = 0 ∨ 12 < byteLength (dropMarker text)
  · rw [if_pos long, if_pos long]
    rfl
  · rw [if_neg long, if_neg long]
    cases read : number? (dropMarker text) with
    | none => rfl
    | some value =>
        have spelled := number?_eq_some_iff.1 read
        rw [byteLength_of_subset spelled.subset] at long
        have small : value < 2 ^ 48 :=
          spelled.lt.trans_le (Nat.pow_le_pow_right (by decide)
            (by omega : (dropMarker text).length ≤ 12))
        dsimp only
        rw [if_pos (Nat.lt_trans small (by decide)), ← word_ofNat small]
        rfl

/-- Nothing is cut off a text that is read. -/
theorem readWord_eq (text : String) : readWord text = (parse text).map word := by
  rw [readWord, parse, parseChars]
  split
  · exact readOctets_eq _
  · exact readNumber_eq _

end Piconet.Address
