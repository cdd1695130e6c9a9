import Piconet.Text.Utf8

/-!
# Reading UTF-8 back

Decoding gives every text back from its own bytes.  The first byte of a character
says how many more belong to it and holds the top of its code point; each byte after
it adds six bits.  The narrower ranges of some second bytes leave out only what no
character has: overlong forms, surrogates and what is past the last code point.
-/

namespace Piconet.Text.Utf8

def bytes (text : String) : List UInt8 :=
  text.toByteArray.data.toList

theorem bytes_eq_flatMap (text : String) :
    bytes text = text.toList.flatMap String.utf8EncodeChar := by
  rw [bytes, ← String.utf8Encode_toList, List.utf8Encode, List.toList_data_toByteArray]

/-! ## The bytes after the first -/

def continuation (number : Nat) : UInt8 :=
  UInt8.ofNat (number % 64 + 128)

theorem toNat_continuation (number : Nat) :
    (continuation number).toNat = number % 64 + 128 := by
  rw [continuation, UInt8.toNat_ofNat_of_lt']
  simp only [UInt8.size]
  omega

/-- Where its range is not narrowed, every continuation is inside it. -/
theorem continuation_le (number : Nat) : number % 64 + 128 ≤ 0xbf :=
  Nat.add_le_add_right (Nat.le_of_lt_succ (Nat.mod_lt _ (by decide))) 128

section

variable {begun : Pending} {number : Nat}

/-- A byte inside its range adds its six bits to the number that has been read. -/
theorem next_continuation (value : begun.value = number / 64)
    (low : begun.low.toNat ≤ number % 64 + 128) (high : number % 64 + 128 ≤ begun.high.toNat) :
    next (some begun) (continuation number) =
      if begun.missing ≤ 1 then ([Char.ofNat number], none)
      else ([], some { missing := begun.missing - 1, value := number }) := by
  have inside : begun.low ≤ continuation number && continuation number ≤ begun.high := by
    simp only [UInt8.le_iff_toNat_le, toNat_continuation, low, high, decide_true, Bool.and_self]
  have added : 64 * begun.value + ((continuation number).toNat - 0x80) = number := by
    rw [toNat_continuation, value]
    omega
  rw [next, if_pos inside, Pending.extend, added]

/-- The last byte completes a character. -/
theorem decodeFrom_last (one : begun.missing = 1) (value : begun.value = number / 64)
    (low : begun.low.toNat ≤ number % 64 + 128) (high : number % 64 + 128 ≤ begun.high.toNat)
    (rest : List UInt8) :
    decodeFrom (some begun) (continuation number :: rest) =
      Char.ofNat number :: decodeFrom none rest := by
  rw [decodeFrom, next_continuation value low high, if_pos (Nat.le_of_eq one)]
  rfl

/-- After a byte with others to come, the next one may be any continuation. -/
theorem decodeFrom_more {missing : Nat} (more : begun.missing = missing + 2)
    (value : begun.value = number / 64) (low : begun.low.toNat ≤ number % 64 + 128)
    (high : number % 64 + 128 ≤ begun.high.toNat) (rest : List UInt8) :
    decodeFrom (some begun) (continuation number :: rest) =
      decodeFrom (some { missing := missing + 1, value := number }) rest := by
  have left : begun.missing - 1 = missing + 1 := by omega
  rw [decodeFrom, next_continuation value low high, if_neg (by omega), left]
  rfl

end

/-! ## The first byte -/

theorem first_of_two : ∀ lead < 32, 2 ≤ lead →
    first (UInt8.ofNat (lead + 192)) = ([], some { missing := 1, value := lead }) := by
  decide

theorem first_of_three : ∀ lead < 16,
    first (UInt8.ofNat (lead + 224)) =
      ([], some { missing := 2, value := lead, low := if lead = 0 then 0xa0 else 0x80,
                  high := if lead = 13 then 0x9f else 0xbf }) := by
  decide

theorem first_of_four : ∀ lead < 5,
    first (UInt8.ofNat (lead + 240)) =
      ([], some { missing := 3, value := lead, low := if lead = 0 then 0x90 else 0x80,
                  high := if lead = 4 then 0x8f else 0xbf }) := by
  decide

theorem decodeFrom_begun {byte : UInt8} {begun : Pending} (begins : first byte = ([], some begun))
    (rest : List UInt8) : decodeFrom none (byte :: rest) = decodeFrom (some begun) rest := by
  rw [decodeFrom, next, begins]
  rfl

/-! ## One character -/

section

variable {number : Nat}

theorem decodeFrom_one (narrow : number ≤ 0x7f) (rest : List UInt8) :
    decodeFrom none (UInt8.ofNat number :: rest) = Char.ofNat number :: decodeFrom none rest := by
  have value : (UInt8.ofNat number).toNat = number :=
    UInt8.toNat_ofNat_of_lt' (Nat.lt_of_le_of_lt narrow (by decide))
  have ascii : UInt8.ofNat number < 0x80 := by
    rw [UInt8.lt_iff_toNat_lt, value]
    exact Nat.lt_succ_of_le narrow
  rw [decodeFrom_ascii _ _ ascii, value]

theorem decodeFrom_two (wide : 0x7f < number) (narrow : number ≤ 0x7ff) (rest : List UInt8) :
    decodeFrom none (UInt8.ofNat (number / 64 % 32 + 192) :: continuation number :: rest) =
      Char.ofNat number :: decodeFrom none rest := by
  have lead : number / 64 % 32 = number / 64 := Nat.mod_eq_of_lt (by omega)
  rw [decodeFrom_begun (first_of_two _ (by omega) (by omega)),
    decodeFrom_last rfl lead]
  · exact Nat.le_add_left _ _
  · exact continuation_le _

theorem decodeFrom_three (wide : 0x7ff < number) (narrow : number ≤ 0xffff)
    (scalar : number < 0xd800 ∨ 0xdfff < number) (rest : List UInt8) :
    decodeFrom none (UInt8.ofNat (number / 4096 % 16 + 224) :: continuation (number / 64) ::
        continuation number :: rest) =
      Char.ofNat number :: decodeFrom none rest := by
  have lead : number / 4096 % 16 = number / 64 / 64 := by omega
  rw [decodeFrom_begun (first_of_three _ (by omega)),
    decodeFrom_more rfl lead, decodeFrom_last rfl rfl]
  · exact Nat.le_add_left _ _
  · exact continuation_le _
  · dsimp only
    split
    · exact (by omega : 0xa0 ≤ number / 64 % 64 + 128)
    · exact Nat.le_add_left _ _
  · dsimp only
    split
    · exact (by omega : number / 64 % 64 + 128 ≤ 0x9f)
    · exact continuation_le _

theorem decodeFrom_four (wide : 0xffff < number) (scalar : number < 0x110000)
    (rest : List UInt8) :
    decodeFrom none (UInt8.ofNat (number / 262144 % 8 + 240) :: continuation (number / 4096) ::
        continuation (number / 64) :: continuation number :: rest) =
      Char.ofNat number :: decodeFrom none rest := by
  have lead : number / 262144 % 8 = number / 4096 / 64 := by omega
  have middle : number / 4096 = number / 64 / 64 := by omega
  rw [decodeFrom_begun (first_of_four _ (by omega)),
    decodeFrom_more rfl lead, decodeFrom_more rfl middle, decodeFrom_last rfl rfl]
  · exact Nat.le_add_left _ _
  · exact continuation_le _
  · exact Nat.le_add_left _ _
  · exact continuation_le _
  · dsimp only
    split
    · exact (by omega : 0x90 ≤ number / 4096 % 64 + 128)
    · exact Nat.le_add_left _ _
  · dsimp only
    split
    · exact (by omega : number / 4096 % 64 + 128 ≤ 0x8f)
    · exact continuation_le _

end

/-- A character is read back from its bytes, whatever stands behind them. -/
theorem decodeFrom_utf8EncodeChar (character : Char) (rest : List UInt8) :
    decodeFrom none (String.utf8EncodeChar character ++ rest) =
      character :: decodeFrom none rest := by
  have valid : character.val.toNat < 0xd800 ∨
      0xdfff < character.val.toNat ∧ character.val.toNat < 0x110000 := character.valid
  have same : Char.ofNat character.val.toNat = character := character.ofNat_toNat
  fun_cases String.utf8EncodeChar character with
  | case1 number one =>
      exact (decodeFrom_one one rest).trans (by rw [same])
  | case2 number more two =>
      exact (decodeFrom_two (Nat.lt_of_not_le more) two rest).trans (by rw [same])
  | case3 number _ more three =>
      exact (decodeFrom_three (Nat.lt_of_not_le more) three (by omega) rest).trans (by rw [same])
  | case4 number _ _ more =>
      exact (decodeFrom_four (Nat.lt_of_not_le more) (by omega) rest).trans (by rw [same])

/-- A text is read back from its bytes. -/
theorem decode_bytes (text : String) : decode (bytes text) = text := by
  have all (characters : List Char) :
      decodeFrom none (characters.flatMap String.utf8EncodeChar) = characters := by
    induction characters with
    | nil => rfl
    | cons character rest ih =>
        rw [List.flatMap_cons, decodeFrom_utf8EncodeChar, ih]
  rw [decode, bytes_eq_flatMap, all, String.ofList_toList]

end Piconet.Text.Utf8
