import Mathlib.Algebra.Group.Nat.Defs
import Piconet.ByteOrder

/-!
# Bytes and the numbers that they spell

Numbers of a fixed width and byte strings of this length are the same thing, in
either order.
-/

namespace Piconet.ByteOrder

def ofBig (bytes : List UInt8) : Nat :=
  ofLittle bytes.reverse

/-- Bytes that were read are written back. -/
theorem little_ofLittle (bytes : List UInt8) :
    little bytes.length (ofLittle bytes) = bytes := by
  induction bytes with
  | nil => rfl
  | cons byte rest ih =>
      have small : byte.toNat < 256 := byte.toNat_lt
      have first : UInt8.ofNat (byte.toNat + 256 * ofLittle rest) = byte := by
        apply UInt8.toNat_inj.1
        rw [UInt8.toNat_ofNat']
        omega
      have others : (byte.toNat + 256 * ofLittle rest) / 256 = ofLittle rest := by omega
      rw [List.length_cons, ofLittle, little, first, others, ih]

theorem ofLittle_lt (bytes : List UInt8) : ofLittle bytes < 256 ^ bytes.length := by
  induction bytes with
  | nil => exact Nat.one_pos
  | cons byte rest ih =>
      have small : byte.toNat < 256 := byte.toNat_lt
      rw [ofLittle, List.length_cons, Nat.pow_succ]
      omega

theorem big_ofBig (bytes : List UInt8) : big bytes.length (ofBig bytes) = bytes := by
  have read := little_ofLittle bytes.reverse
  rw [List.length_reverse] at read
  rw [big, ofBig, read, List.reverse_reverse]

theorem ofBig_lt (bytes : List UInt8) : ofBig bytes < 256 ^ bytes.length := by
  have below := ofLittle_lt bytes.reverse
  rwa [List.length_reverse] at below

theorem ofBig_big {width value : Nat} (fits : value < 1 <<< (8 * width)) :
    ofBig (big width value) = value := by
  rw [ofBig, big, List.reverse_reverse, ofLittle_little, Nat.mod_eq_of_lt fits]

/-- A word of 16 bits is spelled by two bytes. -/
theorem big_two_ofNat (high low : UInt8) :
    big 2 (UInt16.ofNat (ofBig [high, low])).toNat = [high, low] := by
  have below : ofBig [high, low] < 256 ^ 2 := ofBig_lt [high, low]
  rw [UInt16.toNat_ofNat_of_lt' below]
  exact big_ofBig [high, low]

/-- A word of 32 bits is spelled by four bytes. -/
theorem big_four_ofNat (first second third fourth : UInt8) :
    big 4 (UInt32.ofNat (ofBig [first, second, third, fourth])).toNat =
      [first, second, third, fourth] := by
  have below : ofBig [first, second, third, fourth] < 256 ^ 4 :=
    ofBig_lt [first, second, third, fourth]
  rw [UInt32.toNat_ofNat_of_lt' below]
  exact big_ofBig [first, second, third, fourth]

theorem ofNat_big_two (word : UInt16) : UInt16.ofNat (ofBig (big 2 word.toNat)) = word := by
  rw [ofBig_big word.toNat_lt, UInt16.ofNat_toNat]

theorem ofNat_big_four (word : UInt32) : UInt32.ofNat (ofBig (big 4 word.toNat)) = word := by
  rw [ofBig_big word.toNat_lt, UInt32.ofNat_toNat]

end Piconet.ByteOrder
