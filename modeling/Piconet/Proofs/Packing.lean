import Mathlib.Logic.Function.Basic
import Piconet.AccessCode
import Piconet.Capture

/-!
# Packed symbols

A byte packs eight symbols, the first in its most significant bit.  Taken out one bit at
a time, or unpacked into bytes of their own, they are the same stream, and a search looks
at nothing else.  Every symbol has its place among the bits, so that nothing is lost.
-/

namespace Piconet

namespace Symbols

/-- Symbols that are the bits of packed bytes: eight of each, the most significant first. -/
structure Unpacks (bytes symbols : List UInt8) : Prop where
  length : symbols.length = 8 * bytes.length
  symbol : ∀ place byte, bytes[place]? = some byte → ∀ bit < 8,
    symbols[8 * place + bit]? = some (byte.toBitVec.getLsbD (7 - bit)).toUInt8

/-! ## One byte -/

theorem bit_toUInt8 (symbol : Bool) : bit symbol.toUInt8 = symbol := by
  cases symbol with
  | false => rfl
  | true => rfl

theorem toUInt8_injective : Function.Injective Bool.toUInt8 :=
  Function.LeftInverse.injective bit_toUInt8

/-- A byte that is shifted down and masked leaves one of its bits. -/
theorem shiftRight_and_one (byte : UInt8) {place : Nat} (below : place < 8) :
    byte >>> UInt8.ofNat place &&& 1 = (byte.toBitVec.getLsbD place).toUInt8 := by
  have one : (1 : UInt8).toNat = 1 := rfl
  have shift : (UInt8.ofNat place).toNat % 8 = place := by
    rw [UInt8.toNat_ofNat_of_lt' (Nat.lt_trans below (by decide)), Nat.mod_eq_of_lt below]
  have value (symbol : Bool) : symbol.toUInt8.toNat = symbol.toNat := by
    cases symbol with
    | false => rfl
    | true => rfl
  rw [← UInt8.toNat_inj, UInt8.toNat_and, UInt8.toNat_shiftRight, shift, one, Nat.and_one_is_mod,
    Nat.shiftRight_eq_div_pow, value, BitVec.getLsbD, Nat.toNat_testBit]
  rfl

theorem ofPacked_eq (byte : UInt8) : ofPacked byte = (packedBits byte).map Bool.toUInt8 := by
  have spread : ofPacked byte =
      (List.range 8).reverse.map fun place => byte >>> UInt8.ofNat place &&& 1 := by
    have unshifted : byte >>> UInt8.ofNat 0 = byte := UInt8.shiftRight_zero
    change _ = [_, _, _, _, _, _, _, byte >>> UInt8.ofNat 0 &&& 1]
    rw [unshifted]
    rfl
  rw [spread, packedBits, List.map_map]
  refine List.map_congr_left fun place member => shiftRight_and_one byte ?_
  exact List.mem_range.1 (List.mem_reverse.1 member)

theorem length_packedBits (byte : UInt8) : (packedBits byte).length = 8 := by
  rw [packedBits, List.length_map, List.length_reverse, List.length_range]

theorem getElem?_packedBits (byte : UInt8) {bit : Nat} (below : bit < 8) :
    (packedBits byte)[bit]? = some (byte.toBitVec.getLsbD (7 - bit)) := by
  rw [packedBits, List.getElem?_map,
    List.getElem?_reverse (by rw [List.length_range]; exact below), List.length_range,
    List.getElem?_range (by omega)]
  rfl

/-! ## Many bytes -/

/-- Unpacking writes down the bits that are taken out one at a time. -/
theorem unpack_eq (bytes : List UInt8) :
    unpack bytes = (bytes.flatMap packedBits).map Bool.toUInt8 := by
  rw [unpack, List.map_flatMap, funext ofPacked_eq]

theorem map_bit_unpack (bytes : List UInt8) :
    (unpack bytes).map bit = bytes.flatMap packedBits := by
  have undone : bit ∘ Bool.toUInt8 = id := funext bit_toUInt8
  rw [unpack_eq, List.map_map, undone, List.map_id]

theorem getElem?_flatMap_packedBits (bytes : List UInt8) (place : Nat) {bit : Nat}
    (below : bit < 8) :
    (bytes.flatMap packedBits)[8 * place + bit]? =
      bytes[place]?.map fun byte => byte.toBitVec.getLsbD (7 - bit) := by
  induction bytes generalizing place with
  | nil => rfl
  | cons byte rest ih =>
      rw [List.flatMap_cons]
      cases place with
      | zero =>
          rw [Nat.mul_zero, Nat.zero_add,
            List.getElem?_append_left (by rw [length_packedBits]; exact below),
            getElem?_packedBits byte below]
          rfl
      | succ place =>
          have later : 8 * (place + 1) + bit - 8 = 8 * place + bit := by omega
          rw [List.getElem?_append_right (by rw [length_packedBits]; omega), length_packedBits,
            later, ih, List.getElem?_cons_succ]

theorem unpacks_unpack (bytes : List UInt8) : Unpacks bytes (unpack bytes) where
  length := length_unpack bytes
  symbol place byte held bit below := by
    rw [unpack_eq, List.getElem?_map, getElem?_flatMap_packedBits bytes place below, held]
    rfl

/-- The places of all symbols are places in bytes, so that there is one way to unpack. -/
theorem Unpacks.eq_unpack {bytes symbols : List UInt8} (unpacks : Unpacks bytes symbols) :
    symbols = unpack bytes := by
  have usual := unpacks_unpack bytes
  refine List.ext_getElem? fun index => ?_
  by_cases inside : index < 8 * bytes.length
  · have held : bytes[index / 8]? = some bytes[index / 8] :=
      List.getElem?_eq_getElem (by omega)
    have below : index % 8 < 8 := Nat.mod_lt _ (by decide)
    rw [← Nat.div_add_mod index 8, unpacks.symbol _ _ held _ below, usual.symbol _ _ held _ below]
  · rw [List.getElem?_eq_none (by rw [unpacks.length]; omega),
      List.getElem?_eq_none (by rw [usual.length]; omega)]

/-- The symbols of a byte say which byte it was. -/
theorem unpack_injective : Function.Injective unpack := by
  intro bytes other same
  have first := unpacks_unpack bytes
  have second := unpacks_unpack other
  rw [← same] at second
  have length : bytes.length = other.length := by
    have total := first.length.symm.trans second.length
    omega
  refine List.ext_getElem length fun place inside inside' => ?_
  refine UInt8.toBitVec_inj.1 (BitVec.eq_of_getLsbD_eq fun bit below => ?_)
  have read := first.symbol place _ (List.getElem?_eq_getElem inside) (7 - bit) (by omega)
  rw [second.symbol place _ (List.getElem?_eq_getElem inside') (7 - bit) (by omega),
    Nat.sub_sub_self (by omega)] at read
  exact (toUInt8_injective (Option.some.inj read)).symm

end Symbols

namespace Correlator

theorem findPacked?_eq_find?_unpack (correlator : Correlator) (bytes : List UInt8) :
    correlator.findPacked? bytes = correlator.find? (Symbols.unpack bytes) := by
  rw [findPacked?, find?, Symbols.map_bit_unpack]

end Correlator

/-- No two buffers have the same symbols. -/
theorem Capture.data_eq_of_symbols_eq {capture other : Capture}
    (same : capture.symbols = other.symbols) : capture.data = other.data :=
  Vector.toList_inj.1 (Symbols.unpack_injective same)

namespace Correlator

/--
A search among packed bytes finds what it finds among the symbols that are their bits,
eight of each byte and the most significant first, whatever their number.  The symbols of
a record are those of its buffer, and no other buffer has the same.
-/
theorem findPacked?_eq_find?_of_unpacks (correlator : Correlator) :
    (∀ bytes symbols, Symbols.Unpacks bytes symbols →
      correlator.findPacked? bytes = correlator.find? symbols) ∧
    (∀ bytes, Symbols.Unpacks bytes (Symbols.unpack bytes)) ∧
    Function.Injective Symbols.unpack ∧
    ∀ capture : Capture, Symbols.Unpacks capture.data.toList capture.symbols ∧
      correlator.findPacked? capture.data.toList = correlator.find? capture.symbols ∧
      ∀ other : Capture, other.symbols = capture.symbols → other.data = capture.data := by
  refine ⟨?_, Symbols.unpacks_unpack, Symbols.unpack_injective, fun capture =>
    ⟨Symbols.unpacks_unpack _, correlator.findPacked?_eq_find?_unpack _,
      fun _ => Capture.data_eq_of_symbols_eq⟩⟩
  intro bytes symbols unpacks
  rw [unpacks.eq_unpack]
  exact correlator.findPacked?_eq_find?_unpack bytes

/-- The access code of an inquiry that begins at the fourth symbol of a byte. -/
theorem findPacked?_eq_find?_of_unpacks_inquiry :
    let correlator : Correlator := { syncWord := .ofLap 0x9e8b33, tolerance := 2 }
    let bytes : List UInt8 := [0x08, 0xeb, 0x8b, 0x19, 0x8e, 0x66, 0x8b, 0xce, 0x40]
    Symbols.Unpacks bytes (Symbols.unpack bytes) ∧
      correlator.find? (Symbols.unpack bytes) = some { offset := 3, errors := 0 } ∧
      correlator.findPacked? bytes = some { offset := 3, errors := 0 } := by
  intro correlator bytes
  have unpacks : Symbols.Unpacks bytes (Symbols.unpack bytes) := Symbols.unpacks_unpack bytes
  have found : correlator.find? (Symbols.unpack bytes) = some { offset := 3, errors := 0 } := by
    decide +kernel
  have same := (findPacked?_eq_find?_of_unpacks correlator).1 bytes _ unpacks
  exact ⟨unpacks, found, same.trans found⟩

end Correlator

end Piconet
