import Mathlib.Algebra.Ring.Nat
import Mathlib.Data.List.Nodup
import Mathlib.Data.List.Perm.Subperm
import Piconet.Hop.Sequence
import Piconet.Proofs.Hop.Permutation

/-!
# One round of hops

A round is a stretch of 64 hops, over which only the low bits of the clock
change.  The control words of the butterfly depend on the round and the parity
of the hop alone, so that the 32 hops of either parity land on 32 different
places; the other parity lies 32 places further on.  A round thus fills 64
consecutive places of the bank, taken as a ring.
-/

namespace Piconet.HopSequence

/-- The clock of a hop; two ticks pass from one hop to the next. -/
def hopClock (round hop : Nat) : UInt32 :=
  UInt32.ofNat (128 * round + 2 * hop)

/-! ## The parts of the clock -/

section Clock

variable {round hop : Nat} (early : round < 2 ^ 21) (inside : hop < 64)
include early inside

theorem toNat_hopClock : (hopClock round hop).toNat = 128 * round + 2 * hop :=
  UInt32.toNat_ofNat_of_lt' (by simp only [UInt32.size]; omega)

theorem hopClock_shiftRight_seven : hopClock round hop >>> 7 = UInt32.ofNat round := by
  apply UInt32.toNat_inj.mp
  rw [UInt32.toNat_shiftRight, toNat_hopClock early inside,
    UInt32.toNat_ofNat_of_lt' (by simp only [UInt32.size]; omega)]
  change (128 * round + 2 * hop) >>> 7 = round
  rw [Nat.shiftRight_eq_div_pow]
  omega

theorem toNat_ticks : (hopClock round hop >>> 2 &&& 0x1f).toNat = hop / 2 := by
  rw [UInt32.toNat_and, UInt32.toNat_shiftRight, toNat_hopClock early inside]
  change (128 * round + 2 * hop) >>> 2 &&& (2 ^ 5 - 1) = hop / 2
  rw [Nat.and_two_pow_sub_one_eq_mod, Nat.shiftRight_eq_div_pow]
  omega

theorem toNat_half : (half (hopClock round hop)).toNat = hop % 2 := by
  rw [half, UInt32.toNat_and, UInt32.toNat_shiftRight, toNat_hopClock early inside]
  change (128 * round + 2 * hop) >>> 1 &&& (2 ^ 1 - 1) = hop % 2
  rw [Nat.and_two_pow_sub_one_eq_mod, Nat.shiftRight_eq_div_pow]
  omega

theorem toNat_segment : (segment (hopClock round hop)).toNat = 16 * round := by
  have masked {number : Nat} (small : number < 2 ^ 25) :
      number &&& (2 ^ 21 - 1) * 2 ^ 4 = number / 2 ^ 4 * 2 ^ 4 := by
    apply Nat.eq_of_testBit_eq
    intro bit
    rw [Nat.testBit_and, Nat.testBit_mul_two_pow, Nat.testBit_mul_two_pow,
      Nat.testBit_two_pow_sub_one, Nat.testBit_div_two_pow]
    by_cases low : 4 ≤ bit
    · by_cases high : bit < 25
      · simp [low, show bit - 4 < 21 by omega]
      · have clear : number.testBit bit = false :=
          Nat.testBit_lt_two_pow (Nat.lt_of_lt_of_le small
            (Nat.pow_le_pow_right (by decide) (Nat.not_lt.mp high)))
        simp [low, clear]
    · simp [low]
  rw [segment, UInt32.toNat_and, UInt32.toNat_shiftRight, toNat_hopClock early inside]
  change (128 * round + 2 * hop) >>> 3 &&& (2 ^ 21 - 1) * 2 ^ 4 = 16 * round
  rw [Nat.shiftRight_eq_div_pow, masked (by omega)]
  omega

end Clock

/-! ## The permuted bits -/

def offset (address high : UInt32) : UInt32 :=
  (address >>> 23 ^^^ high >>> 14) &&& 0x1f

def mixed (address high ticks : UInt32) : UInt32 :=
  let mask : UInt32 := address >>> 19 &&& 0xf
  (ticks + offset address high) % 32 ^^^ mask

def highControl (address high parity : UInt32) : UInt32 :=
  let crossed : UInt32 := (gather address [8, 6, 4, 2, 0] ^^^ high >>> 9) &&& 0x1f
  parity * 0x1f ^^^ crossed

def lowControl (address high : UInt32) : UInt32 :=
  (address >>> 10 ^^^ high) &&& 0x1ff

/-- Which part of the selection each part of the clock enters. -/
theorem permuted_eq (address clock : UInt32) :
    permuted address clock =
      Butterfly.permute (mixed address (clock >>> 7) (clock >>> 2 &&& 0x1f)).toUInt8
        (highControl address (clock >>> 7) (half clock)).toUInt8
        (lowControl address (clock >>> 7)).toUInt16 := by
  have nine : clock >>> 7 >>> 9 = clock >>> 16 := by
    apply UInt32.toNat_inj.mp
    simp only [UInt32.toNat_shiftRight]
    exact (Nat.shiftRight_add clock.toNat 7 9).symm
  have fourteen : clock >>> 7 >>> 14 = clock >>> 21 := by
    apply UInt32.toNat_inj.mp
    simp only [UInt32.toNat_shiftRight]
    exact (Nat.shiftRight_add clock.toNat 7 14).symm
  rw [permuted, mixed, offset, highControl, lowControl, nine, fourteen, half]

theorem mixed_lt (address high ticks : UInt32) : (mixed address high ticks).toNat < 32 := by
  have reduced : ((ticks + offset address high) % 32).toNat < 2 ^ 5 := by
    rw [UInt32.toNat_mod]
    exact Nat.mod_lt _ (by decide)
  have masked : (address >>> (19 : UInt32) &&& 0xf).toNat < 2 ^ 5 := by
    rw [UInt32.toNat_and]
    exact Nat.lt_of_le_of_lt Nat.and_le_right (by decide)
  rw [mixed, UInt32.toNat_xor]
  exact Nat.xor_lt_two_pow reduced masked

/-- Adding a constant modulo 32 and an exclusive or keep the ticks apart. -/
theorem mixed_injective {address high first second : UInt32} (firstSmall : first.toNat < 32)
    (secondSmall : second.toNat < 32)
    (same : mixed address high first = mixed address high second) : first = second := by
  rw [mixed, mixed, UInt32.xor_left_inj] at same
  have bound : (offset address high).toNat < 32 := by
    rw [offset, UInt32.toNat_and]
    exact Nat.lt_of_le_of_lt Nat.and_le_right (by decide)
  have values := congrArg UInt32.toNat same
  rw [UInt32.toNat_mod, UInt32.toNat_mod, UInt32.toNat_add, UInt32.toNat_add,
    show (32 : UInt32).toNat = 32 from rfl] at values
  apply UInt32.toNat_inj.mp
  omega

/-- Two hops of one round and parity are permuted to different places. -/
theorem permuted_injective {address : UInt32} {round first second : Nat}
    (early : round < 2 ^ 21) (firstInside : first < 64) (secondInside : second < 64)
    (parity : first % 2 = second % 2)
    (same : permuted address (hopClock round first) = permuted address (hopClock round second)) :
    first = second := by
  have sameHalf : half (hopClock round first) = half (hopClock round second) := by
    apply UInt32.toNat_inj.mp
    rw [toNat_half early firstInside, toNat_half early secondInside, parity]
  have small (ticks : UInt32) :
      (mixed address (UInt32.ofNat round) ticks).toUInt8.toNat =
        (mixed address (UInt32.ofNat round) ticks).toNat := by
    rw [UInt32.toNat_toUInt8]
    exact Nat.mod_eq_of_lt (Nat.lt_trans (mixed_lt _ _ _) (by decide))
  rw [permuted_eq, permuted_eq, hopClock_shiftRight_seven early firstInside,
    hopClock_shiftRight_seven early secondInside, sameHalf] at same
  have sameMixed := congrArg UInt8.toNat (Butterfly.permute_injective
    (by rw [small]; exact mixed_lt _ _ _) (by rw [small]; exact mixed_lt _ _ _) same)
  rw [small, small] at sameMixed
  have sameTicks := congrArg UInt32.toNat (mixed_injective
    (by rw [toNat_ticks early firstInside]; omega)
    (by rw [toNat_ticks early secondInside]; omega) (UInt32.toNat_inj.mp sameMixed))
  rw [toNat_ticks early firstInside, toNat_ticks early secondInside] at sameTicks
  omega

/-! ## The places of a round -/

/-- The place of a hop among the 64 places of its round. -/
def place (address : UInt32) (round hop : Nat) : Nat :=
  (permuted address (hopClock round hop)).toNat + 32 * (hop % 2)

theorem place_lt (address : UInt32) (round hop : Nat) : place address round hop < 64 := by
  have five : (permuted address (hopClock round hop)).toNat < 32 := by
    rw [permuted_eq]
    exact Butterfly.permute_lt _ _ _
  rw [place]
  omega

theorem place_injective {address : UInt32} {round first second : Nat}
    (early : round < 2 ^ 21) (firstInside : first < 64) (secondInside : second < 64)
    (same : place address round first = place address round second) : first = second := by
  have bound (hop : Nat) : (permuted address (hopClock round hop)).toNat < 32 := by
    rw [permuted_eq]
    exact Butterfly.permute_lt _ _ _
  have firstBound := bound first
  have secondBound := bound second
  rw [place, place] at same
  have sameBits : permuted address (hopClock round first) =
      permuted address (hopClock round second) :=
    UInt8.toNat_inj.mp (by omega)
  exact permuted_injective early firstInside secondInside (by omega) sameBits

/-- The hops of a round meet each of its 64 places once. -/
theorem map_place_perm {address : UInt32} {round : Nat} (early : round < 2 ^ 21) :
    ((List.range 64).map (place address round)).Perm (List.range 64) := by
  apply List.Subperm.perm_of_length_le
  · apply List.Nodup.subperm
    · refine List.Nodup.map_on (fun first firstInside second secondInside same => ?_)
        List.nodup_range
      exact place_injective early (List.mem_range.mp firstInside)
        (List.mem_range.mp secondInside) same
    · intro position member
      obtain ⟨hop, -, rfl⟩ := List.mem_map.mp member
      exact List.mem_range.mpr (place_lt _ _ _)
  · exact Nat.le_of_eq (List.length_map _).symm

end Piconet.HopSequence
