import Mathlib.Algebra.BigOperators.Intervals
import Mathlib.Data.List.GetD
import Piconet.Proofs.Coding.Distance
import Piconet.Proofs.Hop.Bank

/-!
# The size of a channel map

A channel is in use when its bit is set in ten bytes.  Counting the ones byte by
byte, without the last bit, meets the bit of every channel once; the count is
therefore the number of channels in use, and the length of the bank that is
filtered out of all channels.
-/

namespace Piconet

namespace ChannelMap

/-- A bit of some bytes by its place, from the low end of the first byte on. -/
def bitAt (bytes : List UInt8) (place : Nat) : Bool :=
  (bytes.getD (place / 8) 0).toBitVec.getLsbD (place % 8)

def bit (map : ChannelMap) (place : Nat) : Bool :=
  bitAt map.bytes.toList place

/-! ## One bit -/

/-- The mask of a channel holds its bit and no other. -/
theorem toBitVec_mask (channel : UInt8) :
    (mask channel).toBitVec = BitVec.twoPow 8 (channel.toNat % 8) := by
  have amount : ((channel % 8).toBitVec % 8).toNat = channel.toNat % 8 := by
    rw [BitVec.toNat_umod, UInt8.toBitVec_mod, BitVec.toNat_umod]
    exact Nat.mod_mod _ _
  rw [mask, UInt8.toBitVec_shiftLeft, BitVec.shiftLeft_eq', amount, BitVec.twoPow_eq]
  rfl

theorem and_mask_ne_zero (byte channel : UInt8) :
    (byte &&& mask channel != 0) = byte.toBitVec.getLsbD (channel.toNat % 8) := by
  have cut := BitVec.and_twoPow byte.toBitVec (channel.toNat % 8)
  rw [← toBitVec_mask, ← UInt8.toBitVec_and] at cut
  cases marked : byte.toBitVec.getLsbD (channel.toNat % 8) with
  | false =>
      rw [marked, if_neg Bool.false_ne_true] at cut
      rw [UInt8.toBitVec_inj.1 (cut.trans rfl : _ = (0 : UInt8).toBitVec)]
      rfl
  | true =>
      rw [marked, if_pos rfl] at cut
      refine bne_iff_ne.2 fun none => ?_
      rw [none, toBitVec_mask] at cut
      have bit := congrArg (BitVec.getLsbD · (channel.toNat % 8)) cut
      simp [Nat.mod_lt] at bit

/-- A channel is in use when it is one of the 79 and its bit is set. -/
theorem isUsed_eq (map : ChannelMap) (channel : UInt8) :
    map.isUsed channel = (decide (channel.toNat < channelCount) && map.bit channel.toNat) := by
  by_cases inside : channel.toNat < channelCount
  · have place : channel.toNat / 8 < map.bytes.toList.length :=
      Nat.lt_of_lt_of_eq (slot channel inside).isLt map.bytes.length_toList.symm
    rw [isUsed, dif_pos inside, decide_eq_true inside, Bool.true_and, and_mask_ne_zero, bit, bitAt,
      List.getD_eq_getElem?_getD, List.getElem?_eq_getElem place]
    rfl
  · rw [isUsed, dif_neg inside, decide_eq_false inside, Bool.false_and]

/-! ## All bits -/

theorem bitAt_singleton (byte : UInt8) {place : Nat} (inside : place < 8) :
    bitAt [byte] place = byte.toBitVec.getLsbD place := by
  rw [bitAt, Nat.div_eq_of_lt inside, Nat.mod_eq_of_lt inside]
  rfl

theorem bitAt_append_left (front back : List UInt8) {place : Nat}
    (inside : place < 8 * front.length) : bitAt (front ++ back) place = bitAt front place := by
  rw [bitAt, List.getD_append _ _ _ _ (Nat.div_lt_of_lt_mul inside), bitAt]

theorem bitAt_append_right (front back : List UInt8) (place : Nat) :
    bitAt (front ++ back) (8 * front.length + place) = bitAt back place := by
  rw [bitAt, Nat.mul_add_div (by decide), Nat.mul_add_mod,
    List.getD_append_right _ _ _ _ (Nat.le_add_right _ _), Nat.add_sub_cancel_left, bitAt]

/-- The ones of some bytes are those of the front and those of the low bits behind it. -/
theorem sum_bitAt_append (front back : List UInt8) (width : Nat) :
    ∑ place ∈ Finset.range (8 * front.length + width), (bitAt (front ++ back) place).toNat =
      ∑ place ∈ Finset.range (8 * front.length), (bitAt front place).toNat +
        ∑ place ∈ Finset.range width, (bitAt back place).toNat := by
  rw [Finset.sum_range_add]
  congr 1
  · refine Finset.sum_congr rfl fun place member => ?_
    rw [bitAt_append_left front back (Finset.mem_range.1 member)]
  · simp only [bitAt_append_right]

theorem sum_bitAt_singleton {width : Nat} (narrow : width ≤ 8) (byte : UInt8) :
    ∑ place ∈ Finset.range width, (bitAt [byte] place).toNat =
      onesBelow width byte.toUInt64 := by
  rw [onesBelow_eq_sum]
  refine Finset.sum_congr rfl fun place member => ?_
  have inside := Nat.lt_of_lt_of_le (Finset.mem_range.1 member) narrow
  rw [bitAt_singleton byte inside, getLsbD_toUInt64]

/-- Counting byte by byte meets every bit once. -/
theorem foldl_onesBelow (bytes : List UInt8) (count : Nat) :
    bytes.foldl (fun count byte => count + onesBelow 8 byte.toUInt64) count =
      count + ∑ place ∈ Finset.range (8 * bytes.length), (bitAt bytes place).toNat := by
  induction bytes generalizing count with
  | nil => rfl
  | cons byte rest ih =>
      have split := sum_bitAt_append [byte] rest (8 * rest.length)
      rw [List.length_singleton, Nat.mul_one, sum_bitAt_singleton (Nat.le_refl 8)] at split
      rw [List.foldl_cons, ih, List.length_cons, Nat.mul_succ, Nat.add_comm (8 * _) 8,
        ← List.singleton_append, split, Nat.add_assoc]

/-- The size of a map is the sum of the bits of all channels. -/
theorem size_eq_sum (map : ChannelMap) :
    map.size = ∑ place ∈ Finset.range channelCount, (map.bit place).toNat := by
  have front : (map.bytes.toList.take 9).length = 9 := by
    rw [List.length_take, map.bytes.length_toList]
    rfl
  have whole : map.bytes.toList.take 9 ++ [map.bytes[9]] = map.bytes.toList := by
    have length := map.bytes.length_toList
    rw [← Vector.getElem_toList (by omega), List.take_append_getElem,
      List.take_of_length_le (by omega)]
  have split := sum_bitAt_append (map.bytes.toList.take 9) [map.bytes[9]] 7
  rw [whole, front, sum_bitAt_singleton (by decide)] at split
  rw [size, foldl_onesBelow, front, Nat.add_comm]
  exact split.symm

/-- The size of a map is the number of channels in use. -/
theorem size_eq_card (map : ChannelMap) :
    map.size =
      {channel ∈ Finset.range channelCount | map.isUsed (UInt8.ofNat channel) = true}.card := by
  rw [size_eq_sum, Finset.card_filter]
  refine Finset.sum_congr rfl fun channel member => ?_
  have inside := Finset.mem_range.1 member
  have value : (UInt8.ofNat channel).toNat = channel :=
    UInt8.toNat_ofNat_of_lt' (Nat.lt_trans inside (by decide))
  rw [isUsed_eq, value, decide_eq_true inside, Bool.true_and]
  cases map.bit channel with
  | false => rfl
  | true => rfl

end ChannelMap

/-- The bank of a sequence is as long as its map is large, or it is the full bank. -/
theorem HopSequence.channelsInUse_eq_size (sequence : HopSequence) :
    sequence.channelsInUse = sequence.map.elim channelCount ChannelMap.size := by
  cases active : sequence.map with
  | none =>
      rw [channelsInUse, bank_eq, active]
      exact length_allChannels
  | some map =>
      rw [channelsInUse_eq_card, Option.elim_some, ChannelMap.size_eq_card]
      simp only [Uses, active]

end Piconet
