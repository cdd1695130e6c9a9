import Mathlib.Data.Finset.Card
import Mathlib.Data.List.Nodup
import Piconet.Hop.Sequence

/-!
# The bank of channels

The bank lists every channel in use once and no other channel, whatever map is
in force, so that its length is the number of channels hopped over.
-/

namespace Piconet

/-- The channel at a place of the full bank. -/
theorem toNat_allChannels_entry (index : Nat) :
    (UInt8.ofNat (2 * index % channelCount)).toNat = 2 * index % channelCount := by
  rw [UInt8.toNat_ofNat_of_lt']
  simp only [channelCount, UInt8.size]
  omega

theorem allChannels_nodup : allChannels.Nodup := by
  refine List.Nodup.map_on (fun first firstInside second secondInside same => ?_)
    List.nodup_range
  have value := congrArg UInt8.toNat same
  rw [toNat_allChannels_entry, toNat_allChannels_entry] at value
  rw [List.mem_range] at firstInside secondInside
  simp only [channelCount] at firstInside secondInside value
  omega

theorem length_allChannels : allChannels.length = channelCount := by
  rw [allChannels, List.length_map, List.length_range]

/-- Doubling modulo 79 is undone by multiplying with 40. -/
theorem mem_allChannels {channel : UInt8} :
    channel ∈ allChannels ↔ channel.toNat < channelCount := by
  rw [allChannels, List.mem_map]
  constructor
  · rintro ⟨index, -, rfl⟩
    rw [toNat_allChannels_entry]
    exact Nat.mod_lt _ (by decide)
  · intro inside
    refine ⟨40 * channel.toNat % channelCount, List.mem_range.mpr (Nat.mod_lt _ (by decide)), ?_⟩
    apply UInt8.toNat_inj.mp
    rw [toNat_allChannels_entry]
    simp only [channelCount] at inside ⊢
    omega

/-- A map of all channels leaves the full bank, whatever its last bit. -/
theorem ChannelMap.bank_eq_allChannels {map : ChannelMap}
    (all : ∀ channel : UInt8, channel.toNat < channelCount → map.isUsed channel = true) :
    map.bank = allChannels :=
  List.filter_eq_self.2 fun channel member => all channel (mem_allChannels.1 member)

namespace HopSequence

theorem bank_nodup (sequence : HopSequence) : sequence.bank.Nodup := by
  rw [bank_eq]
  cases sequence.map with
  | none => exact allChannels_nodup
  | some map => exact allChannels_nodup.filter _

theorem length_bank_le (sequence : HopSequence) : sequence.bank.length ≤ channelCount := by
  rw [bank_eq, ← length_allChannels]
  cases sequence.map with
  | none => exact Nat.le_refl _
  | some map => exact List.length_filter_le _ _

/-- A channel that the map in force leaves in use; without a map every channel is. -/
def Uses (sequence : HopSequence) (channel : UInt8) : Prop :=
  match sequence.map with
  | none => channel.toNat < channelCount
  | some map => map.isUsed channel = true

theorem lt_of_uses {sequence : HopSequence} {channel : UInt8}
    (used : sequence.Uses channel) : channel.toNat < channelCount := by
  rw [Uses] at used
  cases mapEq : sequence.map with
  | none =>
      rw [mapEq] at used
      exact used
  | some map =>
      rw [mapEq] at used
      have marked : map.isUsed channel = true := used
      by_contra outside
      rw [ChannelMap.isUsed_of_ge (Nat.not_lt.mp outside)] at marked
      exact absurd marked (by decide)

theorem mem_bank_iff (sequence : HopSequence) (channel : UInt8) :
    channel ∈ sequence.bank ↔ sequence.Uses channel := by
  have inBand := @lt_of_uses sequence channel
  rw [Uses] at inBand ⊢
  rw [bank_eq]
  cases mapEq : sequence.map with
  | none => exact mem_allChannels
  | some map =>
      rw [mapEq] at inBand
      rw [bankOf, ChannelMap.bank, List.mem_filter, mem_allChannels]
      exact and_iff_right_of_imp inBand

instance (sequence : HopSequence) (channel : UInt8) : Decidable (sequence.Uses channel) :=
  decidable_of_iff _ (sequence.mem_bank_iff channel)

/-- The length of the bank is the number of channels in use. -/
theorem channelsInUse_eq_card (sequence : HopSequence) :
    sequence.channelsInUse =
      {channel ∈ Finset.range channelCount | sequence.Uses (UInt8.ofNat channel)}.card := by
  rw [channelsInUse, ← List.toFinset_card_of_nodup sequence.bank_nodup]
  refine Finset.card_bij (fun channel _ => channel.toNat) ?_ ?_ ?_
  · intro channel member
    rw [List.mem_toFinset, mem_bank_iff] at member
    rw [Finset.mem_filter, Finset.mem_range, UInt8.ofNat_toNat]
    exact ⟨lt_of_uses member, member⟩
  · intro first _ second _ same
    exact UInt8.toNat_inj.mp same
  · intro channel member
    rw [Finset.mem_filter, Finset.mem_range] at member
    refine ⟨UInt8.ofNat channel, ?_, ?_⟩
    · rw [List.mem_toFinset, mem_bank_iff]
      exact member.2
    · apply UInt8.toNat_ofNat_of_lt'
      have inside := member.1
      simp only [channelCount] at inside
      simp only [UInt8.size]
      omega

end HopSequence

end Piconet
