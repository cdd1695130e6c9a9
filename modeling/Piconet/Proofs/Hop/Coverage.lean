import Mathlib.Algebra.Order.Floor.Div
import Mathlib.Data.Int.CardIntervalMod
import Piconet.Proofs.Hop.Bank
import Piconet.Proofs.Hop.Round

/-!
# How evenly a sequence uses its channels

A round of 64 hops takes 64 consecutive entries of the bank, which is closed to
a ring.  Every channel in use is therefore visited equally often, up to one
visit.  The next round starts sixteen entries further on, and two rounds
together go all the way around even the full bank of 79.
-/

namespace Piconet.HopSequence

def entry (sequence : HopSequence) (position : Nat) : UInt8 :=
  sequence.bank.get
    ⟨position % sequence.bank.length, Nat.mod_lt _ sequence.bank_length_pos⟩

/-- The channels that the 64 hops of a round visit, in their order. -/
def visits (sequence : HopSequence) (round : Nat) : List UInt8 :=
  (List.range 64).map fun hop => sequence.channel (hopClock round hop)

def start (sequence : HopSequence) (round : Nat) : Nat :=
  (gather sequence.address.low [13, 11, 9, 7, 5, 3, 1]).toNat +
    16 * round % sequence.bank.length

/-! ## Entries of the ring -/

theorem entry_eq_entry_iff (sequence : HopSequence) {first second : Nat} :
    sequence.entry first = sequence.entry second ↔
      first ≡ second [MOD sequence.bank.length] := by
  rw [entry, entry, sequence.bank_nodup.get_inj_iff, Fin.mk.injEq, Nat.ModEq]

/-- Going around the ring from anywhere meets every channel in use. -/
theorem exists_entry (sequence : HopSequence) {channel : UInt8} (used : sequence.Uses channel)
    (first : Nat) :
    ∃ step < sequence.bank.length, sequence.entry (first + step) = channel := by
  rw [← mem_bank_iff] at used
  obtain ⟨⟨position, inside⟩, rfl⟩ := List.get_of_mem used
  have size := sequence.bank_length_pos
  have remainder := Nat.mod_lt first size
  have home : sequence.entry position = sequence.bank.get ⟨position, inside⟩ := by
    simp only [entry, Nat.mod_eq_of_lt inside]
  refine ⟨(position + (sequence.bank.length - first % sequence.bank.length)) %
    sequence.bank.length, Nat.mod_lt _ size, ?_⟩
  rw [← home, entry_eq_entry_iff, Nat.ModEq, Nat.add_mod_mod]
  calc (first + (position + (sequence.bank.length - first % sequence.bank.length))) %
        sequence.bank.length
      = (first % sequence.bank.length +
          (position + (sequence.bank.length - first % sequence.bank.length))) %
          sequence.bank.length := (Nat.mod_add_mod _ _ _).symm
    _ = (position + sequence.bank.length) % sequence.bank.length := by
        congr 1
        omega
    _ = position % sequence.bank.length := Nat.add_mod_right _ _

/-- A stretch of the ring meets each of its channels equally often, up to one visit. -/
theorem count_entries (sequence : HopSequence) {channel : UInt8} (used : sequence.Uses channel)
    (first length : Nat) :
    ∃ step < sequence.bank.length,
      ((List.range length).map fun other => sequence.entry (first + other)).count channel =
        length / sequence.bank.length + if step < length % sequence.bank.length then 1 else 0 := by
  obtain ⟨step, inside, rfl⟩ := sequence.exists_entry used first
  refine ⟨step, inside, ?_⟩
  have same (other : Nat) : sequence.entry (first + other) = sequence.entry (first + step) ↔
      other ≡ step [MOD sequence.bank.length] := by
    rw [entry_eq_entry_iff]
    exact ⟨Nat.ModEq.add_left_cancel' first, Nat.ModEq.add_left first⟩
  have counted := Nat.count_modEq_card length sequence.bank_length_pos step
  rw [Nat.mod_eq_of_lt inside] at counted
  rw [← counted, List.count_eq_countP, List.countP_map, Nat.count]
  apply List.countP_congr
  intro other _
  simp [same]

/-! ## Rounds -/

/-- The next round starts sixteen entries further on. -/
theorem entry_start_succ (sequence : HopSequence) (round step : Nat) :
    sequence.entry (sequence.start (round + 1) + step) =
      sequence.entry (sequence.start round + (16 + step)) := by
  rw [entry_eq_entry_iff, start, start, Nat.add_assoc, Nat.add_assoc]
  apply Nat.ModEq.add_left
  calc 16 * (round + 1) % sequence.bank.length + step
      ≡ 16 * (round + 1) + step [MOD sequence.bank.length] := (Nat.mod_modEq _ _).add_right _
    _ = 16 * round + (16 + step) := by omega
    _ ≡ 16 * round % sequence.bank.length + (16 + step) [MOD sequence.bank.length] :=
        ((Nat.mod_modEq _ _).add_right _).symm

section Round

variable (sequence : HopSequence) {round : Nat} (early : round < 2 ^ 21)
include early

theorem channel_hopClock {hop : Nat} (inside : hop < 64) :
    sequence.channel (hopClock round hop) =
      sequence.entry (sequence.start round + place sequence.address.low round hop) := by
  have position : index sequence.address.low (hopClock round hop) sequence.bank.length =
      sequence.start round + place sequence.address.low round hop := by
    rw [index, toNat_segment early inside, toNat_half early inside, start, place]
    omega
  simp only [channel, entry, position]

/-- A round visits 64 consecutive entries of the ring, in some order. -/
theorem visits_perm : (sequence.visits round).Perm
    ((List.range 64).map fun step => sequence.entry (sequence.start round + step)) := by
  have placed : sequence.visits round =
      ((List.range 64).map (place sequence.address.low round)).map
        fun step => sequence.entry (sequence.start round + step) := by
    rw [visits, List.map_map]
    refine List.map_congr_left fun hop inside => ?_
    exact sequence.channel_hopClock early (List.mem_range.mp inside)
  rw [placed]
  exact (map_place_perm early).map _

theorem entry_mem_visits {step : Nat} (inside : step < 64) :
    sequence.entry (sequence.start round + step) ∈ sequence.visits round := by
  rw [(sequence.visits_perm early).mem_iff]
  exact List.mem_map_of_mem (List.mem_range.mpr inside)

/-- A channel in use is visited as often as 64 visits divide, rounded down or up. -/
theorem count_visits {channel : UInt8} (used : sequence.Uses channel) :
    (sequence.visits round).count channel = 64 / sequence.channelsInUse ∨
      (sequence.visits round).count channel = 64 ⌈/⌉ sequence.channelsInUse := by
  obtain ⟨step, -, counted⟩ := sequence.count_entries used (sequence.start round) 64
  have size := sequence.bank_length_pos
  rw [(sequence.visits_perm early).count_eq, counted, channelsInUse]
  split
  · right
    rename_i shorter
    rw [Nat.ceilDiv_eq_add_pred_div]
    symm
    rw [Nat.div_eq_iff size]
    have division := Nat.div_add_mod 64 sequence.bank.length
    have remainder := Nat.mod_lt 64 size
    rw [Nat.add_mul, Nat.mul_comm (64 / _)]
    omega
  · left
    rfl

end Round

/--
Over the 64 hops of a round each channel in use is visited equally often, up to
rounding, and no other channel is visited; with 64 channels or more no channel
is visited twice.  Two rounds in a row visit every channel in use.
-/
theorem visits_even (sequence : HopSequence) (round : Nat) (early : round < 2 ^ 21) :
    sequence.channelsInUse =
      {channel ∈ Finset.range channelCount | sequence.Uses (UInt8.ofNat channel)}.card ∧
    (∀ channel, sequence.Uses channel →
      (sequence.visits round).count channel = 64 / sequence.channelsInUse ∨
        (sequence.visits round).count channel = 64 ⌈/⌉ sequence.channelsInUse) ∧
    (∀ channel ∈ sequence.visits round, sequence.Uses channel) ∧
    (64 ≤ sequence.channelsInUse → (sequence.visits round).Nodup) ∧
    (round + 1 < 2 ^ 21 → ∀ channel, sequence.Uses channel →
      channel ∈ sequence.visits round ∨ channel ∈ sequence.visits (round + 1)) := by
  have used {channel : UInt8} (visited : channel ∈ sequence.visits round) :
      sequence.Uses channel := by
    obtain ⟨hop, -, rfl⟩ := List.mem_map.mp visited
    rw [← mem_bank_iff]
    exact sequence.channel_mem_bank _
  refine ⟨sequence.channelsInUse_eq_card, fun channel => sequence.count_visits early,
    fun channel => used, ?_, ?_⟩
  · intro many
    rw [List.nodup_iff_count_le_one]
    intro channel
    by_cases visited : channel ∈ sequence.visits round
    · have once : 64 / sequence.channelsInUse ≤ 1 ∧ 64 ⌈/⌉ sequence.channelsInUse ≤ 1 := by
        rw [Nat.ceilDiv_eq_add_pred_div]
        constructor
        · exact Nat.le_of_lt_succ (Nat.div_lt_of_lt_mul (by omega))
        · exact Nat.le_of_lt_succ (Nat.div_lt_of_lt_mul (by omega))
      rcases sequence.count_visits early (used visited) with down | up
      · exact down ▸ once.1
      · exact up ▸ once.2
    · rw [List.count_eq_zero_of_not_mem visited]
      exact Nat.zero_le 1
  · intro alsoEarly channel uses
    obtain ⟨step, inside, rfl⟩ := sequence.exists_entry uses (sequence.start round)
    have size : sequence.bank.length ≤ 79 := sequence.length_bank_le
    by_cases near : step < 64
    · exact Or.inl (sequence.entry_mem_visits early near)
    · right
      have further := sequence.entry_start_succ round (step - 16)
      rw [show 16 + (step - 16) = step by omega] at further
      rw [← further]
      exact sequence.entry_mem_visits alsoEarly (by omega)

/-- The last two rounds before the clock starts again, over all channels. -/
theorem visits_even_last :
    let sequence := HopSequence.unrestricted (.ofNat 0x12345678)
    2097150 < 2 ^ 21 ∧ 2097150 + 1 < 2 ^ 21 ∧ 64 ≤ sequence.channelsInUse ∧
      sequence.Uses 78 ∧ (sequence.visits 2097150).Nodup ∧
      (78 ∈ sequence.visits 2097150 ∨ 78 ∈ sequence.visits 2097151) := by
  intro sequence
  obtain ⟨-, -, -, distinct, complete⟩ := visits_even sequence 2097150 (by decide)
  exact ⟨by decide, by decide, by decide, by decide, distinct (by decide),
    complete (by decide) 78 (by decide)⟩

end Piconet.HopSequence
