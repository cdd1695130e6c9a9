import Piconet.Proofs.Hop.Words

/-!
# Changing the map

A sequence is made for a master and an optional map, and afterwards maps are
set and cleared.  Whatever was refused or accepted on the way, the latest change
alone decides which map is in force, and every clock leads to one of its
channels.
-/

namespace Piconet

def ChannelMap.Usable (map : ChannelMap) : Prop :=
  ∃ channel, map.isUsed channel = true

theorem ChannelMap.bank_ne_nil_iff (map : ChannelMap) : map.bank ≠ [] ↔ map.Usable := by
  constructor
  · intro nonempty
    obtain ⟨channel, member⟩ := List.exists_mem_of_ne_nil _ nonempty
    exact ⟨channel, (List.mem_filter.1 member).2⟩
  · rintro ⟨channel, used⟩
    refine List.ne_nil_of_mem (List.mem_filter.2 ⟨mem_allChannels.2 ?_, used⟩)
    by_contra outside
    rw [isUsed_of_ge (Nat.not_lt.1 outside)] at used
    exact Bool.false_ne_true used

instance (map : ChannelMap) : Decidable map.Usable :=
  decidable_of_iff _ map.bank_ne_nil_iff

/-- What comes into force when a map is asked for: nothing, where it leaves no channel. -/
def ChannelMap.accepted (map : ChannelMap) : Option ChannelMap :=
  if map.Usable then some map else none

namespace HopSequence

inductive Change where
  | setMap (map : ChannelMap)
  | clearMap
  deriving DecidableEq

def change (sequence : HopSequence) : Change → HopSequence
  | .setMap map => (sequence.setMap map).1
  | .clearMap => sequence.clearMap

def changed (sequence : HopSequence) (changes : List Change) : HopSequence :=
  changes.foldl change sequence

def Change.leaves : Change → Option ChannelMap
  | setMap map => map.accepted
  | clearMap => none

/-- The map in force: that of the latest change, or else the one asked for in the beginning. -/
def mapInForce (initial : Option ChannelMap) (changes : List Change) : Option ChannelMap :=
  match changes.getLast? with
  | none => initial.bind ChannelMap.accepted
  | some latest => latest.leaves

theorem map_ofMap? (map : ChannelMap) :
    (ReducedBank.ofMap? map).map ReducedBank.map = map.accepted := by
  unfold ReducedBank.ofMap? ChannelMap.accepted
  by_cases usable : map.Usable
  · rw [dif_pos (map.bank_ne_nil_iff.2 usable), if_pos usable]
    rfl
  · rw [dif_neg (map.bank_ne_nil_iff.not.2 usable), if_neg usable]
    rfl

theorem map_setMap (sequence : HopSequence) (map : ChannelMap) :
    (sequence.setMap map).1.map = map.accepted := by
  rw [← map_ofMap?, setMap]
  cases ReducedBank.ofMap? map with
  | none => rfl
  | some reduced => rfl

theorem map_new (address : Address) (initial : Option ChannelMap) :
    (new address initial).map = initial.bind ChannelMap.accepted := by
  cases initial with
  | none => rfl
  | some map => exact map_setMap _ map

theorem map_change (sequence : HopSequence) (change : Change) :
    (sequence.change change).map = change.leaves := by
  cases change with
  | clearMap => rfl
  | setMap map => exact sequence.map_setMap map

@[simp] theorem address_changed (sequence : HopSequence) (changes : List Change) :
    (sequence.changed changes).address = sequence.address := by
  induction changes generalizing sequence with
  | nil => rfl
  | cons change rest ih =>
      refine (ih (sequence.change change)).trans ?_
      cases change with
      | setMap map => exact sequence.address_setMap map
      | clearMap => rfl

theorem changed_concat (sequence : HopSequence) (changes : List Change) (latest : Change) :
    sequence.changed (changes ++ [latest]) = (sequence.changed changes).change latest := by
  rw [changed, List.foldl_append]
  rfl

theorem map_changed (address : Address) (initial : Option ChannelMap) (changes : List Change) :
    ((new address initial).changed changes).map = mapInForce initial changes := by
  induction changes using List.reverseRecOn with
  | nil => exact map_new address initial
  | append_singleton changes latest ih =>
      rw [changed_concat, map_change, mapInForce, List.getLast?_concat]

/-- Two sequences of one master under one map are the same. -/
theorem new_map (sequence : HopSequence) : new sequence.address sequence.map = sequence := by
  obtain ⟨address, _ | ⟨map, channels, rfl, populated⟩⟩ := sequence
  · rfl
  · have kept : ReducedBank.ofMap? map = some ⟨map, map.bank, rfl, populated⟩ := dif_pos populated
    change ((unrestricted address).setMap map).1 = _
    rw [setMap, kept]
    rfl

/-- Whatever was changed on the way, the sequence is one made anew under the map in force. -/
theorem changed_eq_new (address : Address) (initial : Option ChannelMap) (changes : List Change) :
    (new address initial).changed changes = new address (mapInForce initial changes) := by
  have same := ((new address initial).changed changes).new_map
  rw [map_changed, address_changed, address_new] at same
  exact same.symm

/-- A map is taken where it leaves a channel, and refused where it leaves none. -/
theorem setMap_result (sequence : HopSequence) (map : ChannelMap) :
    (sequence.setMap map).2 = if map.Usable then .ok () else .error .noChannels := by
  rw [setMap, ReducedBank.ofMap?]
  by_cases usable : map.Usable
  · rw [dif_pos (map.bank_ne_nil_iff.2 usable), if_pos usable]
  · rw [dif_neg (map.bank_ne_nil_iff.not.2 usable), if_neg usable]

/-- The channel depends on the master and the bank alone. -/
theorem channel_eq_of_bank_eq {first second : HopSequence}
    (address : first.address = second.address) (bank : first.bank = second.bank) (clock : UInt32) :
    first.channel clock = second.channel clock := by
  simp only [channel, List.get_eq_getElem, address, bank]

/--
After any changes of the map the selection comes to a channel for every clock:
no sum overflows, nothing is divided by zero and the bank is not left.  The
channel is in band and in the map in force, and its frequency fits.
-/
theorem changed_selects_in_band (address : Address) (initial : Option ChannelMap)
    (changes : List Change) (clock : UInt32) :
    let sequence := (new address initial).changed changes
    ∃ channel frequency,
      sequence.select clock = .ok channel ∧ channel = sequence.channel clock ∧
      sequence.tune clock = .ok frequency ∧ frequency = sequence.frequency clock ∧
      sequence.map = mapInForce initial changes ∧
      channel.toNat < 79 ∧
      (∀ map, sequence.map = some map → map.isUsed channel = true) ∧
      frequency.toNat = 2402 + channel.toNat ∧
      2402 ≤ frequency.toNat ∧ frequency.toNat ≤ 2480 := by
  intro sequence
  have inBand : (sequence.channel clock).toNat < 79 := sequence.channel_lt clock
  have value := sequence.toNat_frequency clock
  refine ⟨sequence.channel clock, sequence.frequency clock, sequence.select_eq_ok clock, rfl,
    sequence.tune_eq_ok clock, rfl, map_changed address initial changes, inBand, ?_, value,
    by omega, by omega⟩
  intro map active
  have used := sequence.uses_channel clock
  rwa [Uses, active] at used

end HopSequence

end Piconet
