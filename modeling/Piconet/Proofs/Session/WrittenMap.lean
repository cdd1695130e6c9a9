import Piconet.Proofs.ChannelMap.Size
import Piconet.Proofs.Session.RadioMap

/-!
# Maps come and go without a trace

A map is put in force, replaced, refused and cleared, and what is left of all
this is the sequence made anew under the map of the latest change.  The map that a
session notes, which it writes only where a map is asked for or cleared, never
differs from the one in force.
-/

namespace Piconet

namespace HopSequence

/-- A refusal says that none of the 79 channels is in use. -/
theorem setMap_eq_error_iff (sequence : HopSequence) (map : ChannelMap) :
    (sequence.setMap map).2 = .error .noChannels ↔
      ∀ channel : UInt8, channel.toNat < 79 → map.isUsed channel = false := by
  rw [setMap_result]
  constructor
  · intro refused channel _
    cases used : map.isUsed channel with
    | false => rfl
    | true =>
        rw [if_pos ⟨channel, used⟩] at refused
        cases refused
  · intro unused
    refine if_neg ?_
    rintro ⟨channel, used⟩
    by_cases inside : channel.toNat < 79
    · exact Bool.false_ne_true ((unused channel inside).symm.trans used)
    · exact Bool.false_ne_true
        ((ChannelMap.isUsed_of_ge (Nat.not_lt.1 inside)).symm.trans used)

/-- After a change, or without a map to begin with, the changes alone decide on the map. -/
theorem mapInForce_eq_bind {initial : Option ChannelMap} {changes : List Change}
    (begun : changes ≠ [] ∨ initial = none) :
    mapInForce initial changes = changes.getLast?.bind Change.leaves := by
  rw [mapInForce]
  cases latest : changes.getLast? with
  | some change => rfl
  | none =>
      obtain nonempty | rfl := begun
      · exact absurd (List.getLast?_eq_none_iff.1 latest) nonempty
      · rfl

/-- A map of all channels is hopped over as if there were none. -/
theorem bank_new_of_all {address : Address} {map : ChannelMap}
    (all : ∀ channel : UInt8, channel.toNat < channelCount → map.isUsed channel = true) :
    (new address (some map)).bank = (new address none).bank := by
  have usable : map.Usable := ⟨0, all 0 (by decide)⟩
  rw [bank_eq, map_new, Option.bind_some, ChannelMap.accepted, if_pos usable, bank_eq]
  exact map.bank_eq_allChannels all

end HopSequence

namespace Session

open HopSequence

/--
Changes of the map leave no trace: what they make of a sequence is the sequence
made anew under the map in force, which is that of the latest change, if it was
taken, and none otherwise.  A map is refused exactly when it leaves none of the 79 channels.  As
many channels are hopped over as the map in force counts.  The map that a
session notes is always that of its sequence.  A map of all channels, whatever its
last bit, leads to the same channel as none for every clock.
-/
theorem changes_leave_no_trace (address : Address) (initial : Option ChannelMap) :
    (∀ changes : List Change,
      (HopSequence.new address initial).changed changes =
          .new address (mapInForce initial changes) ∧
        (changes ≠ [] ∨ initial = none →
          mapInForce initial changes = changes.getLast?.bind Change.leaves)) ∧
    (∀ (sequence : HopSequence) (map : ChannelMap),
      ((sequence.setMap map).2 = .ok () ∧ (Change.setMap map).leaves = some map ∨
        (sequence.setMap map).2 = .error .noChannels ∧ (Change.setMap map).leaves = none) ∧
      ((sequence.setMap map).2 = .error .noChannels ↔
        ∀ channel : UInt8, channel.toNat < 79 → map.isUsed channel = false)) ∧
    (∀ sequence : HopSequence,
      sequence.channelsInUse = sequence.map.elim 79 ChannelMap.size) ∧
    (∀ settings operations session answers,
      (Session.new address initial settings).run operations = .ok (session, answers) →
        session.map = session.sequence.map) ∧
    (∀ map : ChannelMap,
      (∀ channel : UInt8, channel.toNat < 79 → map.isUsed channel = true) → ∀ clock,
        (HopSequence.new address (some map)).channel clock =
            (HopSequence.new address none).channel clock ∧
          (HopSequence.new address (some map)).frequency clock =
            (HopSequence.new address none).frequency clock) := by
  refine ⟨?_, ?_, channelsInUse_eq_size, fun settings operations session answers reached =>
    map_eq_of_run reached, ?_⟩
  · intro changes
    exact ⟨changed_eq_new address initial changes, mapInForce_eq_bind⟩
  · intro sequence map
    refine ⟨?_, sequence.setMap_eq_error_iff map⟩
    rw [setMap_result, Change.leaves, ChannelMap.accepted]
    by_cases usable : map.Usable
    · rw [if_pos usable, if_pos usable]
      exact .inl ⟨rfl, rfl⟩
    · rw [if_neg usable, if_neg usable]
      exact .inr ⟨rfl, rfl⟩
  · intro map all clock
    have same : (HopSequence.new address (some map)).channel clock =
        (HopSequence.new address none).channel clock :=
      channel_eq_of_bank_eq (by rw [address_new, address_new]) (bank_new_of_all all) clock
    exact ⟨same, by rw [frequency, same, frequency]⟩

/-- Every bit of the ten bytes, with the one that stands for no channel. -/
def everyBit : ChannelMap :=
  ⟨Vector.replicate 10 0xff⟩

theorem isUsed_everyBit (channel : UInt8) (inside : channel.toNat < channelCount) :
    everyBit.isUsed channel = true := by
  have bits : ∀ place : Fin channelCount, everyBit.bit place = true := by decide
  rw [ChannelMap.isUsed_eq, decide_eq_true inside, Bool.true_and]
  exact bits ⟨channel.toNat, inside⟩

/-- A map that is set, taken back by a refusal and set again, and the map of all 80 bits. -/
theorem changes_leave_no_trace_after_refusal :
    let address : Address := .ofNat 0x12345678
    let changes : List Change := [.setMap everyBit, .setMap .empty, .setMap singleChannel]
    let start := Session.new address (some everyBit) {}
    let operations : List Operation := [.setMap singleChannel, .setMap .empty, .clearMap]
    changes ≠ [] ∧
      (HopSequence.new address (some everyBit)).changed changes =
        .new address (some singleChannel) ∧
      ((HopSequence.new address none).setMap .empty).2 = .error .noChannels ∧
      (HopSequence.new address (some singleChannel)).channelsInUse = 1 ∧
      (∃ session answers, start.run operations = .ok (session, answers) ∧
        session.map = session.sequence.map) ∧
      (HopSequence.new address (some everyBit)).frequency 0x123 =
        (HopSequence.new address none).frequency 0x123 := by
  intro address changes start operations
  have begun : changes ≠ [] := List.cons_ne_nil _ _
  obtain ⟨fresh, refused, counted, noted, full⟩ := changes_leave_no_trace address (some everyBit)
  obtain ⟨anew, latest⟩ := fresh changes
  rw [latest (.inl begun)] at anew
  refine ⟨begun, anew, (refused _ .empty).2.2 ?_, counted _, ?_,
    (full everyBit isUsed_everyBit 0x123).2⟩
  · intro channel inside
    have bits : ∀ place : Fin channelCount, ChannelMap.empty.bit place = false := by decide
    rw [ChannelMap.isUsed_eq, bits ⟨channel.toNat, inside⟩, Bool.and_false]
  · exact ⟨_, _, rfl, noted {} operations _ _ rfl⟩

end Session

end Piconet
