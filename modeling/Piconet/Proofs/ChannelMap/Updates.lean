import Piconet.Proofs.ChannelMap.Size

/-!
# Channel maps as sets of channels

Channels are put into a map and taken out of it one after another.  Each update
writes the bit of its own channel and no other, so that a channel is in use as the
latest update that names it says.  The last bit belongs to no channel: no update
writes it, and nothing that is asked of a map depends on it.
-/

namespace Piconet.ChannelMap

inductive Update where
  | insert (channel : UInt8)
  | erase (channel : UInt8)
  deriving DecidableEq, Repr

namespace Update

def channel : Update → UInt8
  | insert channel | erase channel => channel

def value : Update → Bool
  | insert _ => true
  | erase _ => false

end Update

def update (map : ChannelMap) : Update → ChannelMap
  | .insert channel => map.insert channel
  | .erase channel => map.erase channel

def updated (map : ChannelMap) (updates : List Update) : ChannelMap :=
  updates.foldl update map

/-- The latest of some updates that names a channel. -/
def latest? (updates : List Update) (channel : UInt8) : Option Update :=
  (updates.filter fun update => update.channel = channel).getLast?

/-! ## One update -/

theorem bitAt_set (bytes : List UInt8) {index : Nat} (inside : index < bytes.length)
    (byte : UInt8) (place : Nat) :
    bitAt (bytes.set index byte) place =
      if place / 8 = index then byte.toBitVec.getLsbD (place % 8) else bitAt bytes place := by
  rw [bitAt, List.getD_eq_getElem?_getD]
  split
  · rename_i here
    rw [here, List.getElem?_set_self inside]
    rfl
  · rename_i elsewhere
    rw [List.getElem?_set_ne (Ne.symm elsewhere), bitAt, List.getD_eq_getElem?_getD]

/--
A byte that differs in a channel's bit only, written in place of the channel's byte,
changes this bit of the map only.
-/
theorem bit_set (map : ChannelMap) {channel : UInt8} (inside : channel.toNat < channelCount)
    {byte : UInt8} {value : Bool}
    (written : ∀ place < 8, byte.toBitVec.getLsbD place =
      if place = channel.toNat % 8 then value
      else (map.bytes.get (slot channel inside)).toBitVec.getLsbD place) (place : Nat) :
    bit ⟨map.bytes.set (slot channel inside) byte (slot channel inside).isLt⟩ place =
      if place = channel.toNat then value else map.bit place := by
  have fits : channel.toNat / 8 < map.bytes.toList.length :=
    Nat.lt_of_lt_of_eq (slot channel inside).isLt map.bytes.length_toList.symm
  rw [bit, Vector.toList_set, bitAt_set _ (show (slot channel inside).val < _ from fits)]
  by_cases here : place / 8 = channel.toNat / 8
  · have sameBit : place % 8 = channel.toNat % 8 ↔ place = channel.toNat := by omega
    have old : (map.bytes.get (slot channel inside)).toBitVec.getLsbD (place % 8) =
        map.bit place := by
      rw [bit, bitAt, here, List.getD_eq_getElem?_getD, List.getElem?_eq_getElem fits]
      rfl
    rw [if_pos (show place / 8 = (slot channel inside).val from here),
      written _ (Nat.mod_lt _ (by decide)), old]
    exact if_congr sameBit rfl rfl
  · have distinct : place ≠ channel.toNat := fun same => here (congrArg (· / 8) same)
    rw [if_neg (show place / 8 ≠ (slot channel inside).val from here), if_neg distinct, bit]

theorem getLsbD_mask (channel : UInt8) (place : Nat) :
    (mask channel).toBitVec.getLsbD place = decide (place = channel.toNat % 8) := by
  rw [toBitVec_mask, BitVec.getLsbD_twoPow, decide_eq_true (Nat.mod_lt _ (by decide)),
    Bool.true_and]
  exact decide_eq_decide.2 eq_comm

theorem bit_insert (map : ChannelMap) {channel : UInt8} (inside : channel.toNat < channelCount)
    (place : Nat) :
    (map.insert channel).bit place = if place = channel.toNat then true else map.bit place := by
  rw [insert, dif_pos inside]
  refine map.bit_set inside (fun other _ => ?_) place
  rw [UInt8.toBitVec_or, BitVec.getLsbD_or, getLsbD_mask]
  by_cases own : other = channel.toNat % 8 <;> simp [own]

theorem bit_erase (map : ChannelMap) {channel : UInt8} (inside : channel.toNat < channelCount)
    (place : Nat) :
    (map.erase channel).bit place = if place = channel.toNat then false else map.bit place := by
  rw [erase, dif_pos inside]
  refine map.bit_set inside (fun other below => ?_) place
  rw [UInt8.toBitVec_and, UInt8.toBitVec_not, BitVec.getLsbD_and, BitVec.getLsbD_not,
    getLsbD_mask]
  by_cases own : other = channel.toNat % 8 <;> simp [own, below]

theorem update_of_ge (map : ChannelMap) {update : Update}
    (outside : channelCount ≤ update.channel.toNat) : map.update update = map := by
  cases update with
  | insert channel => exact dif_neg (Nat.not_lt.2 outside)
  | erase channel => exact dif_neg (Nat.not_lt.2 outside)

/-- An update writes the bit of its channel, if that is one of the 79, and no other bit. -/
theorem bit_update (map : ChannelMap) (update : Update) (place : Nat) :
    (map.update update).bit place =
      if place = update.channel.toNat ∧ place < channelCount then update.value
      else map.bit place := by
  by_cases inside : update.channel.toNat < channelCount
  · have named : place = update.channel.toNat ∧ place < channelCount ↔
        place = update.channel.toNat := by omega
    rw [if_congr named rfl rfl]
    cases update with
    | insert channel => exact map.bit_insert inside place
    | erase channel => exact map.bit_erase inside place
  · rw [update_of_ge _ (Nat.not_lt.1 inside), if_neg (by omega)]

/-! ## All updates -/

theorem updated_cons (map : ChannelMap) (update : Update) (rest : List Update) :
    map.updated (update :: rest) = (map.update update).updated rest :=
  rfl

/-- What is no channel's bit is never written. -/
theorem bit_updated_of_ge (map : ChannelMap) (updates : List Update) {place : Nat}
    (outside : channelCount ≤ place) : (map.updated updates).bit place = map.bit place := by
  induction updates generalizing map with
  | nil => rfl
  | cons update rest ih => rw [updated_cons, ih, bit_update, if_neg (by omega)]

/-- The bit of a channel is what the latest update that names it has written. -/
theorem bit_updated (map : ChannelMap) (updates : List Update) {channel : UInt8}
    (inside : channel.toNat < channelCount) :
    (map.updated updates).bit channel.toNat =
      ((latest? updates channel).map Update.value).getD (map.bit channel.toNat) := by
  induction updates generalizing map with
  | nil => rfl
  | cons update rest ih =>
      rw [updated_cons, ih, bit_update, latest?, latest?, List.filter_cons]
      by_cases named : update.channel = channel
      · rw [if_pos (decide_eq_true named), if_pos ⟨by rw [named], inside⟩, List.getLast?_cons]
        cases (rest.filter fun update => update.channel = channel).getLast? with
        | none => rfl
        | some later => rfl
      · have other : channel.toNat ≠ update.channel.toNat := fun same =>
          named (UInt8.toNat_inj.1 same).symm
        rw [if_neg fun both => other both.1, if_neg (by simpa using named)]

/-! ## What is asked of a map -/

/-- A channel with no place among the 79 is not in use, so that counting them all does no harm. -/
theorem size_eq_card_all (map : ChannelMap) :
    map.size = {channel ∈ Finset.range 256 | map.isUsed (UInt8.ofNat channel) = true}.card := by
  rw [size_eq_card]
  refine congrArg Finset.card (Finset.ext fun channel => ?_)
  rw [Finset.mem_filter, Finset.mem_filter, Finset.mem_range, Finset.mem_range]
  refine and_congr_left fun used => ⟨fun inside => ?_, fun inside => ?_⟩
  · exact Nat.lt_trans inside (by decide)
  · have value : (UInt8.ofNat channel).toNat = channel := UInt8.toNat_ofNat_of_lt' inside
    by_contra outside
    rw [isUsed_of_ge (by omega)] at used
    exact Bool.false_ne_true used

/-- Maps that agree on the bits of the 79 channels have the same channels in use. -/
theorem isUsed_congr {map other : ChannelMap}
    (same : ∀ place < channelCount, other.bit place = map.bit place) (channel : UInt8) :
    other.isUsed channel = map.isUsed channel := by
  rw [isUsed_eq, isUsed_eq]
  by_cases inside : channel.toNat < channelCount
  · rw [same _ inside]
  · rw [decide_eq_false inside, Bool.false_and, Bool.false_and]

/--
After any updates of any map, a channel is in use just when it is one of the 79 and
the latest update that names it has put it in, or no update names it and its bit was
set to begin with.  The size is the number of channels in use.  The last bit stays as
it was, and a map that differs in this bit only has the same channels and the same size.
-/
theorem isUsed_updated_iff (map : ChannelMap) (updates : List Update) :
    (∀ channel : UInt8, (map.updated updates).isUsed channel = true ↔
      channel.toNat < 79 ∧
        match latest? updates channel with
        | some (.insert _) => True
        | some (.erase _) => False
        | none => map.bit channel.toNat = true) ∧
    (map.updated updates).size =
      {channel ∈ Finset.range 256 |
        (map.updated updates).isUsed (UInt8.ofNat channel) = true}.card ∧
    (map.updated updates).bit 79 = map.bit 79 ∧
    ∀ other : ChannelMap, (∀ place < 79, other.bit place = (map.updated updates).bit place) →
      other.size = (map.updated updates).size ∧
        ∀ channel, other.isUsed channel = (map.updated updates).isUsed channel := by
  refine ⟨fun channel => ?_, size_eq_card_all _, bit_updated_of_ge _ _ (by decide), ?_⟩
  · rw [isUsed_eq, Bool.and_eq_true, decide_eq_true_iff]
    refine and_congr_right fun inside => ?_
    rw [bit_updated _ _ inside]
    cases latest? updates channel with
    | none => exact Iff.rfl
    | some update =>
        cases update with
        | insert _ => exact iff_of_true rfl trivial
        | erase _ => exact iff_of_false Bool.false_ne_true id
  · intro other same
    have used := isUsed_congr same
    refine ⟨?_, used⟩
    rw [size_eq_card, size_eq_card]
    simp only [used]

/-- Of a map with the last bit set, in which only numbers past the last channel stay. -/
theorem isUsed_updated_iff_last :
    let map : ChannelMap := ⟨#v[0, 0, 0, 0, 0, 0, 0, 0, 0, 0xc0]⟩
    let cleared : ChannelMap := ⟨#v[1, 0, 0, 0, 0, 0, 0, 0, 0, 0]⟩
    let updates : List Update := [.insert 78, .insert 0, .erase 79, .insert 200, .erase 78]
    (∀ place < 79, cleared.bit place = (map.updated updates).bit place) ∧
      (map.updated updates).isUsed 0 = true ∧ (map.updated updates).bit 79 = true ∧
      cleared.size = (map.updated updates).size := by
  intro map cleared updates
  have same : ∀ place < 79, cleared.bit place = (map.updated updates).bit place := by decide
  obtain ⟨used, -, last, alike⟩ := isUsed_updated_iff map updates
  exact ⟨same, (used 0).2 ⟨by decide, trivial⟩, last.trans (by decide), (alike cleared same).1⟩

end Piconet.ChannelMap
