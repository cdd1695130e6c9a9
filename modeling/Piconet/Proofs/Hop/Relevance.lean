import Mathlib.Data.List.Basic
import Mathlib.Data.Nat.Bitwise
import Piconet.Hop.Sequence
import Piconet.SyncWord

/-!
# The bits that hopping depends on

The selection of a channel takes fields out of the address and of the clock.  All
fields of the address lie in its low 28 bits, and all fields of the clock in bits
1 to 27; whatever the other bits are, and which of them differ between two
addresses or two clocks, the channel is the same.
-/

namespace Piconet

namespace HopSequence

def addressBits : UInt32 := 0x0fffffff

def clockBits : UInt32 := 0x0ffffffe

/-! ## Fields of words -/

theorem xor_and (first second field : UInt32) :
    (first ^^^ second) &&& field = (first &&& field) ^^^ (second &&& field) := by
  apply UInt32.toNat_inj.1
  simp only [UInt32.toNat_and, UInt32.toNat_xor, Nat.and_xor_distrib_right]

/-- A field that lies within some bits is the same in a word of which only these are kept. -/
theorem field_of_kept {kept shift field : UInt32} (inside : kept >>> shift &&& field = field)
    (word : UInt32) : (word &&& kept) >>> shift &&& field = word >>> shift &&& field := by
  rw [UInt32.shiftRight_and, UInt32.and_assoc, inside]

/-- Two fields that are added modulo two may be taken from the kept bits of their words. -/
theorem field_xor_of_kept {kept shift others turn field : UInt32}
    (inside : kept >>> shift &&& field = field) (within : others >>> turn &&& field = field)
    (word clock : UInt32) :
    ((word &&& kept) >>> shift ^^^ (clock &&& others) >>> turn) &&& field =
      (word >>> shift ^^^ clock >>> turn) &&& field := by
  rw [xor_and, xor_and, field_of_kept inside, field_of_kept within]

theorem gather_of_kept {kept : UInt32} {positions : List UInt32}
    (inside : positions.all (fun position => kept >>> position &&& 1 == 1) = true)
    (word : UInt32) : gather (word &&& kept) positions = gather word positions := by
  refine List.foldl_ext _ _ _ fun bits position member => ?_
  rw [field_of_kept (eq_of_beq (List.all_eq_true.1 inside position member))]

/-! ## The selection -/

theorem permuted_of_kept (address clock : UInt32) :
    permuted (address &&& addressBits) (clock &&& clockBits) = permuted address clock := by
  have ticks := @field_of_kept clockBits 2 0x1f (by decide) clock
  have offset := @field_xor_of_kept addressBits 23 clockBits 21 0x1f (by decide) (by decide)
    address clock
  have mask := @field_of_kept addressBits 19 0xf (by decide) address
  have parity := @field_of_kept clockBits 1 1 (by decide) clock
  have crossing := @gather_of_kept addressBits [8, 6, 4, 2, 0] (by decide) address
  have crossed := @field_of_kept clockBits 16 0x1f (by decide) clock
  have low := @field_xor_of_kept addressBits 10 clockBits 7 0x1ff (by decide) (by decide)
    address clock
  simp only [permuted, ticks, offset, mask, parity, crossing, low,
    xor_and (gather address [8, 6, 4, 2, 0]), crossed]

theorem index_of_kept (address clock : UInt32) (size : Nat) :
    index (address &&& addressBits) (clock &&& clockBits) size = index address clock size := by
  have fixed := @gather_of_kept addressBits [13, 11, 9, 7, 5, 3, 1] (by decide) address
  have turned : segment (clock &&& clockBits) = segment clock := field_of_kept (by decide) clock
  have ahead : half (clock &&& clockBits) = half clock := field_of_kept (by decide) clock
  rw [index, index, permuted_of_kept, fixed, turned, ahead]

/-- Addresses and clocks that agree in the bits that are taken have the same place in a bank. -/
theorem index_congr {address other clock later : UInt32}
    (addresses : address &&& addressBits = other &&& addressBits)
    (clocks : clock &&& clockBits = later &&& clockBits) (size : Nat) :
    index address clock size = index other later size := by
  rw [← index_of_kept address, addresses, clocks, index_of_kept]

end HopSequence

/-! ## Addresses that hop alike -/

namespace Address

/-- Addresses with the same low 28 bits. -/
def HopsAlike (first second : Address) : Prop :=
  first.bits.toNat % 2 ^ 28 = second.bits.toNat % 2 ^ 28

instance (first second : Address) : Decidable (HopsAlike first second) :=
  Nat.decEq _ _

def core (address : Address) : Address :=
  .ofNat (address.bits.toNat % 2 ^ 28)

theorem hopsAlike_core (address : Address) : HopsAlike address.core address := by
  have below : address.bits.toNat % 2 ^ 28 < 2 ^ 48 :=
    Nat.lt_trans (Nat.mod_lt _ (by decide)) (by decide)
  rw [HopsAlike, core, ofNat, BitVec.toNat_ofNat, Nat.mod_eq_of_lt below, Nat.mod_mod]

theorem toNat_low_and (address : Address) :
    (address.low &&& HopSequence.addressBits).toNat = address.bits.toNat % 2 ^ 28 := by
  have bits : HopSequence.addressBits.toNat = 2 ^ 28 - 1 := rfl
  have low : address.low.toNat = address.bits.toNat % 2 ^ 32 := rfl
  rw [UInt32.toNat_and, bits, low, Nat.and_two_pow_sub_one_eq_mod,
    Nat.mod_mod_of_dvd _ (by decide)]

namespace HopsAlike

variable {first second : Address}

theorem core (alike : HopsAlike first second) : first.core = second.core :=
  congrArg ofNat alike

theorem low (alike : HopsAlike first second) :
    first.low &&& HopSequence.addressBits = second.low &&& HopSequence.addressBits := by
  rw [← UInt32.toNat_inj, toNat_low_and, toNat_low_and]
  exact alike

/-- The access code of a piconet is made from bits that hopping depends on as well. -/
theorem syncWord (alike : HopsAlike first second) : first.syncWord = second.syncWord := by
  have value (address : Address) : address.lap.toNat = address.bits.toNat % 2 ^ 28 % 2 ^ 24 := by
    rw [Nat.mod_mod_of_dvd _ (by decide)]
    rfl
  have laps : first.lap = second.lap := by
    rw [← BitVec.toNat_inj, value, value]
    exact congrArg (· % 2 ^ 24) alike
  exact congrArg SyncWord.ofLap laps

end HopsAlike

end Address

/-! ## Sequences whose addresses hop alike -/

namespace HopSequence

theorem channel_of_alike {first second : HopSequence} {clock later : UInt32}
    (maps : first.map = second.map) (alike : first.address.HopsAlike second.address)
    (clocks : clock &&& clockBits = later &&& clockBits) :
    first.channel clock = second.channel later := by
  have banks : first.bank = second.bank := by rw [bank_eq, bank_eq, maps]
  simp only [channel, List.get_eq_getElem, banks, index_congr alike.low clocks]

def core (sequence : HopSequence) : HopSequence :=
  { sequence with address := sequence.address.core }

theorem frequency_core (sequence : HopSequence) (clock : UInt32) :
    sequence.core.frequency clock = sequence.frequency clock := by
  have same : sequence.core.channel clock = sequence.channel clock :=
    channel_of_alike rfl sequence.address.hopsAlike_core rfl
  rw [frequency, frequency, same]

theorem setMap_core (sequence : HopSequence) (map : ChannelMap) :
    sequence.core.setMap map = Prod.map core id (sequence.setMap map) := by
  rw [setMap, setMap]
  cases ReducedBank.ofMap? map with
  | none => rfl
  | some reduced => rfl

theorem new_core (address : Address) (map : Option ChannelMap) :
    new address.core map = (new address map).core := by
  cases map with
  | none => rfl
  | some map => exact congrArg Prod.fst ((unrestricted address).setMap_core map)

end HopSequence

end Piconet
