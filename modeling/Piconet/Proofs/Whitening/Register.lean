import Mathlib.Algebra.Group.Nat.Defs
import Mathlib.Logic.Function.Iterate
import Piconet.Whitening

/-!
# The whitening register

The whitening sequence is what a shift register of seven places sends out that
divides by `x ^ 7 + x ^ 4 + 1`.  The register starts from six bits of the clock.
The table holds one period of it: at each place of the table stands one state of
the register, a step leads from each place to the next, and the starting places
are those of the starting states.
-/

namespace Piconet.Whitening

abbrev Register := Vector Bool 7

namespace Register

/-- The state at the start of a packet: clock bits 1 to 6, and a one behind them. -/
def seed (clock : UInt32) : Register :=
  let bit := clock.toNat.testBit
  #v[bit 1, bit 2, bit 3, bit 4, bit 5, bit 6, true]

/-- All places move on; the last one comes back to the first and is added to the fifth. -/
def step (register : Register) : Register :=
  #v[register[6], register[0], register[1], register[2], register[3] ^^ register[6],
     register[4], register[5]]

def output (clock : UInt32) (steps : Nat) : Bool :=
  (step^[steps] (seed clock))[6]

/-- The state that sends out given bits; the first seven of them decide it. -/
def sending (bits : Nat → Bool) : Register :=
  #v[bits 6 ^^ bits 3, bits 5 ^^ bits 2, bits 4 ^^ bits 1, bits 3 ^^ bits 0,
     bits 2, bits 1, bits 0]

/-- Bits that follow the polynomial are sent out one after the other. -/
theorem step_sending {bits : Nat → Bool} (recurrence : bits 7 = (bits 0 ^^ bits 4)) :
    (sending bits).step = sending fun steps => bits (steps + 1) := by
  have feedback : (bits 7 ^^ bits 4) = bits 0 := by
    rw [recurrence, Bool.xor_assoc, Bool.xor_self, Bool.xor_false]
  have tap : ((bits 3 ^^ bits 0) ^^ bits 0) = bits 3 := by
    rw [Bool.xor_assoc, Bool.xor_self, Bool.xor_false]
  change #v[bits 0, bits 6 ^^ bits 3, bits 5 ^^ bits 2, bits 4 ^^ bits 1,
      (bits 3 ^^ bits 0) ^^ bits 0, bits 2, bits 1] =
    #v[bits 7 ^^ bits 4, bits 6 ^^ bits 3, bits 5 ^^ bits 2, bits 4 ^^ bits 1,
      bits 3, bits 2, bits 1]
  rw [feedback, tap]

end Register

/-! ## Places of the table -/

theorem val_advance (position : Fin 127) :
    (advance position).val = (position.val + 1) % 127 := by
  unfold advance
  split
  · rename_i inside
    exact (Nat.mod_eq_of_lt inside).symm
  · have last : position.val = 126 := by omega
    rw [last]
    rfl

theorem val_advance_iterate (steps : Nat) (position : Fin 127) :
    (advance^[steps] position).val = (position.val + steps) % 127 := by
  induction steps with
  | zero => exact (Nat.mod_eq_of_lt position.isLt).symm
  | succ steps ih =>
      rw [Function.iterate_succ_apply', val_advance, ih, Nat.mod_add_mod, Nat.add_assoc]

/-- Skipping some symbols leads as many places on. -/
theorem startAfter_eq_ok {clock : UInt32} {skip : UInt64}
    (fits : (start clock).val + skip.toNat < 2 ^ 64) :
    startAfter clock skip = .ok (advance^[skip.toNat] (start clock)) := by
  have small : (UInt64.ofNat (start clock).val).toNat = (start clock).val :=
    UInt64.toNat_ofNat_of_lt' (Nat.lt_trans (start clock).isLt (by decide))
  have exact : (UInt64.ofNat (start clock).val + skip).toNat = (start clock).val + skip.toNat := by
    rw [UInt64.toNat_add, small, Nat.mod_eq_of_lt fits]
  have sum : Overflow.add64 (UInt64.ofNat (start clock).val) skip =
      .ok (UInt64.ofNat (start clock).val + skip) := by
    rw [Overflow.add64, if_pos]
    rw [small]
    exact fits
  rw [startAfter, sum]
  refine congrArg Except.ok (Fin.ext ?_)
  rw [val_advance_iterate, ← exact]
  rfl

/-- The symbol at an index meets the entry as many places on. -/
theorem addFrom_eq_mapIdx (position : Fin 127) (symbols : List UInt8) :
    addFrom position symbols =
      symbols.mapIdx fun index symbol => symbol ^^^ sequence.get (advance^[index] position) := by
  induction symbols generalizing position with
  | nil => rfl
  | cons symbol rest ih =>
      rw [addFrom, ih, List.mapIdx_cons]
      rfl

/-! ## States at the places of the table -/

def bitAt (position : Fin 127) : Bool :=
  sequence.get position == 1

theorem sequence_eq_bitAt : ∀ position : Fin 127,
    sequence.get position = (bitAt position).toUInt8 := by
  decide

/-- An entry is the sum of those seven and three places before it, as the polynomial asks. -/
theorem bitAt_advance_seven : ∀ position : Fin 127,
    bitAt (advance^[7] position) = (bitAt position ^^ bitAt (advance^[4] position)) := by
  decide +kernel

/-- The state at a place of the table: it sends out the entries from there on. -/
def stateAt (position : Fin 127) : Register :=
  .sending fun steps => bitAt (advance^[steps] position)

theorem step_stateAt (position : Fin 127) :
    (stateAt position).step = stateAt (advance position) :=
  Register.step_sending (bitAt_advance_seven position)

/-- Each starting place of the table holds the state that its six bits start from. -/
theorem stateAt_starts : ∀ key : Fin 64,
    stateAt (starts.get key) =
      #v[key.val.testBit 0, key.val.testBit 1, key.val.testBit 2, key.val.testBit 3,
         key.val.testBit 4, key.val.testBit 5, true] := by
  decide +kernel

theorem stateAt_start (clock : UInt32) : stateAt (start clock) = Register.seed clock := by
  have bits (place : Nat) (inside : place < 6) :
      (Fin.ofNat 64 (clock >>> 1).toNat).val.testBit place = clock.toNat.testBit (place + 1) := by
    change ((clock >>> 1).toNat % 2 ^ 6).testBit place = _
    rw [Nat.testBit_mod_two_pow, decide_eq_true inside, Bool.true_and, UInt32.toNat_shiftRight]
    change (clock.toNat >>> 1).testBit place = _
    rw [Nat.testBit_shiftRight, Nat.add_comm]
  rw [start, stateAt_starts]
  simp only [bits, Nat.reduceLT, Nat.reduceAdd, Register.seed]

/-! ## The register over a packet -/

/-- The register and the table go on in step with each other. -/
theorem step_iterate_seed (clock : UInt32) (steps : Nat) :
    Register.step^[steps] (Register.seed clock) = stateAt (advance^[steps] (start clock)) := by
  have inStep : Function.Semiconj stateAt advance Register.step :=
    fun position => (step_stateAt position).symm
  rw [← stateAt_start, (inStep.iterate_right steps).eq]

theorem sequence_eq_output (clock : UInt32) (steps : Nat) :
    sequence.get (advance^[steps] (start clock)) = (Register.output clock steps).toUInt8 := by
  rw [sequence_eq_bitAt, Register.output, step_iterate_seed]
  rfl

/--
Whitening adds to each symbol what the register sends out after as many steps as
symbols were skipped and have gone before, for every start that can be counted.
-/
theorem whiten_eq_register (symbols : List UInt8) (clock : UInt32) (skip : UInt64)
    (fits : (start clock).val + skip.toNat < 2 ^ 64) :
    whiten symbols clock skip = .ok (symbols.mapIdx fun index symbol =>
      symbol ^^^ (Register.output clock (skip.toNat + index)).toUInt8) := by
  have entry (index : Nat) :
      sequence.get (advance^[index] (advance^[skip.toNat] (start clock))) =
        (Register.output clock (skip.toNat + index)).toUInt8 := by
    rw [← Function.iterate_add_apply, Nat.add_comm, sequence_eq_output]
  rw [whiten, startAfter_eq_ok fits]
  refine congrArg Except.ok ?_
  rw [addFrom_eq_mapIdx]
  simp only [entry]

/-- Symbols of any value, whitened over the end of the table, where it starts again. -/
theorem whiten_eq_register_wrap :
    (start 0).val + (25 : UInt64).toNat < 2 ^ 64 ∧
      whiten [0, 1, 0x80, 0xff, 0] 0 25 =
        .ok ([0, 1, 0x80, 0xff, 0].mapIdx fun index symbol =>
          symbol ^^^ (Register.output 0 (25 + index)).toUInt8) ∧
      whiten [0, 1, 0x80, 0xff, 0] 0 25 = .ok [1, 0, 0x81, 0xfe, 1] := by
  have fits : (start 0).val + (25 : UInt64).toNat < 2 ^ 64 := by decide
  exact ⟨fits, whiten_eq_register _ 0 25 fits, rfl⟩

end Piconet.Whitening
