import Mathlib.Data.Set.Function
import Piconet.Proofs.Coding.Distance
import Piconet.Proofs.Hop.Permutation

/-!
# The butterfly backwards

The stages work from the last one down to the first, each where its control bit is
set.  A stage undoes itself and only moves the bits about.  The same stages from the
first one up to the last therefore lead back, and the number of ones stays.  Nothing
but the wires and the control bits is looked at on the way.
-/

namespace Piconet.Butterfly

def stage (control : BitVec 14) (wires : Vector Bool 5) (number : Fin stages.length) : Vector Bool 5 :=
  if control.getLsbD number then exchange (stages.get number) wires else wires

/-- The byte after the stages with some numbers, one after the other. -/
def pass (order : List (Fin stages.length)) (high : UInt8) (low : UInt16) (byte : UInt8) : UInt8 :=
  ofWires (order.foldl (stage (control high low)) (wires byte))

def load (wires : Vector Bool 5) : Nat :=
  ∑ place : Fin 5, wires[place].toNat

/-! ## The order of the stages -/

theorem zipIdx_stages :
    stages.zipIdx = (List.finRange stages.length).map fun number => (stages.get number, number.val) := by
  decide

/-- The enabled stages, the last one first, are all stages in descending order. -/
theorem foldr_enabled (control : BitVec 14) (wires : Vector Bool 5) :
    (enabled control).foldr exchange wires =
      (List.finRange stages.length).reverse.foldl (stage control) wires := by
  rw [enabled, List.foldr_map, List.foldr_filter, zipIdx_stages, List.foldr_map,
    List.foldl_reverse]
  rfl

theorem permute_eq_pass (byte high : UInt8) (low : UInt16) :
    permute byte high low = pass (List.finRange stages.length).reverse high low byte := by
  rw [permute, foldr_enabled, pass]

/-! ## The way back -/

theorem stage_stage (control : BitVec 14) (wires : Vector Bool 5) (number : Fin stages.length) :
    stage control (stage control wires number) number = wires := by
  unfold stage
  split
  · exact exchange_exchange _ _
  · rfl

/-- Any stages are undone by the same ones in the opposite order. -/
theorem foldl_stage_reverse (control : BitVec 14) (order : List (Fin stages.length))
    (wires : Vector Bool 5) :
    order.foldl (stage control) (order.reverse.foldl (stage control) wires) = wires := by
  induction order with
  | nil => rfl
  | cons number rest ih =>
      rw [List.reverse_cons, List.foldl_append, List.foldl_cons, List.foldl_cons, List.foldl_nil,
        stage_stage, ih]

theorem pass_pass_reverse (order : List (Fin stages.length)) (high : UInt8) (low : UInt16)
    {byte : UInt8} (small : byte.toNat < 32) :
    pass order high low (pass order.reverse high low byte) = byte := by
  rw [pass, pass, wires_ofWires, foldl_stage_reverse, ofWires_wires small]

theorem pass_permute (high : UInt8) (low : UInt16) {byte : UInt8} (small : byte.toNat < 32) :
    pass (List.finRange stages.length) high low (permute byte high low) = byte := by
  rw [permute_eq_pass, pass_pass_reverse _ _ _ small]

theorem permute_pass (high : UInt8) (low : UInt16) {byte : UInt8} (small : byte.toNat < 32) :
    permute (pass (List.finRange stages.length) high low byte) high low = byte := by
  have back := pass_pass_reverse (List.finRange stages.length).reverse high low small
  rwa [List.reverse_reverse, ← permute_eq_pass] at back

/-! ## The number of ones -/

theorem getElem_exchange (exchanged : Fin 5 × Fin 5) (wires : Vector Bool 5) (place : Fin 5) :
    (exchange exchanged wires)[place] = wires[Equiv.swap exchanged.1 exchanged.2 place] := by
  simp only [exchange, Fin.getElem_fin, Vector.getElem_swap, Equiv.swap_apply_def, Fin.ext_iff]
  split
  · rfl
  · split <;> rfl

theorem load_exchange (exchanged : Fin 5 × Fin 5) (wires : Vector Bool 5) :
    load (exchange exchanged wires) = load wires := by
  simp only [load, getElem_exchange]
  exact Equiv.sum_comp (Equiv.swap exchanged.1 exchanged.2) fun place => wires[place].toNat

theorem load_foldr_exchange (chosen : List (Fin 5 × Fin 5)) (wires : Vector Bool 5) :
    load (chosen.foldr exchange wires) = load wires := by
  induction chosen with
  | nil => rfl
  | cons exchanged rest ih => rw [List.foldr_cons, load_exchange, ih]

theorem load_wires (byte : UInt8) :
    load (wires byte) = ∑ place ∈ Finset.range 5, (byte.toBitVec.getLsbD place).toNat := by
  rw [← Fin.sum_univ_eq_sum_range (fun place => (byte.toBitVec.getLsbD place).toNat)]
  refine Finset.sum_congr rfl fun place _ => congrArg Bool.toNat ?_
  exact Vector.getElem_ofFn place.isLt

/-- The ones of a byte below 32 are on its five wires. -/
theorem ones_eq_load {byte : UInt8} (small : byte.toNat < 32) :
    ones byte.toUInt64 = load (wires byte) := by
  rw [ones, onesBelow_eq_sum, load_wires]
  simp only [getLsbD_toUInt64]
  symm
  refine Finset.sum_subset (Finset.range_subset_range.2 (by decide)) fun place _ outside => ?_
  have above : 5 ≤ place := Nat.not_lt.1 (Finset.mem_range.not.1 outside)
  have room : 2 ^ 5 ≤ 2 ^ place := Nat.pow_le_pow_right (by decide) above
  have clear : byte.toBitVec.getLsbD place = false :=
    Nat.testBit_lt_two_pow (Nat.lt_of_lt_of_le small room)
  rw [clear]
  rfl

theorem ones_permute (high : UInt8) (low : UInt16) {byte : UInt8} (small : byte.toNat < 32) :
    ones (permute byte high low).toUInt64 = ones byte.toUInt64 := by
  rw [ones_eq_load (permute_lt _ _ _), ones_eq_load small, permute, wires_ofWires,
    load_foldr_exchange]

/-! ## What is looked at -/

theorem wires_of_kept {byte other : UInt8} (kept : byte.toNat % 32 = other.toNat % 32) :
    wires byte = wires other := by
  have bit (number : UInt8) (place : Fin 5) :
      number.toBitVec.getLsbD place = (number.toNat % 2 ^ 5).testBit place := by
    rw [Nat.testBit_mod_two_pow, decide_eq_true place.isLt, Bool.true_and]
    rfl
  refine congrArg Vector.ofFn (funext fun place => ?_)
  rw [bit, bit]
  exact congrArg (Nat.testBit · place) kept

theorem control_of_kept {high otherHigh : UInt8} {low otherLow : UInt16}
    (highKept : high.toNat % 32 = otherHigh.toNat % 32)
    (lowKept : low.toNat % 512 = otherLow.toNat % 512) :
    control high low = control otherHigh otherLow := by
  have highPart : high.toBitVec.setWidth 5 = otherHigh.toBitVec.setWidth 5 :=
    BitVec.eq_of_toNat_eq (by simpa using highKept)
  have lowPart : low.toBitVec.setWidth 9 = otherLow.toBitVec.setWidth 9 :=
    BitVec.eq_of_toNat_eq (by simpa using lowKept)
  rw [control, highPart, lowPart, control]

/-! ## The permutation -/

/--
The byte that comes out is the one after all stages in descending order.  Under any
control words this maps the numbers below 32 one to one onto themselves and keeps the
number of ones; it depends on no more than the low five bits of the byte, the low five
of the high control word and the low nine of the low one; and the stages in ascending
order undo it.
-/
theorem permute_reversible (high : UInt8) (low : UInt16) :
    (∀ byte, permute byte high low = pass (List.finRange stages.length).reverse high low byte) ∧
    Set.BijOn (fun byte => permute byte high low) {byte | byte.toNat < 32}
      {byte | byte.toNat < 32} ∧
    (∀ byte : UInt8, byte.toNat < 32 →
      ones (permute byte high low).toUInt64 = ones byte.toUInt64) ∧
    (∀ (byte other otherHigh : UInt8) (otherLow : UInt16), byte.toNat % 32 = other.toNat % 32 →
      high.toNat % 32 = otherHigh.toNat % 32 → low.toNat % 512 = otherLow.toNat % 512 →
      permute byte high low = permute other otherHigh otherLow) ∧
    ∀ byte : UInt8, byte.toNat < 32 →
      pass (List.finRange stages.length) high low (permute byte high low) = byte := by
  refine ⟨fun byte => permute_eq_pass byte high low, ?_, fun byte => ones_permute high low, ?_,
    fun byte => pass_permute high low⟩
  · have inverse : Set.InvOn (pass (List.finRange stages.length) high low)
        (fun byte => permute byte high low) {byte | byte.toNat < 32} {byte | byte.toNat < 32} :=
      ⟨fun byte => pass_permute high low, fun byte => permute_pass high low⟩
    exact inverse.bijOn (fun byte _ => permute_lt byte high low) fun byte _ => ofWires_lt _
  · intro byte other otherHigh otherLow kept highKept lowKept
    rw [permute, permute, wires_of_kept kept, control_of_kept highKept lowKept]

/-- All stages at work, once with ones in the bits that are not looked at. -/
theorem permute_reversible_all :
    (21 : UInt8).toNat < 32 ∧ (21 : UInt8).toNat % 32 = (0xf5 : UInt8).toNat % 32 ∧
      (0x1f : UInt8).toNat % 32 = (0xff : UInt8).toNat % 32 ∧
      (0x1ff : UInt16).toNat % 512 = (0xffff : UInt16).toNat % 512 ∧
      permute 0xf5 0xff 0xffff = 13 ∧ ones (13 : UInt8).toUInt64 = ones (21 : UInt8).toUInt64 ∧
      pass (List.finRange stages.length) 0x1f 0x1ff 13 = 21 := by
  have value : permute 21 0x1f 0x1ff = 13 := by decide
  obtain ⟨-, -, counted, kept, back⟩ := permute_reversible 0x1f 0x1ff
  exact ⟨by decide, rfl, rfl, rfl, (kept 21 0xf5 0xff 0xffff rfl rfl rfl).symm.trans value,
    value ▸ counted 21 (by decide), value ▸ back 21 (by decide)⟩

end Piconet.Butterfly
