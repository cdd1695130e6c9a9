import Mathlib.Logic.Function.Basic
import Piconet.Hop.Butterfly

/-!
# The butterfly is a permutation

Each stage undoes itself, so that any choice of stages can be undone, and the
five wires stand for the numbers below 32 one to one.  Under fixed control
words the butterfly therefore maps these numbers one to one onto themselves.
-/

namespace Piconet.Butterfly

theorem exchange_injective (stage : Fin 5 × Fin 5) : Function.Injective (exchange stage) :=
  Function.LeftInverse.injective (exchange_exchange stage)

theorem foldr_exchange_injective (chosen : List (Fin 5 × Fin 5)) :
    Function.Injective (chosen.foldr exchange) := by
  induction chosen with
  | nil => exact fun _ _ same => same
  | cons stage rest ih => exact (exchange_injective stage).comp ih

/-- The wires show the byte that they carry. -/
theorem wires_ofWires (five : Vector Bool 5) : wires (ofWires five) = five := by
  have carried : ∀ first second third fourth fifth : Bool,
      wires (UInt8.ofNat (first.toNat + 2 * second.toNat + 4 * third.toNat +
        8 * fourth.toNat + 16 * fifth.toNat)) = #v[first, second, third, fourth, fifth] := by
    decide
  rw [ofWires, carried]
  apply Vector.ext
  intro position inside
  match position, inside with
  | 0, _ => rfl
  | 1, _ => rfl
  | 2, _ => rfl
  | 3, _ => rfl
  | 4, _ => rfl

/-- A byte below 32 is what its wires carry. -/
theorem ofWires_wires {byte : UInt8} (small : byte.toNat < 32) : ofWires (wires byte) = byte := by
  have restored : ∀ value < 32, ofWires (wires (UInt8.ofNat value)) = UInt8.ofNat value := by
    decide
  have again := restored byte.toNat small
  rwa [UInt8.ofNat_toNat] at again

theorem ofWires_lt (five : Vector Bool 5) : (ofWires five).toNat < 32 := by
  have bound (bit : Bool) : bit.toNat ≤ 1 := bit.toNat_le
  have first := bound five[0]
  have second := bound five[1]
  have third := bound five[2]
  have fourth := bound five[3]
  have fifth := bound five[4]
  rw [ofWires, UInt8.toNat_ofNat_of_lt' (by simp only [UInt8.size]; omega)]
  omega

theorem permute_lt (byte high : UInt8) (low : UInt16) : (permute byte high low).toNat < 32 :=
  ofWires_lt _

/-- Under fixed control words no two numbers below 32 are permuted to the same one. -/
theorem permute_injective {first second high : UInt8} {low : UInt16}
    (firstSmall : first.toNat < 32) (secondSmall : second.toNat < 32)
    (same : permute first high low = permute second high low) : first = second := by
  have unwired := congrArg wires same
  rw [permute, permute, wires_ofWires, wires_ofWires] at unwired
  have sameWires : wires first = wires second := foldr_exchange_injective _ unwired
  rw [← ofWires_wires firstSmall, ← ofWires_wires secondSmall, sameWires]

end Piconet.Butterfly
