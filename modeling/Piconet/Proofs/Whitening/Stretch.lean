import Piconet.Proofs.Hop.Words
import Piconet.Proofs.Whitening.Register

/-!
# Stretches of the whitening sequence

What is added to the later symbols of a packet follows on from what was added to
the earlier ones.  A part of the symbols can therefore be whitened, and have its
whitening removed, without the rest; and every look into the two tables falls
inside of them, however long the packet is.
-/

namespace Piconet.Whitening

/-- The sequence goes on behind the first symbols where it ended on them. -/
theorem addFrom_append (position : Fin 127) (first second : List UInt8) :
    addFrom position (first ++ second) =
      addFrom position first ++ addFrom (advance^[first.length] position) second := by
  induction first generalizing position with
  | nil => rfl
  | cons symbol rest ih =>
      rw [List.cons_append, addFrom, ih, addFrom, List.cons_append]
      rfl

theorem addFrom_isPrefix {position : Fin 127} {first whole : List UInt8}
    (starts : first <+: whole) : addFrom position first <+: addFrom position whole := by
  obtain ⟨rest, rfl⟩ := starts
  rw [addFrom_append]
  exact List.prefix_append _ _

/-- Symbols start with a whitened text exactly if they start with the text after dewhitening. -/
theorem addFrom_isPrefix_iff (position : Fin 127) (text symbols : List UInt8) :
    addFrom position text <+: symbols ↔ text <+: addFrom position symbols := by
  constructor
  · intro starts
    have removed := @addFrom_isPrefix position _ _ starts
    rwa [addFrom_addFrom] at removed
  · intro starts
    have added := @addFrom_isPrefix position _ _ starts
    rwa [addFrom_addFrom] at added

/-- Without skipped symbols the place where a packet starts can always be counted. -/
theorem startAfter_zero (clock : UInt32) : startAfter clock 0 = .ok (start clock) :=
  startAfter_eq_ok (Nat.lt_trans (start clock).isLt (by decide))

theorem whiten_zero (symbols : List UInt8) (clock : UInt32) :
    whiten symbols clock 0 = .ok (addFrom (start clock) symbols) := by
  rw [whiten, startAfter_zero]
  rfl

/-! ## The tables in machine words -/

def startBytes : List UInt8 :=
  starts.toList.map fun place => UInt8.ofNat place.val

def startWord (clock : UInt32) : Except WordFault UInt32 := do
  let entry ← WordFault.entry startBytes (clock >>> 1 &&& 0x3f)
  WordFault.remainder entry.toUInt32 127

def addWords : UInt32 → List UInt8 → Except WordFault (List UInt8)
  | _, [] => .ok []
  | place, symbol :: rest => do
      let entry ← WordFault.entry sequence.toList place
      let next ← WordFault.add place 1
      let later ← addWords (if next = 127 then 0 else next) rest
      return (symbol ^^^ entry) :: later

theorem toNat_place (position : Fin 127) : (UInt32.ofNat position.val).toNat = position.val :=
  UInt32.toNat_ofNat_of_lt' (Nat.lt_trans position.isLt (by decide))

theorem startWord_eq_ok (clock : UInt32) :
    startWord clock = .ok (UInt32.ofNat (start clock).val) := by
  have key : (clock >>> 1 &&& 0x3f).toNat = (Fin.ofNat 64 (clock >>> 1).toNat).val := by
    rw [UInt32.toNat_and]
    exact Nat.and_two_pow_sub_one_eq_mod _ 6
  have inside : (clock >>> 1 &&& 0x3f).toNat < startBytes.length := by
    rw [key, startBytes, List.length_map, Vector.length_toList]
    exact Fin.isLt _
  have found : startBytes[(clock >>> 1 &&& 0x3f).toNat] = UInt8.ofNat (start clock).val := by
    simp only [startBytes, List.getElem_map, Vector.getElem_toList, key]
    rfl
  have fits : (UInt8.ofNat (start clock).val).toNat = (start clock).val :=
    UInt8.toNat_ofNat_of_lt' (Nat.lt_trans (start clock).isLt (by decide))
  rw [startWord, WordFault.entry_eq_ok inside, found]
  refine congrArg Except.ok (UInt32.toNat_inj.1 ?_)
  rw [UInt32.toNat_mod, UInt8.toNat_toUInt32, fits, toNat_place]
  exact Nat.mod_eq_of_lt (start clock).isLt

theorem next_place (position : Fin 127) :
    (if UInt32.ofNat position.val + 1 = 127 then 0 else UInt32.ofNat position.val + 1) =
      UInt32.ofNat (advance position).val := by
  revert position
  decide

/-- Nothing stops the addition of the sequence, and it comes to the symbols expected. -/
theorem addWords_eq_ok (position : Fin 127) (symbols : List UInt8) :
    addWords (UInt32.ofNat position.val) symbols = .ok (addFrom position symbols) := by
  induction symbols generalizing position with
  | nil => rfl
  | cons symbol rest ih =>
      have place := toNat_place position
      have inside : (UInt32.ofNat position.val).toNat < sequence.toList.length := by
        rw [place, Vector.length_toList]
        exact position.isLt
      have entry : sequence.toList[(UInt32.ofNat position.val).toNat] = sequence.get position := by
        simp only [Vector.getElem_toList, place]
        rfl
      have fits : (UInt32.ofNat position.val).toNat + (1 : UInt32).toNat < UInt32.size := by
        rw [place]
        exact Nat.lt_trans (Nat.succ_lt_succ position.isLt) (by decide)
      rw [addWords, WordFault.entry_eq_ok inside, entry, WordFault.add_eq_ok fits]
      change addWords (if _ = 127 then 0 else _) rest >>= _ = _
      rw [next_place, ih]
      rfl

end Piconet.Whitening
