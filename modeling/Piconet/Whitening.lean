import Piconet.Overflow

/-!
# Whitening

The symbols after an access code are added, modulo two, to a sequence of period
127, so that long runs of one symbol do not go on the air.  Six bits of the
master clock choose where in the sequence a packet starts.  Adding the same
stretch again removes the whitening.
-/

namespace Piconet.Whitening

def sequence : Vector UInt8 127 :=
  #v[1, 1, 1, 0, 0, 0, 1, 1, 1, 0, 1, 1, 0, 0, 0, 1,
     0, 1, 0, 0, 1, 0, 1, 1, 1, 1, 1, 0, 1, 0, 1, 0,
     1, 0, 0, 0, 0, 1, 0, 1, 1, 0, 1, 1, 1, 1, 0, 0,
     1, 1, 1, 0, 0, 1, 0, 1, 0, 1, 1, 0, 0, 1, 1, 0,
     0, 0, 0, 0, 1, 1, 0, 1, 1, 0, 1, 0, 1, 1, 1, 0,
     1, 0, 0, 0, 1, 1, 0, 0, 1, 0, 0, 0, 1, 0, 0, 0,
     0, 0, 0, 1, 0, 0, 1, 0, 0, 1, 1, 0, 1, 0, 0, 1,
     1, 1, 1, 0, 1, 1, 1, 0, 0, 0, 0, 1, 1, 1, 1]

/-- Where in the sequence a packet starts, for each value of clock bits 6 to 1. -/
def starts : Vector (Fin 127) 64 :=
  #v[99, 85, 17, 50, 102, 58, 108, 45, 92, 62, 32, 118, 88, 11, 80, 2,
     37, 69, 55, 8, 20, 40, 74, 114, 15, 106, 30, 78, 53, 72, 28, 26,
     68, 7, 39, 113, 105, 77, 71, 25, 84, 49, 57, 44, 61, 117, 10, 1,
     123, 124, 22, 125, 111, 23, 42, 126, 6, 112, 76, 24, 48, 43, 116, 0]

def start (clock : UInt32) : Fin 127 :=
  starts.get (Fin.ofNat 64 (clock >>> 1).toNat)

/-- The start for a clock when some symbols of the packet are skipped. -/
def startAfter (clock : UInt32) (skip : UInt64) : Except Overflow (Fin 127) := do
  let position ← Overflow.add64 (UInt64.ofNat (start clock).val) skip
  return Fin.ofNat 127 position.toNat

/-- The next place in the sequence, which closes on itself. -/
def advance (position : Fin 127) : Fin 127 :=
  if wraps : position.val + 1 < 127 then ⟨position.val + 1, wraps⟩ else 0

def addFrom : Fin 127 → List UInt8 → List UInt8
  | _, [] => []
  | position, symbol :: rest =>
      (symbol ^^^ sequence.get position) :: addFrom (advance position) rest

@[simp] theorem length_addFrom (position : Fin 127) (symbols : List UInt8) :
    (addFrom position symbols).length = symbols.length := by
  induction symbols generalizing position with
  | nil => rfl
  | cons symbol rest ih => simp [addFrom, ih]

/-- Adding one stretch of the sequence twice changes nothing. -/
theorem addFrom_addFrom (position : Fin 127) (symbols : List UInt8) :
    addFrom position (addFrom position symbols) = symbols := by
  induction symbols generalizing position with
  | nil => rfl
  | cons symbol rest ih =>
      rw [addFrom, addFrom, UInt8.xor_assoc, UInt8.xor_self, UInt8.xor_zero, ih]

def whiten (symbols : List UInt8) (clock : UInt32) (skip : UInt64) :
    Except Overflow (List UInt8) := do
  return addFrom (← startAfter clock skip) symbols

def dewhiten (symbols : List UInt8) (clock : UInt32) (skip : UInt64) :
    Except Overflow (List UInt8) :=
  whiten symbols clock skip

def addInPlace (position : Fin 127) (index : Nat) (buffer : Array UInt8) : Array UInt8 :=
  if inside : index < buffer.size then
    addInPlace (advance position) (index + 1)
      (buffer.set index (buffer[index] ^^^ sequence.get position))
  else
    buffer
termination_by buffer.size - index

def whitenInPlace (buffer : Array UInt8) (clock : UInt32) (skip : UInt64) :
    Except Overflow (Array UInt8) := do
  return addInPlace (← startAfter clock skip) 0 buffer

end Piconet.Whitening
