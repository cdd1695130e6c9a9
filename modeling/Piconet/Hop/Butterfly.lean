/-!
# The butterfly permutation

Hop selection scrambles five bits with fourteen stages.  A stage exchanges two
of the five wires when its control bit is set.  The low nine control bits come
from one word and the high five from another; the last stage works first.
-/

namespace Piconet.Butterfly

def stages : List (Fin 5 × Fin 5) :=
  [(0, 1), (2, 3), (1, 2), (3, 4), (0, 4), (1, 3), (0, 2),
   (3, 4), (1, 4), (0, 3), (2, 4), (1, 3), (0, 3), (1, 2)]

/-- The control bits, one for each stage. -/
def control (high : UInt8) (low : UInt16) : BitVec 14 :=
  high.toBitVec.setWidth 5 ++ low.toBitVec.setWidth 9

def enabled (control : BitVec 14) : List (Fin 5 × Fin 5) :=
  (stages.zipIdx.filter fun stage => control.getLsbD stage.2).map Prod.fst

def wires (byte : UInt8) : Vector Bool 5 :=
  Vector.ofFn fun position => byte.toBitVec.getLsbD position

def ofWires (wires : Vector Bool 5) : UInt8 :=
  UInt8.ofNat (wires[0].toNat + 2 * wires[1].toNat + 4 * wires[2].toNat +
    8 * wires[3].toNat + 16 * wires[4].toNat)

def exchange (stage : Fin 5 × Fin 5) (wires : Vector Bool 5) : Vector Bool 5 :=
  wires.swap stage.1 stage.2

/-- The permutation of five bits under the given control words. -/
def permute (byte : UInt8) (high : UInt8) (low : UInt16) : UInt8 :=
  ofWires ((enabled (control high low)).foldr exchange (wires byte))

/-- A stage undoes itself. -/
theorem exchange_exchange (stage : Fin 5 × Fin 5) (wires : Vector Bool 5) :
    exchange stage (exchange stage wires) = wires := by
  simp only [exchange]
  apply Vector.ext
  intro position inside
  simp only [Vector.getElem_swap]
  split
  · split <;> simp_all
  · split <;> simp_all

end Piconet.Butterfly
