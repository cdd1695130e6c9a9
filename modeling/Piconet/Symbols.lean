/-!
# Symbols

The radio demodulates one bit at a time.  A stream of symbols is held either
one to a byte, where only the low bit counts, or packed eight to a byte with
the first symbol in the most significant bit.
-/

namespace Piconet.Symbols

def bit (symbol : UInt8) : Bool :=
  symbol &&& 1 == 1

/-- The bits of a packed byte, the first symbol in front. -/
def packedBits (byte : UInt8) : List Bool :=
  (List.range 8).reverse.map byte.toBitVec.getLsbD

def ofPacked (byte : UInt8) : List UInt8 :=
  [byte >>> 7 &&& 1, byte >>> 6 &&& 1, byte >>> 5 &&& 1, byte >>> 4 &&& 1,
   byte >>> 3 &&& 1, byte >>> 2 &&& 1, byte >>> 1 &&& 1, byte &&& 1]

def unpack (bytes : List UInt8) : List UInt8 :=
  bytes.flatMap ofPacked

@[simp] theorem length_ofPacked (byte : UInt8) : (ofPacked byte).length = 8 :=
  rfl

@[simp] theorem length_unpack (bytes : List UInt8) :
    (unpack bytes).length = 8 * bytes.length := by
  induction bytes with
  | nil => rfl
  | cons byte rest ih =>
      simp only [unpack, List.flatMap_cons, List.length_append, length_ofPacked,
        List.length_cons] at ih ⊢
      omega

end Piconet.Symbols
