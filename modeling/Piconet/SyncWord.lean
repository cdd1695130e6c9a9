import Piconet.Address
import Piconet.BinaryPolynomial

/-!
# Sync words

The middle of every access code is a word of 64 bits made from the lower
address part.  Thirty information bits, the part itself and a Barker tail
chosen by its top bit, are scrambled with a pseudo-noise word, encoded by a
cyclic code with 34 parity bits, and scrambled again.  Bit 0 is sent first.
-/

namespace Piconet

/-- A sync word; bit 0 is the first on the air. -/
structure SyncWord where
  bits : BitVec 64
  deriving DecidableEq, Repr

namespace SyncWord

def noise : BitVec 64 := 0x83848d96bbcc54fc

/-- The generator of the cyclic code, of degree 34. -/
def generator : BitVec 64 := 0o260534236651

/-- The tail that keeps the end of the word balanced. -/
def barker (lap : BitVec 24) : BitVec 6 :=
  if lap.msb then 0x13 else 0x2c

def information (lap : BitVec 24) : BitVec 30 :=
  (barker lap ++ lap) ^^^ noise.extractLsb' 34 30

/-- The multiple of the generator that carries the information in its top bits. -/
def codeWord (information : BitVec 30) : BitVec 64 :=
  let message := information ++ (0 : BitVec 34)
  message ||| BinaryPolynomial.remainder message generator

def ofLap (lap : BitVec 24) : SyncWord :=
  ⟨codeWord (information lap) ^^^ noise⟩

def lap (word : SyncWord) : BitVec 24 :=
  word.bits.extractLsb' 34 24

/-- A word is valid when its unscrambled form is a multiple of the generator. -/
def isValid (word : SyncWord) : Bool :=
  BinaryPolynomial.remainder (word.bits ^^^ noise) generator == 0

/-- The word as a shift register holds it that is filled one symbol at a time. -/
def airOrder (word : SyncWord) : BitVec 64 :=
  word.bits.reverse

def symbols (word : SyncWord) : List Bool :=
  List.ofFn fun position : Fin 64 => word.bits.getLsbD position

@[simp] theorem length_symbols (word : SyncWord) : word.symbols.length = 64 :=
  List.length_ofFn

end SyncWord

def Address.syncWord (address : Address) : SyncWord :=
  .ofLap address.lap

end Piconet
