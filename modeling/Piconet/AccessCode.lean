import Piconet.BitCount
import Piconet.Symbols
import Piconet.SyncWord

/-!
# Searching for an access code

A correlator runs the symbols of a stream through a shift register of 64 bits
and compares each full register with the sync word.  The first window with
fewer differing bits than the tolerance is the match.
-/

namespace Piconet

structure AccessCode where
  offset : Nat
  errors : Nat
  deriving DecidableEq, Repr

def AccessCode.notFoundMessage : String :=
  "Access code not found"

/-- A search for one sync word; a match has fewer errors than the tolerance. -/
structure Correlator where
  syncWord : SyncWord
  tolerance : Nat
  deriving DecidableEq, Repr

namespace Correlator

def defaultTolerance : Nat := 2

def shiftIn (register : UInt64) (symbol : Bool) : UInt64 :=
  (register <<< 1) ||| (if symbol then 1 else 0)

def target (correlator : Correlator) : UInt64 :=
  ⟨correlator.syncWord.airOrder⟩

/-- Compares the register, then shifts in the next symbol, until one side ends. -/
def scan (target : UInt64) (tolerance : Nat) :
    (register : UInt64) → (offset : Nat) → List Bool → Option AccessCode
  | register, offset, [] =>
      let errors := ones (register ^^^ target)
      if errors < tolerance then some { offset, errors } else none
  | register, offset, symbol :: rest =>
      let errors := ones (register ^^^ target)
      if errors < tolerance then some { offset, errors }
      else scan target tolerance (shiftIn register symbol) (offset + 1) rest

/-- The search over a stream of bits; one shorter than a sync word holds none. -/
def searchBits (correlator : Correlator) (stream : List Bool) : Option AccessCode :=
  if stream.length < 64 then none
  else
    scan correlator.target correlator.tolerance
      ((stream.take 64).foldl shiftIn 0) 0 (stream.drop 64)

def find? (correlator : Correlator) (symbols : List UInt8) : Option AccessCode :=
  correlator.searchBits (symbols.map Symbols.bit)

def findPacked? (correlator : Correlator) (bytes : List UInt8) : Option AccessCode :=
  correlator.searchBits (bytes.flatMap Symbols.packedBits)

theorem searchBits_of_short {correlator : Correlator} {stream : List Bool}
    (short : stream.length < 64) : correlator.searchBits stream = none := by
  simp [searchBits, short]

end Correlator

end Piconet
