/-!
# Counting set bits

The number of ones among the low bits of a word, by recursion on how many bits
are looked at.
-/

namespace Piconet

def onesBelow : (width : Nat) → (word : UInt64) → Nat
  | 0, _ => 0
  | width + 1, word => (word &&& 1).toNat + onesBelow width (word >>> 1)

def ones (word : UInt64) : Nat :=
  onesBelow 64 word

end Piconet
