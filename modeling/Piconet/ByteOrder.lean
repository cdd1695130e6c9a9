/-!
# Byte order

Numbers travel as byte strings of a fixed length.  The records of a capture and
most settings are little endian; the clock commands are big endian.
-/

namespace Piconet.ByteOrder

/-- The low `width` bytes of a number, the least significant first. -/
def little : (width : Nat) → (value : Nat) → List UInt8
  | 0, _ => []
  | width + 1, value => UInt8.ofNat value :: little width (value / 256)

def big (width value : Nat) : List UInt8 :=
  (little width value).reverse

def ofLittle : List UInt8 → Nat
  | [] => 0
  | byte :: rest => byte.toNat + 256 * ofLittle rest

@[simp] theorem length_little (width value : Nat) :
    (little width value).length = width := by
  induction width generalizing value with
  | zero => rfl
  | succ width ih => simp [little, ih]

/-- Bytes that were written are read back. -/
theorem ofLittle_little (width value : Nat) :
    ofLittle (little width value) = value % 1 <<< (8 * width) := by
  induction width generalizing value with
  | zero => simp [little, ofLittle, Nat.mod_one]
  | succ width ih =>
      have wider : 1 <<< (8 * (width + 1)) = 256 * 1 <<< (8 * width) := by
        rw [Nat.shiftLeft_eq, Nat.shiftLeft_eq, Nat.mul_add, Nat.pow_add]
        omega
      simp only [little, ofLittle, ih]
      rw [show (UInt8.ofNat value).toNat = value % 256 from UInt8.toNat_ofNat', wider,
        Nat.mod_mul]

end Piconet.ByteOrder
