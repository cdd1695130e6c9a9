import Mathlib.Algebra.Group.Nat.Defs
import Mathlib.Data.List.Induction
import Piconet.Proofs.Hop.Bank
import Piconet.Proofs.Hop.Permutation

/-!
# Hop selection in machine words

The selection of a channel adds, multiplies and divides words of 32 bits and
reads one entry of the bank.  A sum or product that does not fit, a division by
zero and a place outside of the bank would each stop it.  None of them occurs:
the words of the selection are small, and a bank always has an entry.
-/

namespace Piconet

/-- What can stop a computation with words and tables. -/
inductive WordFault where
  | overflow
  | zeroDivisor
  | outOfRange
  deriving DecidableEq, Repr

namespace WordFault

def add (first second : UInt32) : Except WordFault UInt32 :=
  if first.toNat + second.toNat < UInt32.size then .ok (first + second) else .error .overflow

def multiply (first second : UInt32) : Except WordFault UInt32 :=
  if first.toNat * second.toNat < UInt32.size then .ok (first * second) else .error .overflow

def remainder (value divisor : UInt32) : Except WordFault UInt32 :=
  if divisor = 0 then .error .zeroDivisor else .ok (value % divisor)

def entry (table : List UInt8) (place : UInt32) : Except WordFault UInt8 :=
  match table[place.toNat]? with
  | some value => .ok value
  | none => .error .outOfRange

def add16 (first second : UInt16) : Except WordFault UInt16 :=
  if first.toNat + second.toNat < UInt16.size then .ok (first + second) else .error .overflow

theorem add_eq_ok {first second : UInt32} (fits : first.toNat + second.toNat < UInt32.size) :
    add first second = .ok (first + second) :=
  if_pos fits

theorem toNat_add_of_fits {first second : UInt32}
    (fits : first.toNat + second.toNat < UInt32.size) :
    (first + second).toNat = first.toNat + second.toNat := by
  rw [UInt32.toNat_add]
  exact Nat.mod_eq_of_lt fits

theorem multiply_eq_ok {first second : UInt32}
    (fits : first.toNat * second.toNat < UInt32.size) :
    multiply first second = .ok (first * second) :=
  if_pos fits

theorem remainder_eq_ok (value : UInt32) {divisor : UInt32} (nonzero : divisor ≠ 0) :
    remainder value divisor = .ok (value % divisor) :=
  if_neg nonzero

theorem entry_eq_ok {table : List UInt8} {place : UInt32} (inside : place.toNat < table.length) :
    entry table place = .ok table[place.toNat] := by
  rw [entry, List.getElem?_eq_getElem inside]

end WordFault

namespace HopSequence

def gatherWords (word : UInt32) (positions : List UInt32) : Except WordFault UInt32 :=
  positions.foldlM (fun bits position => do
    let doubled ← WordFault.multiply 2 bits
    WordFault.add doubled (word >>> position &&& 1)) 0

def permutedWords (address clock : UInt32) : Except WordFault UInt8 := do
  let ticks : UInt32 := clock >>> 2 &&& 0x1f
  let offset : UInt32 := (address >>> 23 ^^^ clock >>> 21) &&& 0x1f
  let mask : UInt32 := address >>> 19 &&& 0xf
  let moved ← WordFault.add ticks offset
  let turned ← WordFault.remainder moved 32
  let crossing ← gatherWords address [8, 6, 4, 2, 0]
  let crossed : UInt32 := (crossing ^^^ clock >>> 16) &&& 0x1f
  let inverted ← WordFault.multiply (half clock) 0x1f
  let low : UInt32 := (address >>> 10 ^^^ clock >>> 7) &&& 0x1ff
  return Butterfly.permute (turned ^^^ mask).toUInt8 (inverted ^^^ crossed).toUInt8 low.toUInt16

def placeWords (five fixed turned ahead size : UInt32) : Except WordFault UInt32 := do
  let first ← WordFault.add five fixed
  let second ← WordFault.add first turned
  let third ← WordFault.add second ahead
  WordFault.remainder third size

/-- The channel for a value of the master clock, with every step checked. -/
def select (sequence : HopSequence) (clock : UInt32) : Except WordFault UInt8 := do
  let size := UInt32.ofNat sequence.bank.length
  let five ← permutedWords sequence.address.low clock
  let fixed ← gatherWords sequence.address.low [13, 11, 9, 7, 5, 3, 1]
  let turned ← WordFault.remainder (segment clock) size
  let place ← placeWords five.toUInt32 fixed turned (half clock <<< 5) size
  WordFault.entry sequence.bank place

def tune (sequence : HopSequence) (clock : UInt32) : Except WordFault UInt16 := do
  let channel ← sequence.select clock
  WordFault.add16 baseMegahertz channel.toUInt16

/-! ## The small words of the selection -/

theorem gather_concat (word : UInt32) (positions : List UInt32) (position : UInt32) :
    gather word (positions ++ [position]) =
      2 * gather word positions + (word >>> position &&& 1) := by
  rw [gather, List.foldl_append]
  rfl

theorem toNat_bit_le (word : UInt32) : (word &&& 1).toNat ≤ 1 := by
  rw [UInt32.toNat_and]
  exact Nat.and_le_right

/-- As many bits as there are positions are gathered; up to 31 of them fit a word. -/
theorem gatherWords_eq_ok (word : UInt32) (positions : List UInt32)
    (few : positions.length < 32) :
    gatherWords word positions = .ok (gather word positions) ∧
      (gather word positions).toNat < 2 ^ positions.length := by
  induction positions using List.reverseRecOn with
  | nil => exact ⟨rfl, Nat.one_pos⟩
  | append_singleton positions position ih =>
      rw [List.length_append, List.length_singleton] at few
      obtain ⟨former, small⟩ := ih (by omega)
      have bit := toNat_bit_le (word >>> position)
      have limit : 2 ^ positions.length ≤ 2 ^ 30 := Nat.pow_le_pow_right (by decide) (by omega)
      have doubles : (2 : UInt32).toNat * (gather word positions).toNat < UInt32.size := by
        change 2 * (gather word positions).toNat < 4294967296
        omega
      have doubled : (2 * gather word positions).toNat = 2 * (gather word positions).toNat := by
        rw [UInt32.toNat_mul]
        exact Nat.mod_eq_of_lt doubles
      have adds : (2 * gather word positions).toNat + (word >>> position &&& 1).toNat <
          UInt32.size := by
        rw [doubled]
        change _ < 4294967296
        omega
      rw [gather_concat]
      constructor
      · rw [gatherWords, List.foldlM_append]
        change (gatherWords word positions >>= _) = _
        rw [former]
        change (WordFault.multiply 2 _ >>= _) >>= _ = _
        rw [WordFault.multiply_eq_ok doubles]
        change WordFault.add _ _ >>= _ = _
        rw [WordFault.add_eq_ok adds]
        rfl
      · rw [WordFault.toNat_add_of_fits adds, doubled, List.length_append,
          List.length_singleton, Nat.pow_succ]
        omega

theorem toNat_masked_lt (word : UInt32) : (word &&& 0x1f).toNat < 32 := by
  rw [UInt32.toNat_and]
  exact Nat.lt_of_le_of_lt Nat.and_le_right (by decide)

theorem permutedWords_eq_ok (address clock : UInt32) :
    permutedWords address clock = .ok (permuted address clock) := by
  have ticks := toNat_masked_lt (clock >>> 2)
  have offset := toNat_masked_lt (address >>> 23 ^^^ clock >>> 21)
  have parity := toNat_bit_le (clock >>> 1)
  have moves : (clock >>> 2 &&& 0x1f).toNat +
      ((address >>> 23 ^^^ clock >>> 21) &&& 0x1f).toNat < UInt32.size := by
    change _ < 4294967296
    omega
  have inverts : (half clock).toNat * (0x1f : UInt32).toNat < UInt32.size := by
    change (clock >>> 1 &&& 1).toNat * 31 < 4294967296
    omega
  rw [permutedWords, WordFault.add_eq_ok moves,
    (gatherWords_eq_ok address [8, 6, 4, 2, 0] (by decide)).1,
    WordFault.multiply_eq_ok inverts]
  rfl

/-- The half of the bank is put 32 entries further on. -/
theorem toNat_half_shiftLeft (clock : UInt32) :
    (half clock <<< 5).toNat = 32 * (half clock).toNat := by
  have parity : (half clock).toNat ≤ 1 := toNat_bit_le (clock >>> 1)
  rw [UInt32.toNat_shiftLeft]
  change (half clock).toNat <<< 5 % 4294967296 = 32 * (half clock).toNat
  rw [Nat.shiftLeft_eq]
  omega

theorem exists_placeWords {five fixed turned ahead size : UInt32}
    (small : five.toNat + fixed.toNat + turned.toNat + ahead.toNat < UInt32.size)
    (nonzero : size ≠ 0) :
    ∃ place, placeWords five fixed turned ahead size = .ok place ∧
      place.toNat = (five.toNat + fixed.toNat + turned.toNat + ahead.toNat) % size.toNat := by
  have firstFits : five.toNat + fixed.toNat < UInt32.size := by omega
  have first := WordFault.toNat_add_of_fits firstFits
  have secondFits : (five + fixed).toNat + turned.toNat < UInt32.size := by omega
  have second := WordFault.toNat_add_of_fits secondFits
  have thirdFits : (five + fixed + turned).toNat + ahead.toNat < UInt32.size := by omega
  have third := WordFault.toNat_add_of_fits thirdFits
  refine ⟨(five + fixed + turned + ahead) % size, ?_, ?_⟩
  · rw [placeWords, WordFault.add_eq_ok firstFits]
    change (WordFault.add _ _ >>= _) = _
    rw [WordFault.add_eq_ok secondFits]
    change (WordFault.add _ _ >>= _) = _
    rw [WordFault.add_eq_ok thirdFits]
    exact WordFault.remainder_eq_ok _ nonzero
  · rw [UInt32.toNat_mod, third, second, first]

/-! ## The channel -/

theorem permuted_lt (address clock : UInt32) : (permuted address clock).toNat < 32 :=
  Butterfly.permute_lt _ _ _

theorem toNat_bank_length (sequence : HopSequence) :
    (UInt32.ofNat sequence.bank.length).toNat = sequence.bank.length := by
  have atMost : sequence.bank.length ≤ 79 := sequence.length_bank_le
  exact UInt32.toNat_ofNat_of_lt' (by simp only [UInt32.size]; omega)

theorem bank_length_ne_zero (sequence : HopSequence) :
    UInt32.ofNat sequence.bank.length ≠ 0 := by
  intro zero
  have none : (UInt32.ofNat sequence.bank.length).toNat = 0 := congrArg UInt32.toNat zero
  rw [toNat_bank_length] at none
  exact absurd none (Nat.ne_of_gt sequence.bank_length_pos)

/-- Nothing stops the selection, and it comes to the channel of the sequence. -/
theorem select_eq_ok (sequence : HopSequence) (clock : UInt32) :
    sequence.select clock = .ok (sequence.channel clock) := by
  have positive := sequence.bank_length_pos
  have atMost : sequence.bank.length ≤ 79 := sequence.length_bank_le
  have size := sequence.toNat_bank_length
  have nonzero := sequence.bank_length_ne_zero
  obtain ⟨gathered, fixed⟩ :=
    gatherWords_eq_ok sequence.address.low [13, 11, 9, 7, 5, 3, 1] (by decide)
  change (gather sequence.address.low [13, 11, 9, 7, 5, 3, 1]).toNat < 128 at fixed
  have five := permuted_lt sequence.address.low clock
  have widened : (permuted sequence.address.low clock).toUInt32.toNat =
      (permuted sequence.address.low clock).toNat := UInt8.toNat_toUInt32 _
  have turned : (segment clock % UInt32.ofNat sequence.bank.length).toNat =
      (segment clock).toNat % sequence.bank.length := by
    rw [UInt32.toNat_mod, size]
  have turnedSmall := Nat.mod_lt (segment clock).toNat positive
  have shifted := toNat_half_shiftLeft clock
  have parity : (half clock).toNat ≤ 1 := toNat_bit_le (clock >>> 1)
  have small : (permuted sequence.address.low clock).toUInt32.toNat +
      (gather sequence.address.low [13, 11, 9, 7, 5, 3, 1]).toNat +
      (segment clock % UInt32.ofNat sequence.bank.length).toNat +
      (half clock <<< 5).toNat < 4294967296 := by
    omega
  obtain ⟨place, placed, value⟩ := exists_placeWords small nonzero
  rw [widened, turned, shifted, size] at value
  change place.toNat = index sequence.address.low clock sequence.bank.length % _ at value
  have inside : place.toNat < sequence.bank.length := value ▸ Nat.mod_lt _ positive
  rw [select, permutedWords_eq_ok, gathered, WordFault.remainder_eq_ok _ nonzero]
  change (placeWords _ _ _ _ _ >>= _) = _
  rw [placed]
  change WordFault.entry _ _ = _
  rw [WordFault.entry_eq_ok inside, channel, List.get_eq_getElem]
  simp only [value]

/-- The channel of every clock is one of those in use. -/
theorem uses_channel (sequence : HopSequence) (clock : UInt32) :
    sequence.Uses (sequence.channel clock) :=
  (sequence.mem_bank_iff _).1 (sequence.channel_mem_bank clock)

theorem channel_lt (sequence : HopSequence) (clock : UInt32) :
    (sequence.channel clock).toNat < channelCount :=
  lt_of_uses (sequence.uses_channel clock)

theorem toNat_frequency (sequence : HopSequence) (clock : UInt32) :
    (sequence.frequency clock).toNat = 2402 + (sequence.channel clock).toNat := by
  have inBand : (sequence.channel clock).toNat < 79 := sequence.channel_lt clock
  have widened : (sequence.channel clock).toUInt16.toNat = (sequence.channel clock).toNat :=
    UInt8.toNat_toUInt16 _
  rw [frequency, UInt16.toNat_add, widened]
  change (2402 + (sequence.channel clock).toNat) % 65536 = _
  omega

theorem tune_eq_ok (sequence : HopSequence) (clock : UInt32) :
    sequence.tune clock = .ok (sequence.frequency clock) := by
  have inBand : (sequence.channel clock).toNat < 79 := sequence.channel_lt clock
  have widened : (sequence.channel clock).toUInt16.toNat = (sequence.channel clock).toNat :=
    UInt8.toNat_toUInt16 _
  have fits : baseMegahertz.toNat + (sequence.channel clock).toUInt16.toNat < UInt16.size := by
    change 2402 + (sequence.channel clock).toUInt16.toNat < 65536
    omega
  rw [tune, select_eq_ok]
  exact if_pos fits

end HopSequence

end Piconet
