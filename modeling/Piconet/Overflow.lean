/-!
# Arithmetic that refuses to overflow

Where a result must fit a machine word and nothing promises that it does, the
operation reports which way of computing it failed.
-/

namespace Piconet

inductive Overflow where
  | add
  | subtract
  | negate
  deriving DecidableEq, Repr

def Overflow.message : Overflow → String
  | add => "attempt to add with overflow"
  | subtract => "attempt to subtract with overflow"
  | negate => "attempt to negate with overflow"

namespace Overflow

def Fits32 (value : Int) : Prop :=
  -0x80000000 ≤ value ∧ value < 0x80000000

instance (value : Int) : Decidable (Fits32 value) :=
  inferInstanceAs (Decidable (_ ∧ _))

theorem fits32_toInt (word : Int32) : Fits32 word.toInt :=
  ⟨word.le_toInt, word.toInt_lt⟩

/-- A value that fits, or the report that the operation overflowed. -/
def guard32 (operation : Overflow) (value : Int) : Except Overflow Int32 :=
  if Fits32 value then .ok (Int32.ofInt value) else .error operation

def add32 (first second : Int32) : Except Overflow Int32 :=
  guard32 .add (first.toInt + second.toInt)

def subtract32 (first second : Int32) : Except Overflow Int32 :=
  guard32 .subtract (first.toInt - second.toInt)

/-- The absolute value; the least word has none. -/
def magnitude32 (word : Int32) : Except Overflow Int32 :=
  guard32 .negate word.toInt.natAbs

def add64 (first second : UInt64) : Except Overflow UInt64 :=
  if first.toNat + second.toNat < UInt64.size then .ok (first + second) else .error .add

theorem guard32_toInt {operation : Overflow} {value : Int} (fits : Fits32 value) :
    ∃ word, guard32 operation value = .ok word ∧ word.toInt = value := by
  refine ⟨Int32.ofInt value, if_pos fits, ?_⟩
  exact Int32.toInt_ofInt_of_le fits.1 fits.2

theorem add64_eq_error_iff (first second : UInt64) :
    add64 first second = .error .add ↔ UInt64.size ≤ first.toNat + second.toNat := by
  unfold add64
  split
  · simp only [reduceCtorEq, false_iff]
    omega
  · simp only [true_iff]
    omega

/-- A guarded value comes out as the word that stands for it. -/
theorem guard32_eq_ok_iff {operation : Overflow} {value : Int} {word : Int32} :
    guard32 operation value = .ok word ↔ word.toInt = value := by
  constructor
  · intro done
    unfold guard32 at done
    split at done
    · rename_i fits
      cases done
      exact Int32.toInt_ofInt_of_le fits.1 fits.2
    · cases done
  · rintro rfl
    rw [guard32, if_pos (fits32_toInt word), Int32.ofInt_toInt]

/-- What follows a value that fits goes on with it. -/
theorem guard32_bind_of_fits {Result : Type} {operation : Overflow} {value : Int}
    (fits : Fits32 value) (next : Int32 → Except Overflow Result) :
    (guard32 operation value >>= next) = next (Int32.ofInt value) := by
  rw [guard32, if_pos fits]
  rfl

/-- Nothing follows a value that does not fit. -/
theorem guard32_bind_of_not_fits {Result : Type} {operation : Overflow} {value : Int}
    (large : ¬Fits32 value) (next : Int32 → Except Overflow Result) :
    (guard32 operation value >>= next) = .error operation := by
  rw [guard32, if_neg large]
  rfl

/-- Two steps in a row come to an end exactly when each of them does. -/
theorem bind_eq_ok_iff {First Second : Type} {step : Except Overflow First}
    {next : First → Except Overflow Second} {result : Second} :
    (step >>= next) = .ok result ↔ ∃ middle, step = .ok middle ∧ next middle = .ok result := by
  cases step with
  | error overflow =>
      constructor
      · intro impossible
        cases impossible
      · rintro ⟨middle, impossible, -⟩
        cases impossible
  | ok middle =>
      constructor
      · intro done
        exact ⟨middle, rfl, done⟩
      · rintro ⟨other, same, done⟩
        cases same
        exact done

end Overflow

end Piconet
