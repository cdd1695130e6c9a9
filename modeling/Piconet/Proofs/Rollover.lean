import Mathlib.Algebra.Group.Nat.Defs
import Mathlib.Data.List.Chain
import Mathlib.Data.List.Induction
import Piconet.Rollover

/-!
# Extended times

As long as a counter is read at least once in each of its periods, the times of
its readings are the true ones: the rollovers that were counted are the whole
periods since the start.  Whatever is read, the times never go back before
2 ^ 32 rollovers have been counted.
-/

namespace Piconet.Rollover

/-- Each reading that goes back counts as one rollover. -/
theorem toNat_wraps_observe {rollover : Rollover} {reading : UInt32}
    (fits : rollover.wraps.toNat + (wentBack rollover.latest reading).toNat < 2 ^ 64) :
    (rollover.observe reading).wraps.toNat =
      rollover.wraps.toNat + (wentBack rollover.latest reading).toNat := by
  rw [observe]
  cases back : wentBack rollover.latest reading with
  | false => rfl
  | true =>
      rw [back] at fits
      exact (UInt64.toNat_add _ _).trans (Nat.mod_eq_of_lt fits)

theorem toNat_extend (wraps : UInt64) (reading : UInt32) :
    (extend wraps reading).toNat = wraps.toNat % 2 ^ 32 * 2 ^ 32 + reading.toNat := by
  have shifted : (wraps <<< 32).toNat = wraps.toNat % 2 ^ 32 * 2 ^ 32 := by
    rw [UInt64.toNat_shiftLeft, show (32 : UInt64).toNat % 64 = 32 from rfl, Nat.shiftLeft_eq]
    omega
  rw [extend, UInt64.toNat_or, shifted, UInt32.toNat_toUInt64, ← Nat.shiftLeft_eq,
    Nat.shiftLeft_add_eq_or_of_lt reading.toNat_lt]

def after (readings : List UInt32) : Rollover :=
  readings.foldl observe {}

theorem after_concat (readings : List UInt32) (reading : UInt32) :
    after (readings ++ [reading]) = (after readings).observe reading := by
  rw [after, List.foldl_append]
  rfl

/-! ## True times -/

/-- The readings of a counter with the times at which they were taken. -/
structure Faithful (readings : List (UInt32 × UInt64)) : Prop where
  /-- The counter shows the time modulo its period. -/
  shown : ∀ entry ∈ readings, entry.1.toNat = entry.2.toNat % 2 ^ 32
  /-- The first reading falls into the first period. -/
  first : ∀ entry, readings.head? = some entry → entry.2.toNat < 2 ^ 32
  /-- The times do not go back, and less than a period lies between two of them. -/
  gaps : readings.IsChain fun before after =>
    before.2 ≤ after.2 ∧ after.2.toNat - before.2.toNat < 2 ^ 32

theorem Faithful.of_append {earlier later : List (UInt32 × UInt64)}
    (faithful : Faithful (earlier ++ later)) : Faithful earlier where
  shown entry member := faithful.shown entry (List.mem_append_left _ member)
  first entry head := faithful.first entry (by rw [List.head?_append, head]; rfl)
  gaps := (List.isChain_append.1 faithful.gaps).1

/-- The state after a reading that was taken at some time. -/
structure ReadAt (rollover : Rollover) (time : UInt64) : Prop where
  latest : ∃ reading, rollover.latest = some reading ∧ reading.toNat = time.toNat % 2 ^ 32
  wraps : rollover.wraps.toNat = time.toNat / 2 ^ 32

/-- The first reading finds no rollover, as it falls into the first period. -/
theorem readAt_of_first {reading : UInt32} {time : UInt64}
    (shown : reading.toNat = time.toNat % 2 ^ 32) (early : time.toNat < 2 ^ 32) :
    ReadAt (observe {} reading) time where
  latest := ⟨reading, rfl, shown⟩
  wraps := (Nat.div_eq_of_lt early).symm

/-- A counter that is read again within a period shows less exactly if it started again. -/
theorem ReadAt.observe {rollover : Rollover} {before now : UInt64}
    (former : ReadAt rollover before) {reading : UInt32}
    (shown : reading.toNat = now.toNat % 2 ^ 32) (ordered : before ≤ now)
    (gap : now.toNat - before.toNat < 2 ^ 32) : ReadAt (rollover.observe reading) now := by
  obtain ⟨latest, known, latestShown⟩ := former.latest
  have counted := former.wraps
  have notBefore : before.toNat ≤ now.toNat := UInt64.le_iff_toNat_le.1 ordered
  have bound := now.toNat_lt
  have back : (wentBack rollover.latest reading).toNat =
      now.toNat / 2 ^ 32 - before.toNat / 2 ^ 32 := by
    rw [wentBack, known, Option.any_some]
    by_cases less : reading < latest
    · rw [decide_eq_true less]
      rw [UInt32.lt_iff_toNat_lt] at less
      change 1 = _
      omega
    · rw [decide_eq_false less]
      rw [UInt32.lt_iff_toNat_lt] at less
      change 0 = _
      omega
  refine ⟨⟨reading, rfl, shown⟩, ?_⟩
  rw [toNat_wraps_observe (by omega), back]
  omega

/-- The extended time of a reading is the time at which it was taken. -/
theorem timeOf_eq_of_readAt {rollover : Rollover} {reading : UInt32} {time : UInt64}
    (shown : reading.toNat = time.toNat % 2 ^ 32) (taken : ReadAt (rollover.observe reading) time) :
    rollover.timeOf reading = time := by
  have bound := time.toNat_lt
  apply UInt64.toNat_inj.1
  rw [timeOf, toNat_extend, taken.wraps, shown]
  omega

theorem readAt_after {readings : List (UInt32 × UInt64)} {entry : UInt32 × UInt64}
    (faithful : Faithful (readings ++ [entry])) :
    ReadAt ((after (readings.map Prod.fst)).observe entry.1) entry.2 := by
  have shown := faithful.shown entry (List.mem_append_right _ List.mem_cons_self)
  induction readings using List.reverseRecOn generalizing entry with
  | nil => exact readAt_of_first shown (faithful.first entry rfl)
  | append_singleton readings former ih =>
      have earlier := faithful.of_append
      have taken := ih earlier (earlier.shown former (List.mem_append_right _ List.mem_cons_self))
      obtain ⟨ordered, gap⟩ := (List.isChain_append.1 faithful.gaps).2.2 former
        List.getLast?_concat entry rfl
      rw [List.map_append, List.map_singleton, after_concat]
      exact taken.observe shown ordered gap

/-- Of readings that come often enough every extended time is true. -/
theorem timeOf_after {earlier later : List (UInt32 × UInt64)} {reading : UInt32} {time : UInt64}
    (faithful : Faithful (earlier ++ (reading, time) :: later)) :
    (after (earlier.map Prod.fst)).timeOf reading = time := by
  have split : earlier ++ (reading, time) :: later = (earlier ++ [(reading, time)]) ++ later := by
    rw [List.append_assoc, List.singleton_append]
  rw [split] at faithful
  have upToHere := faithful.of_append
  exact timeOf_eq_of_readAt
    (upToHere.shown (reading, time) (List.mem_append_right _ List.mem_cons_self))
    (readAt_after upToHere)

/-! ## Times of any readings -/

def timesOf (rollover : Rollover) : List UInt32 → List UInt64
  | [] => []
  | reading :: rest => rollover.timeOf reading :: (rollover.observe reading).timesOf rest

/-- How often readings in a row went back, the first one against an earlier reading. -/
def setbacks : Option UInt32 → List UInt32 → Nat
  | _, [] => 0
  | latest, reading :: rest => (wentBack latest reading).toNat + setbacks (some reading) rest

theorem toNat_wraps_foldl {rollover : Rollover} {readings : List UInt32}
    (fits : rollover.wraps.toNat + setbacks rollover.latest readings < 2 ^ 64) :
    (readings.foldl observe rollover).wraps.toNat =
      rollover.wraps.toNat + setbacks rollover.latest readings := by
  induction readings generalizing rollover with
  | nil => rfl
  | cons reading rest ih =>
      rw [setbacks, ← Nat.add_assoc] at fits ⊢
      have one := toNat_wraps_observe (Nat.lt_of_le_of_lt (Nat.le_add_right _ _) fits)
      rw [← one] at fits ⊢
      exact ih fits

theorem toNat_wraps_after {readings : List UInt32} (fits : setbacks none readings < 2 ^ 64) :
    (after readings).wraps.toNat = setbacks none readings := by
  have fresh : ({} : Rollover).wraps.toNat + setbacks none readings < 2 ^ 64 :=
    (Nat.zero_add _).trans_lt fits
  exact (toNat_wraps_foldl fresh).trans (Nat.zero_add _)

/-- One more reading does not give an earlier time while the rollovers can be counted. -/
theorem le_timeOf {rollover : Rollover} {reading : UInt32} {before : UInt64}
    (known : rollover.current = some before)
    (few : rollover.wraps.toNat + (wentBack rollover.latest reading).toNat < 2 ^ 32) :
    before ≤ rollover.timeOf reading := by
  obtain ⟨latest, shown, rfl⟩ := Option.map_eq_some_iff.1 known
  have counted := toNat_wraps_observe (Nat.lt_trans few (by decide))
  have bound := latest.toNat_lt
  rw [UInt64.le_iff_toNat_le, timeOf, toNat_extend, toNat_extend, counted]
  rw [wentBack, shown, Option.any_some] at few ⊢
  by_cases less : reading < latest
  · rw [decide_eq_true less, Bool.toNat_true] at few ⊢
    omega
  · rw [decide_eq_false less, Bool.toNat_false] at few ⊢
    rw [UInt32.lt_iff_toNat_lt] at less
    omega

theorem isChain_timesOf {rollover : Rollover} {before : UInt64} {readings : List UInt32}
    (known : rollover.current = some before)
    (few : rollover.wraps.toNat + setbacks rollover.latest readings < 2 ^ 32) :
    (before :: rollover.timesOf readings).IsChain (· ≤ ·) := by
  induction readings generalizing rollover before with
  | nil => exact .singleton _
  | cons reading rest ih =>
      rw [setbacks, ← Nat.add_assoc] at few
      have here := Nat.lt_of_le_of_lt (Nat.le_add_right _ _) few
      rw [← toNat_wraps_observe (Nat.lt_trans here (by decide))] at few
      exact .cons_cons (le_timeOf known here) (ih (current_observe rollover reading) few)

/-- The times of any readings rise while fewer than 2 ^ 32 rollovers have been counted. -/
theorem timesOf_pairwise {readings : List UInt32} (few : setbacks none readings < 2 ^ 32) :
    (timesOf {} readings).Pairwise (· ≤ ·) := by
  cases readings with
  | nil => exact .nil
  | cons reading rest =>
      have rises : (timesOf {} (reading :: rest)).IsChain (· ≤ ·) := by
        refine isChain_timesOf (current_observe {} reading) ?_
        rw [setbacks] at few
        exact few
      exact List.isChain_iff_pairwise.1 rises

end Piconet.Rollover
