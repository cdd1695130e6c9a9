import Mathlib.Data.Bool.AllAny
import Piconet.Text.Blank

/-!
# Blanks around a text

A text is blanks, then what is left of it by `trim`, then blanks again.  Where what
stands between the blanks holds no blank itself, it is just what is left.
-/

namespace Piconet.Text

def Surrounds (text body : List Char) : Prop :=
  ∃ before after, text = before ++ body ++ after ∧
    (∀ character ∈ before, isBlank character = true) ∧
    ∀ character ∈ after, isBlank character = true

def Solid (text : List Char) : Prop :=
  ∀ character ∈ text, isBlank character = false

instance (text : List Char) : Decidable (Solid text) :=
  decidable_of_iff (text.all (isBlank · = false) = true) List.all_iff_forall_prop

theorem Solid.dropWhile_append {body : List Char} (solid : Solid body) (nonempty : body ≠ [])
    (rest : List Char) : (body ++ rest).dropWhile isBlank = body ++ rest := by
  cases body with
  | nil => exact absurd rfl nonempty
  | cons first others =>
      exact List.dropWhile_cons_of_neg (Bool.eq_false_iff.1 (solid first List.mem_cons_self))

theorem dropWhile_of_blank {text : List Char}
    (blank : ∀ character ∈ text, isBlank character = true) : text.dropWhile isBlank = [] := by
  rw [← List.append_nil text, List.dropWhile_append_of_pos blank]
  rfl

theorem surrounds_trim (text : List Char) : Surrounds text (trim text) := by
  let late := text.dropWhile isBlank
  refine ⟨text.takeWhile isBlank, (late.reverse.takeWhile isBlank).reverse, ?_, ?_, ?_⟩
  · have back : trim text ++ (late.reverse.takeWhile isBlank).reverse = late := by
      rw [trim, ← List.reverse_append, List.takeWhile_append_dropWhile, List.reverse_reverse]
    rw [List.append_assoc, back]
    exact List.takeWhile_append_dropWhile.symm
  · exact List.all_eq_true.1 List.all_takeWhile
  · intro character member
    exact List.all_eq_true.1 List.all_takeWhile character (List.mem_reverse.1 member)

theorem trim_of_surrounds {text body : List Char} (around : Surrounds text body)
    (solid : Solid body) : trim text = body := by
  obtain ⟨before, after, rfl, leading, trailing⟩ := around
  rw [trim, List.append_assoc, List.dropWhile_append_of_pos leading]
  by_cases nonempty : body = []
  · rw [nonempty, List.nil_append, dropWhile_of_blank trailing]
    rfl
  · have backward : Solid body.reverse :=
      fun character member => solid character (List.mem_reverse.1 member)
    have reversed : ∀ character ∈ after.reverse, isBlank character = true :=
      fun character member => trailing character (List.mem_reverse.1 member)
    have front := backward.dropWhile_append (mt List.reverse_eq_nil_iff.1 nonempty) []
    rw [List.append_nil] at front
    rw [solid.dropWhile_append nonempty, List.reverse_append,
      List.dropWhile_append_of_pos reversed, front, List.reverse_reverse]

/-- What holds of a text between blanks can be told from what is left of the whole. -/
theorem exists_surrounds_iff {property : List Char → Prop}
    (solid : ∀ body, property body → Solid body) (text : List Char) :
    (∃ body, Surrounds text body ∧ property body) ↔ property (trim text) := by
  constructor
  · rintro ⟨body, around, holds⟩
    rwa [trim_of_surrounds around (solid body holds)]
  · exact fun holds => ⟨trim text, surrounds_trim text, holds⟩

/-- Only blanks are lost at the ends of a text. -/
theorem mem_trim_iff {text : List Char} {character : Char} (solid : isBlank character = false) :
    character ∈ trim text ↔ character ∈ text := by
  obtain ⟨before, after, whole, leading, trailing⟩ := surrounds_trim text
  have outside : character ∉ before ∧ character ∉ after :=
    ⟨fun member => Bool.false_ne_true (solid.symm.trans (leading character member)),
      fun member => Bool.false_ne_true (solid.symm.trans (trailing character member))⟩
  conv => rhs; rw [whole, List.append_assoc, List.mem_append, List.mem_append]
  rw [or_iff_right outside.1, or_iff_left outside.2]

end Piconet.Text
