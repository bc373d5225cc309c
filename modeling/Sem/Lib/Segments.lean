import Mathlib.Data.List.Basic

/-!
# Segments

`segments d l` are the parts of a list that end at a separator, `remainder d l` is what follows the
last separator.

* `segments_append`, `remainder_append`: of a list that arrives in two parts. What remains of the
  first part belongs to the first segment of the second (`prepend`).
* `prepend_eq_iff`: prepending tells what was prepended, unless there was no segment.
-/

namespace Sem

universe u

variable {α : Type u}

/-- In front of the first segment, if there is one. -/
def prepend (r : List α) : List (List α) → List (List α)
  | [] => []
  | s :: ss => (r ++ s) :: ss

@[simp] theorem prepend_nil (r : List α) : prepend r [] = [] := rfl

@[simp] theorem prepend_cons (r s : List α) (ss : List (List α)) :
    prepend r (s :: ss) = (r ++ s) :: ss := rfl

@[simp] theorem nil_prepend (ss : List (List α)) : prepend [] ss = ss := by
  cases ss <;> rfl

@[simp] theorem length_prepend (r : List α) (ss : List (List α)) :
    (prepend r ss).length = ss.length := by
  cases ss <;> rfl

theorem prepend_prepend (r r' : List α) (ss : List (List α)) :
    prepend r (prepend r' ss) = prepend (r ++ r') ss := by
  cases ss <;> simp

theorem prepend_eq_iff {r r' : List α} {ss : List (List α)} :
    prepend r ss = prepend r' ss ↔ (ss ≠ [] → r = r') := by
  cases ss <;> simp

variable [BEq α]

/-- The parts of the list before a separator. -/
def segments (d : α) (l : List α) : List (List α) := (l.splitOn d).dropLast

/-- What follows the last separator. -/
def remainder (d : α) (l : List α) : List α := (l.splitOn d).getLastD []

variable {d x : α} {l l' : List α}

@[simp] theorem segments_nil : segments d ([] : List α) = [] := rfl

@[simp] theorem remainder_nil : remainder d ([] : List α) = [] := rfl

theorem splitOn_eq : l.splitOn d = segments d l ++ [remainder d l] := by
  have hne := List.splitOn_ne_nil d l
  rw [segments, remainder]
  rcases List.eq_nil_or_concat (l.splitOn d) with hnil | ⟨ss, r, hconcat⟩
  · exact absurd hnil hne
  · rw [hconcat]
    simp

theorem segments_of_splitOn {ss : List (List α)} {r : List α} (h : l.splitOn d = ss ++ [r]) :
    segments d l = ss ∧ remainder d l = r := by
  rw [segments, remainder, h]
  simp

variable [LawfulBEq α]

/-- A separator ends a segment. -/
theorem segments_cons_self (d : α) (l : List α) :
    segments d (d :: l) = [] :: segments d l ∧ remainder d (d :: l) = remainder d l := by
  refine segments_of_splitOn ?_
  rw [List.splitOn_cons_eq_if_modifyHead, splitOn_eq]
  simp

/-- Anything else belongs to the segment it is in, or to what remains. -/
theorem segments_cons_of_ne (h : x ≠ d) (l : List α) :
    segments d (x :: l) = prepend [x] (segments d l) ∧
      remainder d (x :: l) = if segments d l = [] then x :: remainder d l else remainder d l := by
  refine segments_of_splitOn ?_
  rw [List.splitOn_cons_eq_if_modifyHead, splitOn_eq]
  cases segments d l <;> simp [h]

/-- Only what remains of the first part matters to the second. -/
theorem segments_append (d : α) (l l' : List α) :
    segments d (l ++ l') = segments d l ++ prepend (remainder d l) (segments d l') ∧
      remainder d (l ++ l') =
        if segments d l' = [] then remainder d l ++ remainder d l' else remainder d l' := by
  induction l with
  | nil => simp
  | cons x l ih =>
    obtain ⟨hs, hr⟩ := ih
    by_cases hx : x = d
    · subst hx
      obtain ⟨hs₁, hr₁⟩ := segments_cons_self x (l ++ l')
      obtain ⟨hs₂, hr₂⟩ := segments_cons_self x l
      rw [List.cons_append, hs₁, hr₁, hs₂, hr₂, hs, hr]
      exact ⟨rfl, rfl⟩
    · obtain ⟨hs₁, hr₁⟩ := segments_cons_of_ne hx (l ++ l')
      obtain ⟨hs₂, hr₂⟩ := segments_cons_of_ne hx l
      rw [List.cons_append, hs₁, hr₁, hs₂, hr₂, hs, hr]
      cases segments d l <;> cases segments d l' <;> simp

theorem segments_concat_self (d : α) (l : List α) :
    segments d (l ++ [d]) = segments d l ++ [remainder d l] ∧ remainder d (l ++ [d]) = [] := by
  obtain ⟨hs, hr⟩ := segments_cons_self d ([] : List α)
  rw [(segments_append d l [d]).1, (segments_append d l [d]).2, hs, hr]
  simp

theorem segments_concat_of_ne (h : x ≠ d) (l : List α) :
    segments d (l ++ [x]) = segments d l ∧ remainder d (l ++ [x]) = remainder d l ++ [x] := by
  obtain ⟨hs, hr⟩ := segments_cons_of_ne h ([] : List α)
  rw [(segments_append d l [x]).1, (segments_append d l [x]).2, hs, hr]
  simp

/-- There is a segment exactly if there is a separator. -/
theorem segments_ne_nil_iff : segments d l ≠ [] ↔ d ∈ l := by
  induction l with
  | nil => simp
  | cons x l ih =>
    by_cases hx : x = d
    · subst hx
      simp [(segments_cons_self x l).1]
    · rw [(segments_cons_of_ne hx l).1, List.mem_cons, ← ih]
      have hne : d ≠ x := fun h => hx h.symm
      cases segments d l <;> simp [hne]

end Sem
