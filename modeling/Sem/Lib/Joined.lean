import Mathlib.Data.List.Basic

/-!
# Joined lists

Lists that are joined by a separator, which they may contain themselves. A joined list has the words
of its parts, in order (`splitOn_intercalate_flatMap`), and no more than that is told by it
(`intercalate_eq_iff`).

* `flatMap_eq_iff`: where the parts have as many words each, they are told apart as well.
* `forall_of_length_flatMap_filter`: where every part has a word, no part is left out of a list with
  as many words.
-/

namespace Sem

universe u v

variable {α : Type u} {β : Type v}

section Words

variable [BEq α] {d : α}

theorem length_splitOn_pos (l : List α) : 0 < (l.splitOn d).length :=
  List.length_pos_iff.mpr (List.splitOn_ne_nil d l)

variable [LawfulBEq α]

/-- A joined list has the words of its parts. -/
theorem splitOn_intercalate_flatMap {ls : List (List α)} (hne : ls ≠ []) :
    ([d].intercalate ls).splitOn d = ls.flatMap (List.splitOn d) := by
  induction ls with
  | nil => exact absurd rfl hne
  | cons l ls ih =>
    cases ls with
    | nil => simp
    | cons l' ls =>
      rw [List.intercalate_cons_cons, List.append_assoc, List.singleton_append,
        List.splitOn_append_cons_self, ih (List.cons_ne_nil _ _)]
      rfl

/-- **Two joined lists are equal exactly if the words are.** -/
theorem intercalate_eq_iff {ls ls' : List (List α)} (hne : ls ≠ []) (hne' : ls' ≠ []) :
    [d].intercalate ls = [d].intercalate ls' ↔
      ls.flatMap (List.splitOn d) = ls'.flatMap (List.splitOn d) := by
  rw [← splitOn_intercalate_flatMap hne, ← splitOn_intercalate_flatMap hne']
  refine ⟨fun h => by rw [h], fun h => ?_⟩
  calc [d].intercalate ls = [d].intercalate (([d].intercalate ls).splitOn d) :=
        (List.intercalate_splitOn d).symm
    _ = [d].intercalate (([d].intercalate ls').splitOn d) := by rw [h]
    _ = [d].intercalate ls' := List.intercalate_splitOn d

omit [BEq α] [LawfulBEq α] in
theorem intercalate_concat {ls : List (List α)} (hne : ls ≠ []) (l : List α) :
    [d].intercalate (ls ++ [l]) = [d].intercalate ls ++ d :: l := by
  induction ls with
  | nil => exact absurd rfl hne
  | cons l' ls ih =>
    cases ls with
    | nil => simp
    | cons l'' ls =>
      rw [List.cons_append, List.intercalate_cons_of_ne_nil (by simp), ih (List.cons_ne_nil _ _),
        List.intercalate_cons_cons]
      simp only [List.append_assoc]

theorem splitOn_inj {l l' : List α} : l.splitOn d = l'.splitOn d ↔ l = l' := by
  refine ⟨fun h => ?_, fun h => by rw [h]⟩
  calc l = [d].intercalate (l.splitOn d) := (List.intercalate_splitOn d).symm
    _ = [d].intercalate (l'.splitOn d) := by rw [h]
    _ = l' := List.intercalate_splitOn d

end Words

/-- Parts with as many words each. -/
theorem flatMap_eq_iff {f g : α → List β} {l : List α}
    (hlength : ∀ a ∈ l, (f a).length = (g a).length) :
    l.flatMap f = l.flatMap g ↔ ∀ a ∈ l, f a = g a := by
  induction l with
  | nil => simp
  | cons a l ih =>
    obtain ⟨ha, hl⟩ := List.forall_mem_cons.mp hlength
    rw [List.flatMap_cons, List.flatMap_cons, List.forall_mem_cons, ← ih hl]
    refine ⟨fun h => List.append_inj h ha, fun h => ?_⟩
    rw [h.1, h.2]

/-- Where every part has a word, a filter that loses no word keeps every part. -/
theorem forall_of_length_flatMap_filter {f g : α → List β} {p : α → Bool} {l : List α}
    (hpos : ∀ a, 0 < (f a).length) (hlength : ∀ a, (f a).length = (g a).length)
    (h : (l.flatMap f).length = ((l.filter p).flatMap g).length) : ∀ a ∈ l, p a = true := by
  have hle : ∀ l : List α, ((l.filter p).flatMap g).length ≤ (l.flatMap f).length := by
    intro l
    induction l with
    | nil => simp
    | cons a l ih =>
      have := hlength a
      rw [List.filter_cons]
      split <;> simp only [List.flatMap_cons, List.length_append] <;> omega
  induction l with
  | nil => simp
  | cons a l ih =>
    have hrest := hle l
    have hfirst := hpos a
    have hsame := hlength a
    rw [List.filter_cons] at h
    split at h
    · rename_i ha
      simp only [List.flatMap_cons, List.length_append] at h
      exact List.forall_mem_cons.mpr ⟨ha, ih (by omega)⟩
    · simp only [List.flatMap_cons, List.length_append] at h
      omega

end Sem
