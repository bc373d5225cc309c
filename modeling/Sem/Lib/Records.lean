import Mathlib.Data.List.Infix
import Mathlib.Order.Bounds.Basic

/-!
# Bounds and records of keyed values

The elements of a list have a key and a value. The records of a key are the values that are the
least one so far when the list is read from its start.

* `RangeOf.insert`: the least and the greatest value, kept up to date.
* `record_concat`: an element adds at most one record, that of its key.
* `record_iff_isLeast_iff`: a key has one record, its least value, exactly if its first element has
  this value.
-/

namespace Sem.Lib

universe u v w

variable {α : Type u} {κ : Type v} {τ : Type w} {key : α → κ} {value : α → τ} {l l' : List α}
  {k : κ} {v : τ}

/-- The values of the elements with this key. -/
def valuesAt (key : α → κ) (value : α → τ) (l : List α) (k : κ) : Set τ :=
  {v | ∃ a ∈ l, key a = k ∧ value a = v}

theorem mem_valuesAt : v ∈ valuesAt key value l k ↔ ∃ a ∈ l, key a = k ∧ value a = v := Iff.rfl

theorem valuesAt_mono (h : ∀ a ∈ l, a ∈ l') : valuesAt key value l k ⊆ valuesAt key value l' k := by
  rintro v ⟨a, ha, hkey, hvalue⟩
  exact ⟨a, h a ha, hkey, hvalue⟩

theorem valuesAt_concat_self (a : α) : valuesAt key value (l ++ [a]) (key a) =
    insert (value a) (valuesAt key value l (key a)) := by
  ext v
  simp only [mem_valuesAt, List.mem_append, List.mem_singleton, Set.mem_insert_iff]
  grind

theorem valuesAt_concat_ne {a : α} (h : key a ≠ k) :
    valuesAt key value (l ++ [a]) k = valuesAt key value l k := by
  ext v
  simp only [mem_valuesAt, List.mem_append, List.mem_singleton]
  grind

variable [LinearOrder τ]

/-- The least and the greatest element, or none if there is no element. -/
def RangeOf (values : Set τ) : Option (τ × τ) → Prop
  | none => values = ∅
  | some (first, last) => IsLeast values first ∧ IsGreatest values last

theorem RangeOf.insert {values : Set τ} {range : Option (τ × τ)} (h : RangeOf values range)
    (v : τ) : RangeOf (insert v values)
      (some (range.elim v fun r => min v r.1, range.elim v fun r => max v r.2)) := by
  rcases range with _ | ⟨first, last⟩
  · have hnone : values = ∅ := h
    rw [hnone, insert_empty_eq]
    exact ⟨isLeast_singleton, isGreatest_singleton⟩
  · exact ⟨h.1.insert v, h.2.insert v⟩

/-- The value is the least one of the key so far, somewhere in the list. -/
def Record (key : α → κ) (value : α → τ) (l : List α) (k : κ) (v : τ) : Prop :=
  ∃ before, before <+: l ∧ IsLeast (valuesAt key value before k) v

theorem not_record_nil : ¬ Record key value [] k v := by
  rintro ⟨before, hbefore, ⟨a, ha, -⟩, -⟩
  rw [List.prefix_nil.mp hbefore] at ha
  cases ha

theorem record_concat {a : α} : Record key value (l ++ [a]) k v ↔
    Record key value l k v ∨ IsLeast (valuesAt key value (l ++ [a]) k) v := by
  constructor
  · rintro ⟨before, hbefore, hleast⟩
    rcases List.prefix_concat_iff.mp hbefore with rfl | hbefore
    · exact .inr hleast
    · exact .inl ⟨before, hbefore, hleast⟩
  · rintro (⟨before, hbefore, hleast⟩ | hleast)
    · exact ⟨before, hbefore.trans (List.prefix_append l [a]), hleast⟩
    · exact ⟨_, List.prefix_rfl, hleast⟩

/-- An element with another key adds no record. -/
theorem record_concat_ne {a : α} (h : key a ≠ k) :
    Record key value (l ++ [a]) k v ↔ Record key value l k v := by
  rw [record_concat, valuesAt_concat_ne h, or_iff_left_iff_imp]
  exact fun hleast => ⟨l, List.prefix_rfl, hleast⟩

section First

variable [DecidableEq κ]

/-- The first element of a key gives a record. -/
theorem record_of_find? {a : α} (h : l.find? (fun a => key a = k) = some a) :
    Record key value l k (value a) := by
  obtain ⟨hkey, before, after, rfl, hbefore⟩ := List.find?_eq_some_iff_append.mp h
  have hkey : key a = k := by simpa using hkey
  refine ⟨before ++ [a], ⟨after, by simp⟩, ⟨a, by simp, hkey, rfl⟩, ?_⟩
  rintro v ⟨b, hb, hbkey, rfl⟩
  rcases List.mem_append.mp hb with hb | hb
  · have := hbefore b hb
    simp [hbkey] at this
  · rw [List.mem_singleton.mp hb]

/-- Every record of a key is at most the value of its first element. -/
theorem exists_find?_of_record (h : Record key value l k v) :
    ∃ a, l.find? (fun a => key a = k) = some a ∧ v ≤ value a := by
  obtain ⟨before, ⟨after, rfl⟩, ⟨b, hb, hbkey, -⟩, hlower⟩ := h
  cases hfind : before.find? fun a => key a = k with
  | none =>
    have := List.find?_eq_none.mp hfind b hb
    simp [hbkey] at this
  | some a =>
    refine ⟨a, by rw [List.find?_append, hfind, Option.some_or], ?_⟩
    exact hlower ⟨a, List.mem_of_find?_eq_some hfind, by simpa using List.find?_some hfind, rfl⟩

/-- **A key has one record**, the least of some values that it has among others, exactly if its
first element has the least of them. -/
theorem record_iff_isLeast_iff {values : Set τ} (hsub : valuesAt key value l k ⊆ values)
    (hseen : ∃ a ∈ l, key a = k) :
    (∀ v, Record key value l k v ↔ IsLeast values v) ↔
      ∃ a, l.find? (fun a => key a = k) = some a ∧ value a ∈ lowerBounds values := by
  constructor
  · intro h
    cases hfind : l.find? fun a => key a = k with
    | none =>
      obtain ⟨a, ha, hkey⟩ := hseen
      have := List.find?_eq_none.mp hfind a ha
      simp [hkey] at this
    | some a => exact ⟨a, rfl, ((h (value a)).mp (record_of_find? hfind)).2⟩
  · rintro ⟨a, hfind, hlower⟩ v
    have hmem : value a ∈ values := hsub ⟨a, List.mem_of_find?_eq_some hfind,
      by simpa using List.find?_some hfind, rfl⟩
    constructor
    · intro hrecord
      obtain ⟨b, hb, hle⟩ := exists_find?_of_record hrecord
      obtain rfl := Option.some.inj (hfind.symm.trans hb)
      obtain ⟨before, hbefore, hleast⟩ := hrecord
      have hv := hsub (valuesAt_mono (fun c hc => hbefore.subset hc) hleast.1)
      rw [le_antisymm hle (hlower hv)]
      exact ⟨hmem, hlower⟩
    · intro hleast
      rw [hleast.unique ⟨hmem, hlower⟩]
      exact record_of_find? hfind

end First

end Sem.Lib
