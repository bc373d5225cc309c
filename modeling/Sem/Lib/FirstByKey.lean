import Mathlib.Data.List.Nodup

/-!
# The first of each key

A list to which an item is added unless one with the same key is there.

* `mem_addAll_iff`: every item is in the list exactly if different items have different keys.
-/

namespace Sem

universe u v

variable {α : Type u} {κ : Type v} [DecidableEq κ]

/-- Add the item at the end, unless its key is there. -/
def addNew (key : α → κ) (l : List α) (a : α) : List α :=
  if key a ∈ l.map key then l else l ++ [a]

/-- Add the items one after another. -/
def addAll (key : α → κ) (l : List α) (received : List α) : List α :=
  received.foldl (addNew key) l

variable {key : α → κ} {l received : List α} {a : α}

theorem addAll_cons (a : α) (received : List α) :
    addAll key l (a :: received) = addAll key (addNew key l a) received := rfl

theorem addAll_append (received received' : List α) :
    addAll key l (received ++ received') = addAll key (addAll key l received) received' :=
  List.foldl_append

theorem mem_keys_addNew (k : κ) :
    k ∈ (addNew key l a).map key ↔ k ∈ l.map key ∨ k = key a := by
  unfold addNew
  by_cases h : key a ∈ l.map key
  · rw [if_pos h]
    refine ⟨.inl, ?_⟩
    rintro (hk | rfl)
    · exact hk
    · exact h
  · simp [h]

theorem nodup_keys_addNew (h : (l.map key).Nodup) : ((addNew key l a).map key).Nodup := by
  unfold addNew
  by_cases hmem : key a ∈ l.map key
  · rwa [if_pos hmem]
  · rw [if_neg hmem, List.map_append]
    exact List.nodup_append.mpr ⟨h, List.nodup_singleton _, fun x hx y hy hxy => by
      rw [List.mem_singleton.mp hy] at hxy
      exact hmem (hxy ▸ hx)⟩

theorem mem_of_mem_addNew {b : α} (h : b ∈ addNew key l a) : b ∈ l ∨ b = a := by
  unfold addNew at h
  by_cases hmem : key a ∈ l.map key
  · rw [if_pos hmem] at h
    exact .inl h
  · rw [if_neg hmem] at h
    simpa using h

/-- The keys in the list are those there were and those of the items. -/
theorem mem_keys_addAll (k : κ) :
    k ∈ (addAll key l received).map key ↔ k ∈ l.map key ∨ k ∈ received.map key := by
  induction received generalizing l with
  | nil => simp [addAll]
  | cons a received ih =>
    rw [addAll_cons, ih, mem_keys_addNew, List.map_cons, List.mem_cons, or_assoc]

theorem nodup_keys_addAll (h : (l.map key).Nodup) : ((addAll key l received).map key).Nodup := by
  induction received generalizing l with
  | nil => exact h
  | cons a received ih => exact ih (nodup_keys_addNew h)

theorem mem_of_mem_addAll {b : α} (h : b ∈ addAll key l received) : b ∈ l ∨ b ∈ received := by
  induction received generalizing l with
  | nil => exact .inl h
  | cons a received ih =>
    rcases ih h with hmem | hmem
    · rcases mem_of_mem_addNew hmem with hmem | rfl
      · exact .inl hmem
      · exact .inr List.mem_cons_self
    · exact .inr (List.mem_cons_of_mem _ hmem)

/-- No key is there twice. -/
theorem nodup_keys (key : α → κ) (received : List α) :
    ((addAll key [] received).map key).Nodup := by
  apply nodup_keys_addAll
  exact List.nodup_nil

theorem nodup_addAll (key : α → κ) (received : List α) : (addAll key [] received).Nodup :=
  (nodup_keys key received).of_map

/-- Every item is there exactly if different items have different keys. -/
theorem mem_addAll_iff :
    (∀ a, a ∈ addAll key [] received ↔ a ∈ received) ↔
      ∀ a ∈ received, ∀ b ∈ received, key a = key b → a = b := by
  constructor
  · intro h a ha b hb hkey
    exact List.inj_on_of_nodup_map (nodup_keys key received) ((h a).mpr ha)
      ((h b).mpr hb) hkey
  · intro h a
    refine ⟨fun ha => (mem_of_mem_addAll ha).resolve_left List.not_mem_nil, fun ha => ?_⟩
    have hkey : key a ∈ (addAll key [] received).map key :=
      (mem_keys_addAll _).mpr (.inr (List.mem_map_of_mem ha))
    obtain ⟨b, hb, hba⟩ := List.mem_map.mp hkey
    have hb' := (mem_of_mem_addAll hb).resolve_left List.not_mem_nil
    rw [h a ha b hb' hba.symm]
    exact hb

end Sem
