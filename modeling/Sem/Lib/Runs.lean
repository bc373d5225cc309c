import Mathlib.Data.List.Induction
import Mathlib.Data.List.Nodup

/-!
# Runs

The runs of a list are the elements with the same key that follow one another. A loop that compares
each element with the last one finds them.

* `runs`: the runs, each with its key; `flatten_runs`, `mem_run`, `mem_keys_runs`.
* `nodup_keys_runs`: no two runs have the same key exactly if the elements of each key are together;
  a run is then all of the elements of its key (`run_eq_filter`).
-/

namespace Sem

universe u v

variable {α : Type u} {κ : Type v}

/-- What is between two elements of a key is of this key. -/
def Together (key : α → κ) (l : List α) : Prop :=
  ∀ a b c, List.Sublist [a, b, c] l → key a = key c → key b = key a

section

variable {key : α → κ} {l l' : List α} {a : α}

theorem Together.of_sublist (h : Together key l') (hl : l.Sublist l') : Together key l :=
  fun a b c hsub => h a b c (hsub.trans hl)

/-- Three elements of a list that ends with `a`. -/
theorem sublist_concat_triple {x y z : α} (h : List.Sublist [x, y, z] (l ++ [a])) :
    List.Sublist [x, y, z] l ∨ z = a ∧ List.Sublist [x, y] l := by
  have hreverse := h.reverse
  rw [List.reverse_append] at hreverse
  cases hreverse with
  | cons _ h => exact .inl (List.reverse_sublist.mp h)
  | cons_cons _ h => exact .inr ⟨rfl, List.reverse_sublist.mp (by simpa using h)⟩

/-- An element of the key of the last one. -/
theorem together_concat_same {b : α} (hk : key b = key a) :
    Together key (l ++ [b] ++ [a]) ↔ Together key (l ++ [b]) := by
  refine ⟨fun h => h.of_sublist (List.sublist_append_left _ _), fun h x y z hsub hxz => ?_⟩
  obtain hsub | ⟨rfl, hpair⟩ := sublist_concat_triple hsub
  · exact h x y z hsub hxz
  · have hreverse := hpair.reverse
    rw [List.reverse_append] at hreverse
    cases hreverse with
    | cons _ hxy =>
      have hxy : List.Sublist [x, y] l := List.reverse_sublist.mp hxy
      exact h x y b (hxy.append (List.Sublist.refl [b])) (hxz.trans hk.symm)
    | cons_cons _ _ => rw [hk, hxz]

/-- An element of another key than that of the last one. -/
theorem together_concat_new {b : α} (hk : key b ≠ key a) :
    Together key (l ++ [b] ++ [a]) ↔
      Together key (l ++ [b]) ∧ ∀ c ∈ l ++ [b], key c ≠ key a := by
  constructor
  · refine fun h => ⟨h.of_sublist (List.sublist_append_left _ _), fun c hc hca => ?_⟩
    obtain hc | hc := List.mem_append.mp hc
    · have hsub : List.Sublist [c, b, a] (l ++ [b] ++ [a]) := by
        rw [List.append_assoc]
        exact (List.singleton_sublist.mpr hc).append (List.Sublist.refl [b, a])
      exact hk ((h c b a hsub hca).trans hca)
    · rw [List.mem_singleton.mp hc] at hca
      exact hk hca
  · rintro ⟨h, hnone⟩ x y z hsub hxz
    obtain hsub | ⟨rfl, hpair⟩ := sublist_concat_triple hsub
    · exact h x y z hsub hxz
    · exact absurd hxz (hnone x (hpair.subset List.mem_cons_self))

end

variable [DecidableEq κ]

/-- Add an element to the last run, or begin one with it. -/
def addToRuns (key : α → κ) (rs : List (κ × List α)) (a : α) : List (κ × List α) :=
  match rs.getLast? with
  | some (k, run) => if k = key a then rs.dropLast ++ [(k, run ++ [a])] else rs ++ [(key a, [a])]
  | none => [(key a, [a])]

/-- The runs of elements with one key, in order. -/
def runs (key : α → κ) (l : List α) : List (κ × List α) := l.foldl (addToRuns key) []

variable {key : α → κ} {l : List α} {a b : α}

theorem addToRuns_same (rs : List (κ × List α)) (run : List α) (a : α) :
    addToRuns key (rs ++ [(key a, run)]) a = rs ++ [(key a, run ++ [a])] := by
  simp [addToRuns]

theorem addToRuns_new {k : κ} (h : k ≠ key a) (rs : List (κ × List α)) (run : List α) :
    addToRuns key (rs ++ [(k, run)]) a = rs ++ [(k, run)] ++ [(key a, [a])] := by
  simp [addToRuns, h]

theorem runs_concat (l : List α) (a : α) : runs key (l ++ [a]) = addToRuns key (runs key l) a := by
  simp [runs]

@[simp]
theorem runs_nil : runs key [] = [] := rfl

/-- The last run ends with the last element. -/
theorem exists_runs_concat (key : α → κ) (l : List α) (a : α) :
    ∃ rs run, runs key (l ++ [a]) = rs ++ [(key a, run ++ [a])] := by
  rw [runs_concat, addToRuns]
  split
  · rename_i k run hlast
    split
    · rename_i hk
      exact ⟨_, run, by rw [hk]⟩
    · exact ⟨_, [], rfl⟩
  · exact ⟨[], [], rfl⟩

theorem flatten_runs (key : α → κ) (l : List α) : (runs key l).flatMap Prod.snd = l := by
  induction l using List.reverseRecOn with
  | nil => rfl
  | append_singleton l a ih =>
    rw [runs_concat]
    obtain rfl | ⟨l, b, rfl⟩ := l.eq_nil_or_concat'
    · rfl
    · obtain ⟨rs, run, hrs⟩ := exists_runs_concat key l b
      rw [hrs] at ih ⊢
      by_cases hk : key b = key a
      · rw [hk, addToRuns_same]
        rw [List.flatMap_append] at ih ⊢
        simp only [List.flatMap_cons, List.flatMap_nil, List.append_nil] at ih ⊢
        rw [← List.append_assoc, ih]
      · rw [addToRuns_new hk, List.flatMap_append, ih]
        rfl

/-- The elements of a run have its key, and there are some. -/
theorem mem_run {k : κ} {run : List α} (h : (k, run) ∈ runs key l) :
    run ≠ [] ∧ ∀ a ∈ run, key a = k := by
  induction l using List.reverseRecOn generalizing k run with
  | nil => cases h
  | append_singleton l a ih =>
    rw [runs_concat, addToRuns] at h
    split at h
    · rename_i k' run' hlast
      split at h
      · rename_i hk
        obtain h | h := List.mem_append.mp h
        · exact ih (List.dropLast_subset _ h)
        · obtain ⟨rfl, rfl⟩ := Prod.mk.inj (List.mem_singleton.mp h)
          refine ⟨by simp, fun b hb => ?_⟩
          obtain hb | hb := List.mem_append.mp hb
          · exact (ih (List.mem_of_getLast? hlast)).2 b hb
          · rw [List.mem_singleton.mp hb, hk]
      · obtain h | h := List.mem_append.mp h
        · exact ih h
        · obtain ⟨rfl, rfl⟩ := Prod.mk.inj (List.mem_singleton.mp h)
          exact ⟨by simp, fun b hb => by rw [List.mem_singleton.mp hb]⟩
    · obtain ⟨rfl, rfl⟩ := Prod.mk.inj (List.mem_singleton.mp h)
      exact ⟨by simp, fun b hb => by rw [List.mem_singleton.mp hb]⟩

theorem mem_keys_runs {k : κ} : k ∈ (runs key l).map Prod.fst ↔ ∃ a ∈ l, key a = k := by
  constructor
  · intro hk
    obtain ⟨⟨k, run⟩, hmem, rfl⟩ := List.mem_map.mp hk
    obtain ⟨hne, hkey⟩ := mem_run hmem
    obtain ⟨a, run, rfl⟩ := List.exists_cons_of_ne_nil hne
    refine ⟨a, ?_, hkey a List.mem_cons_self⟩
    rw [← flatten_runs key l]
    exact List.mem_flatMap.mpr ⟨_, hmem, List.mem_cons_self⟩
  · rintro ⟨a, ha, rfl⟩
    rw [← flatten_runs key l] at ha
    obtain ⟨⟨k, run⟩, hmem, ha⟩ := List.mem_flatMap.mp ha
    exact List.mem_map.mpr ⟨_, hmem, ((mem_run hmem).2 a ha).symm⟩

/-- A key has one run exactly if its elements are together. -/
theorem nodup_keys_runs : ((runs key l).map Prod.fst).Nodup ↔ Together key l := by
  induction l using List.reverseRecOn with
  | nil =>
    refine ⟨fun _ a b c hsub => ?_, fun _ => List.nodup_nil⟩
    cases hsub
  | append_singleton l a ih =>
    obtain rfl | ⟨l, b, rfl⟩ := l.eq_nil_or_concat'
    · refine ⟨fun _ x y z hsub => ?_, fun _ => List.nodup_singleton _⟩
      exact absurd hsub.length_le (by simp)
    · obtain ⟨rs, run, hrs⟩ := exists_runs_concat key l b
      by_cases hk : key b = key a
      · rw [together_concat_same hk, ← ih, runs_concat, hrs, hk, addToRuns_same]
        simp
      · have hmem : key a ∈ (runs key (l ++ [b])).map Prod.fst ↔ ∃ c ∈ l ++ [b], key c = key a :=
          mem_keys_runs
        rw [together_concat_new hk, ← ih, runs_concat]
        rw [hrs] at hmem ⊢
        rw [addToRuns_new hk, List.map_append, List.map_singleton, ← List.concat_eq_append,
          List.nodup_concat, and_comm, hmem]
        simp only [not_exists, not_and, ne_eq]

instance (key : α → κ) (l : List α) : Decidable (Together key l) :=
  decidable_of_iff _ nodup_keys_runs

/-- Among groups with different keys, those of a key are its group. -/
theorem filter_flatMap {rs : List (κ × List α)} (hnodup : (rs.map Prod.fst).Nodup)
    (hkey : ∀ p ∈ rs, ∀ a ∈ p.2, key a = p.1) {k : κ} {run : List α} (h : (k, run) ∈ rs) :
    (rs.flatMap Prod.snd).filter (key · = k) = run := by
  induction rs with
  | nil => cases h
  | cons p rs ih =>
    obtain ⟨hp, hnodup⟩ := List.nodup_cons.mp hnodup
    rw [List.flatMap_cons, List.filter_append]
    obtain rfl | hmem := List.mem_cons.mp h
    · have hself : run.filter (key · = k) = run :=
        List.filter_eq_self.mpr fun a ha => by simpa using hkey _ List.mem_cons_self a ha
      have hrest : (rs.flatMap Prod.snd).filter (key · = k) = [] := by
        refine List.filter_eq_nil_iff.mpr fun a ha hak => hp ?_
        obtain ⟨q, hq, ha⟩ := List.mem_flatMap.mp ha
        have hq' := hkey q (List.mem_cons_of_mem _ hq) a ha
        rw [decide_eq_true_eq] at hak
        exact List.mem_map.mpr ⟨q, hq, hq'.symm.trans hak⟩
      rw [hself, hrest, List.append_nil]
    · have hhead : p.2.filter (key · = k) = [] := by
        refine List.filter_eq_nil_iff.mpr fun a ha hak => hp (List.mem_map.mpr ⟨_, hmem, ?_⟩)
        have hpa := hkey p List.mem_cons_self a ha
        rw [decide_eq_true_eq] at hak
        exact hak.symm.trans hpa
      rw [hhead, List.nil_append]
      exact ih hnodup (fun q hq => hkey q (List.mem_cons_of_mem _ hq)) hmem

/-- A run is all of the elements of its key. -/
theorem run_eq_filter (h : Together key l) {k : κ} {run : List α} (hmem : (k, run) ∈ runs key l) :
    run = l.filter (key · = k) := by
  have hfilter := filter_flatMap (nodup_keys_runs.mpr h) (fun p hp => (mem_run hp).2) hmem
  rw [flatten_runs] at hfilter
  exact hfilter.symm

end Sem
