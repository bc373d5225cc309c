import Mathlib.Data.Finset.Card
import Mathlib.Data.Finset.Dedup
import Mathlib.Data.Finset.Filter
import Mathlib.Data.List.Basic

/-!
# Files with include guards

A file is inside a guard. It includes other files, and has parts, each of which may be inside a guard
of its own. A C preprocessor leaves out what is inside a guard that is defined.

* `expand_of_le`: files that are nested deeper than there are guards are not included again.
* `expand_eq_run`: the expansion of a file is a run over all that is read for it.
* `filter_run`: of all that is read inside one guard, the first is left.
-/

namespace Sem

universe u v w

/-- A file. -/
structure GuardedFile (F : Type u) (M : Type v) (T : Type w) where
  guard : M
  includes : List F
  parts : List T

namespace GuardedFile

variable {F : Type u} {M : Type v} {T : Type w} [DecidableEq M]

/-- The text so far, and the guards that are defined. -/
abbrev State (M : Type v) (T : Type w) := List T × List M

section Expansion

variable (under : T → Option M) (files : F → GuardedFile F M T)

/-- A part is left out if the guard that it is inside of is defined. -/
def emit (s : State M T) (t : T) : State M T :=
  match under t with
  | none => (s.1 ++ [t], s.2)
  | some m => if m ∈ s.2 then s else (s.1 ++ [t], m :: s.2)

/-- What a preprocessor makes of a file, to a depth of includes. -/
def expand : ℕ → State M T → F → State M T
  | 0, s, _ => s
  | n + 1, s, f =>
    if (files f).guard ∈ s.2 then s
    else (files f).parts.foldl (emit under)
      ((files f).includes.foldl (expand n) (s.1, (files f).guard :: s.2))

/-- Something that is read: the guard of a file, or a part. -/
inductive Entry (M : Type v) (T : Type w)
  | file (m : M)
  | part (t : T)

/-- The guard that an entry defines. -/
def Entry.guard : Entry M T → Option M
  | file m => some m
  | part t => under t

/-- An entry is done. -/
def Entry.run (s : State M T) : Entry M T → State M T
  | file m => (s.1, m :: s.2)
  | part t => emit under s t

/-- All entries are done. -/
def run (r : List (Entry M T)) : State M T := r.foldl (Entry.run under) ([], [])

/-- All that is read for a file, to a depth of includes, after what was read before. -/
def reading : ℕ → List (Entry M T) → F → List (Entry M T)
  | 0, r, _ => r
  | n + 1, r, f =>
    if ∃ e ∈ r, e.guard under = some (files f).guard then r
    else (files f).includes.foldl (reading n) (r ++ [.file (files f).guard]) ++
      (files f).parts.map .part

end Expansion

variable {under : T → Option M} {files : F → GuardedFile F M T}

/-! ## Depth -/

theorem mem_emit {s : State M T} {t : T} {m : M} (h : m ∈ s.2) : m ∈ (emit under s t).2 := by
  unfold emit
  split
  · exact h
  · split
    · exact h
    · exact List.mem_cons_of_mem _ h

/-- Guards stay defined. -/
theorem mem_expand {n : ℕ} {s : State M T} {f : F} {m : M} (h : m ∈ s.2) :
    m ∈ (expand under files n s f).2 := by
  induction n generalizing s f with
  | zero => exact h
  | succ n ih =>
    unfold expand
    split
    · exact h
    · refine List.foldlRecOn (motive := fun s : State M T => m ∈ s.2) _ _ ?_ fun s hs t _ => mem_emit hs
      exact List.foldlRecOn (motive := fun s : State M T => m ∈ s.2) _ _ (List.mem_cons_of_mem _ h)
        fun s hs f _ => ih hs

/-- The guards of files that are not defined. -/
def undefinedGuards (files : F → GuardedFile F M T) (all : List F) (ms : List M) : Finset M :=
  (all.map fun f => (files f).guard).toFinset.filter (· ∉ ms)

theorem card_undefinedGuards_le {all : List F} (ms : List M) :
    (undefinedGuards files all ms).card ≤ all.length :=
  calc (undefinedGuards files all ms).card
      ≤ (all.map fun f => (files f).guard).toFinset.card := Finset.card_filter_le _ _
    _ ≤ (all.map fun f => (files f).guard).length := List.toFinset_card_le _
    _ = all.length := List.length_map _

theorem undefinedGuards_mono {all : List F} {ms ms' : List M} (h : ∀ m ∈ ms, m ∈ ms') :
    undefinedGuards files all ms' ⊆ undefinedGuards files all ms :=
  Finset.monotone_filter_right _ fun m _ hm hms => hm (h m hms)

theorem card_undefinedGuards_cons {all : List F} {ms : List M} {f : F} (hf : f ∈ all)
    (h : (files f).guard ∉ ms) :
    (undefinedGuards files all ((files f).guard :: ms)).card <
      (undefinedGuards files all ms).card := by
  refine Finset.card_lt_card ⟨undefinedGuards_mono fun m hm => List.mem_cons_of_mem _ hm,
    fun hsubset => ?_⟩
  have hmem : (files f).guard ∈ undefinedGuards files all ms :=
    Finset.mem_filter.mpr ⟨List.mem_toFinset.mpr (List.mem_map_of_mem hf), h⟩
  exact (Finset.mem_filter.mp (hsubset hmem)).2 List.mem_cons_self

/-- A file whose guard is defined is left out. -/
theorem expand_of_mem {n : ℕ} {s : State M T} {f : F} (h : (files f).guard ∈ s.2) :
    expand under files n s f = s := by
  cases n with
  | zero => rfl
  | succ n => exact if_pos h

/-- The depth does not matter, if it is no less than the number of undefined guards. -/
theorem expand_of_le {all : List F} (hall : ∀ f ∈ all, ∀ g ∈ (files f).includes, g ∈ all)
    {n k : ℕ} {s : State M T} {f : F} (hf : f ∈ all)
    (hn : (undefinedGuards files all s.2).card ≤ n) (hk : (undefinedGuards files all s.2).card ≤ k) :
    expand under files n s f = expand under files k s f := by
  induction n generalizing k s f with
  | zero =>
    by_cases hguard : (files f).guard ∈ s.2
    · rw [expand_of_mem hguard, expand_of_mem hguard]
    · have hless := card_undefinedGuards_cons hf hguard
      omega
  | succ n ih =>
    by_cases hguard : (files f).guard ∈ s.2
    · rw [expand_of_mem hguard, expand_of_mem hguard]
    · have hless := card_undefinedGuards_cons hf hguard
      obtain ⟨k, rfl⟩ : ∃ l, k = l + 1 := ⟨k - 1, by omega⟩
      -- Nested files are read with one guard less.
      have hincludes : ∀ (fs : List F) (s : State M T), (∀ g ∈ fs, g ∈ all) →
          (undefinedGuards files all s.2).card ≤ n → (undefinedGuards files all s.2).card ≤ k →
            fs.foldl (expand under files n) s = fs.foldl (expand under files k) s := by
        intro fs
        induction fs with
        | nil => intros; rfl
        | cons g fs ihfs =>
          intro s hfs hsn hsk
          have hsubset : undefinedGuards files all (expand under files k s g).2 ⊆
              undefinedGuards files all s.2 := undefinedGuards_mono fun m hm => mem_expand hm
          have hmono := Finset.card_le_card hsubset
          rw [List.foldl_cons, List.foldl_cons, ih (hfs g List.mem_cons_self) hsn hsk]
          exact ihfs _ (fun h hh => hfs h (List.mem_cons_of_mem _ hh)) (by omega) (by omega)
      simp only [expand, if_neg hguard]
      rw [hincludes _ _ (hall f hf) (by simp only; omega) (by simp only; omega)]

/-! ## What is read -/

@[simp] theorem run_append (r r' : List (Entry M T)) :
    run under (r ++ r') = r'.foldl (Entry.run under) (run under r) := List.foldl_append ..

theorem run_snoc (r : List (Entry M T)) (e : Entry M T) :
    run under (r ++ [e]) = e.run under (run under r) := by
  rw [run_append]
  rfl

/-- The guards that are defined are those of what was read. -/
theorem mem_run {r : List (Entry M T)} {m : M} :
    m ∈ (run under r).2 ↔ ∃ e ∈ r, e.guard under = some m := by
  induction r using List.reverseRecOn with
  | nil => simp [run]
  | append_singleton r e ih =>
    have hstep : ∀ s : State M T, m ∈ (e.run under s).2 ↔ m ∈ s.2 ∨ e.guard under = some m := by
      intro s
      cases e with
      | file k => simp [Entry.run, Entry.guard, or_comm, eq_comm]
      | part t =>
        simp only [Entry.run, emit, Entry.guard]
        cases under t with
        | none => simp
        | some k =>
          by_cases hk : k ∈ s.2
          · simp only [if_pos hk, Option.some.injEq]
            exact ⟨Or.inl, fun h => h.elim id fun h => h ▸ hk⟩
          · simp [hk, or_comm, eq_comm]
    rw [run_snoc, hstep, ih]
    simp [or_and_right, exists_or]

/-- What is kept by the guard of a file and by its parts is kept by a file. -/
theorem reading_induction {motive : List (Entry M T) → Prop}
    (hfile : ∀ r f, motive r → motive (r ++ [.file (files f).guard]))
    (hparts : ∀ r f, motive r → motive (r ++ (files f).parts.map .part)) {n : ℕ}
    {r : List (Entry M T)} {f : F} (h : motive r) : motive (reading under files n r f) := by
  induction n generalizing r f with
  | zero => exact h
  | succ n ih =>
    unfold reading
    split
    · exact h
    · exact hparts _ f (List.foldlRecOn _ _ (hfile r f h) fun r hr g _ => ih hr)

/-- A preprocessor does what was read. -/
theorem expand_eq_run (n : ℕ) (r : List (Entry M T)) (f : F) :
    expand under files n (run under r) f = run under (reading under files n r f) := by
  induction n generalizing r f with
  | zero => rfl
  | succ n ih =>
    by_cases hguard : (files f).guard ∈ (run under r).2
    · rw [expand, reading, if_pos hguard, if_pos (mem_run.mp hguard)]
    · have hincludes : ∀ (fs : List F) (r : List (Entry M T)),
          fs.foldl (expand under files n) (run under r) =
            run under (fs.foldl (reading under files n) r) := by
        intro fs
        induction fs with
        | nil => intro r; rfl
        | cons g fs ihfs => intro r; rw [List.foldl_cons, List.foldl_cons, ih, ihfs]
      have hstart : ((run under r).1, (files f).guard :: (run under r).2) =
          run under (r ++ [.file (files f).guard]) := by
        rw [run_snoc]
        rfl
      rw [expand, reading, if_neg hguard, if_neg (mt mem_run.mpr hguard), hstart, hincludes,
        run_append, List.foldl_map]
      rfl

theorem filter_emit (s : State M T) (t : T) (m : M) :
    (emit under s t).1.filter (fun t => under t = some m) =
      s.1.filter (fun t => under t = some m) ++ if under t = some m ∧ m ∉ s.2 then [t] else [] := by
  unfold emit
  cases hunder : under t with
  | none => simp [List.filter_append, hunder]
  | some k =>
    by_cases hk : k ∈ s.2
    · have hnot : ¬ (k = m ∧ m ∉ s.2) := fun h => h.2 (h.1 ▸ hk)
      simp [hk, hnot]
    · by_cases hkm : k = m
      · subst hkm
        simp [hk, List.filter_append, hunder]
      · simp [hk, hkm, List.filter_append, hunder]

/-- Of what is inside a guard, the first that is read is left. -/
theorem filter_run (r : List (Entry M T)) (m : M) :
    (run under r).1.filter (fun t => under t = some m) =
      match r.find? fun e => e.guard under = some m with
      | some (.part t) => [t]
      | _ => [] := by
  induction r using List.reverseRecOn with
  | nil => rfl
  | append_singleton r e ih =>
    rw [run_snoc, List.find?_append]
    cases hfind : r.find? fun e => e.guard under = some m with
    | some e' =>
      have hmem : m ∈ (run under r).2 :=
        mem_run.mpr ⟨e', List.mem_of_find?_eq_some hfind, by simpa using List.find?_some hfind⟩
      rw [hfind] at ih
      rw [Option.some_or, ← ih]
      cases e with
      | file k => rfl
      | part t =>
        rw [Entry.run, filter_emit, if_neg fun h => h.2 hmem, List.append_nil]
    | none =>
      have hmem : m ∉ (run under r).2 := fun h => by
        obtain ⟨e', he', hguard⟩ := mem_run.mp h
        exact absurd hguard (by simpa using List.find?_eq_none.mp hfind e' he')
      rw [hfind] at ih
      rw [Option.none_or, List.find?_singleton]
      cases e with
      | file k =>
        have hnil : ((Entry.file k).run under (run under r)).1.filter (fun t => under t = some m) =
            [] := ih
        rw [hnil]
        by_cases hk : k = m <;> simp [Entry.guard, hk]
      | part t =>
        rw [Entry.run, filter_emit, ih, List.nil_append]
        by_cases hunder : under t = some m <;> simp [Entry.guard, hunder, hmem]

/-- What is inside no guard is left. -/
theorem mem_run_of_part {r : List (Entry M T)} {t : T} (h : .part t ∈ r) (hunder : under t = none) :
    t ∈ (run under r).1 := by
  obtain ⟨r₁, r₂, rfl⟩ := List.append_of_mem h
  have hkeep : ∀ (e : Entry M T) (s : State M T), t ∈ s.1 → t ∈ (e.run under s).1 := by
    intro e s hs
    cases e with
    | file k => exact hs
    | part u =>
      simp only [Entry.run, emit]
      split
      · exact List.mem_append_left _ hs
      · split
        · exact hs
        · exact List.mem_append_left _ hs
  rw [run_append, List.foldl_cons]
  refine List.foldlRecOn (motive := fun s : State M T => t ∈ s.1) _ _ ?_ fun s hs e _ =>
    hkeep e s hs
  simp [Entry.run, emit, hunder]

/-- What is left was read, and before it what is before it. -/
theorem exists_of_run_eq {r : List (Entry M T)} {pre post : List T} {t : T}
    (h : (run under r).1 = pre ++ t :: post) :
    ∃ r₁ r₂, r = r₁ ++ .part t :: r₂ ∧ (run under r₁).1 = pre := by
  induction r using List.reverseRecOn generalizing post with
  | nil => simp [run] at h
  | append_singleton r e ih =>
    have hkept : ∀ post, (run under r).1 = pre ++ t :: post →
        ∃ r₁ r₂, r ++ [e] = r₁ ++ .part t :: r₂ ∧ (run under r₁).1 = pre := by
      intro post h
      obtain ⟨r₁, r₂, rfl, hpre⟩ := ih h
      exact ⟨r₁, r₂ ++ [e], by simp, hpre⟩
    rw [run_snoc] at h
    cases e with
    | file k => exact hkept post h
    | part u =>
      have hemit : (emit under (run under r) u).1 = (run under r).1 ∨
          (emit under (run under r) u).1 = (run under r).1 ++ [u] := by
        unfold emit
        split
        · exact Or.inr rfl
        · split
          · exact Or.inl rfl
          · exact Or.inr rfl
      rcases hemit with hemit | hemit
      · exact hkept post (hemit ▸ h)
      · have hsnoc : (run under r).1 ++ [u] = pre ++ t :: post := hemit ▸ h
        rcases List.eq_nil_or_concat post with rfl | ⟨post, v, rfl⟩
        · obtain ⟨hpre, hu⟩ := List.append_inj' hsnoc rfl
          obtain rfl : u = t := List.head_eq_of_cons_eq hu
          exact ⟨r, [], rfl, hpre⟩
        · rw [List.concat_eq_append, ← List.cons_append, ← List.append_assoc] at hsnoc
          exact hkept post (List.append_inj' hsnoc rfl).1

end GuardedFile

end Sem
