import Mathlib.Data.Finset.Card
import Mathlib.Logic.Relation
import Mathlib.Tactic.Tauto

/-!
# Searching a graph backwards

A search follows the edges of a graph backwards from a node and finds where they begin. Some nodes are
not passed: the edges that they end are visited, but what is found there does not count. The path is
carried along, and a node that is met on it again is an error.

* `foldlM_cons_ok`, `foldlM_ok`, `exists_of_foldlM_ok`, `foldlM_ne_error`: loops that can throw.
* `BackwardSearch.run_of_acyclic`: without a cycle, the search finds the terminal nodes.
* `BackwardSearch.run_of_cycle`: with a cycle, it is an error.
-/

namespace Sem

universe u v

/-! ## Loops that can throw -/

section Fold

variable {α β ε : Type*} {f : β → α → Except ε β} {l : List α} {b b' : β}

theorem foldlM_cons_ok {a : α} (h : (a :: l).foldlM f b = .ok b') :
    ∃ c, f b a = .ok c ∧ l.foldlM f c = .ok b' := by
  rw [List.foldlM_cons] at h
  cases hf : f b a with
  | error e =>
    rw [hf] at h
    cases h
  | ok c =>
    rw [hf] at h
    exact ⟨c, rfl, h⟩

/-- What every step keeps. -/
theorem foldlM_ok (P : β → Prop) (h : l.foldlM f b = .ok b') (hb : P b)
    (hstep : ∀ a ∈ l, ∀ b b', P b → f b a = .ok b' → P b') : P b' := by
  induction l generalizing b with
  | nil =>
    obtain rfl := Except.ok.inj h
    exact hb
  | cons a l ih =>
    obtain ⟨c, hc, hrest⟩ := foldlM_cons_ok h
    exact ih hrest (hstep a (by simp) b c hb hc) fun d hd => hstep d (List.mem_cons_of_mem _ hd)

/-- Every element was met without an exception. -/
theorem exists_of_foldlM_ok (h : l.foldlM f b = .ok b') : ∀ a ∈ l, ∃ c c', f c a = .ok c' := by
  induction l generalizing b with
  | nil => exact fun _ ha => nomatch ha
  | cons a l ih =>
    obtain ⟨c, hc, hrest⟩ := foldlM_cons_ok h
    exact List.forall_mem_cons.mpr ⟨⟨b, c, hc⟩, ih hrest⟩

theorem foldlM_ne_error {e : ε} (h : ∀ a ∈ l, ∀ b, f b a ≠ .error e) : l.foldlM f b ≠ .error e := by
  induction l generalizing b with
  | nil => exact nofun
  | cons a l ih =>
    rw [List.foldlM_cons]
    cases hf : f b a with
    | error e' =>
      rintro heq
      obtain rfl : e' = e := Except.error.inj heq
      exact h a (by simp) b hf
    | ok c => exact ih fun d hd => h d (List.mem_cons_of_mem _ hd)

/-- An error is an error of a pass. -/
theorem exists_of_foldlM_error {e : ε} (h : l.foldlM f b = .error e) :
    ∃ a ∈ l, ∃ c, f c a = .error e := by
  by_contra hnone
  push Not at hnone
  exact foldlM_ne_error hnone h

end Fold

/-! ## The search -/

/-- The edges that end at a node, the nodes that are passed, and the errors of a search. -/
structure BackwardSearch (α : Type u) (ε : Type v) where
  sources : α → List α
  passes : α → Bool
  insert : α → List α → List α
  mem_insert : ∀ {a b l}, a ∈ insert b l ↔ a = b ∨ a ∈ l
  cyclic : ε
  spent : ε

namespace BackwardSearch

variable {α : Type u} {ε : Type v} (S : BackwardSearch α ε)

/-- What the edge from a node adds to what was found, if so much is behind it. -/
def add (found : List α) (source : α) (deeper : List α) : List α :=
  if S.passes source ∧ deeper ≠ [] then deeper.foldl (fun found a => S.insert a found) found
  else S.insert source found

/-- The search with a bound on its depth: `visited` are the places on the way to this one. -/
def run [DecidableEq α] : ℕ → List α → α → Except ε (List α)
  | 0, _, _ => .error S.spent
  | n + 1, visited, a =>
    if a ∈ visited then .error S.cyclic
    else (S.sources a).foldlM (fun found source => do
      let deeper ← run n (a :: visited) source
      pure (S.add found source deeper)) []

/-- The second node is where an edge to the first begins. -/
def Back (a s : α) : Prop := s ∈ S.sources a

/-- There is a cycle on a way back from a node. -/
def CycleBehind (a : α) : Prop :=
  ∃ b, Relation.ReflTransGen S.Back a b ∧ Relation.TransGen S.Back b b

/-- The edges lead from the second node to the first, through nodes that are passed. -/
def Leads (a t : α) : Prop :=
  ∃ s ∈ S.sources a, Relation.ReflTransGen (fun x y => S.passes x = true ∧ S.Back x y) s t

/-- No edges lead to the node, or it is not passed. -/
def Terminal (t : α) : Prop := S.sources t = [] ∨ S.passes t = false

variable {S} {n : ℕ} {visited found deeper : List α} {a b s t : α}

theorem mem_foldl_insert {l : List α} :
    t ∈ l.foldl (fun found a => S.insert a found) found ↔ t ∈ l ∨ t ∈ found := by
  induction l generalizing found with
  | nil => simp
  | cons a l ih =>
    rw [List.foldl_cons, ih, S.mem_insert, List.mem_cons]
    tauto

theorem mem_add : t ∈ S.add found s deeper ↔
    ((S.passes s = true ∧ deeper ≠ [] ∧ t ∈ deeper) ∨ ((S.passes s = false ∨ deeper = []) ∧ t = s)) ∨
      t ∈ found := by
  rw [add]
  split
  · next h =>
    rw [mem_foldl_insert]
    simp [h.1, h.2]
  · next h =>
    rw [S.mem_insert]
    by_cases hdeeper : deeper = []
    · simp [hdeeper]
    · have hpasses : S.passes s = false := by simpa [hdeeper] using h
      simp [hpasses]

theorem add_ne_nil : S.add found s deeper ≠ [] := by
  by_cases h : S.passes s = true ∧ deeper ≠ []
  · obtain ⟨t, ht⟩ := List.exists_mem_of_ne_nil deeper h.2
    exact List.ne_nil_of_mem (mem_add.mpr (.inl (.inl ⟨h.1, h.2, ht⟩)))
  · have hor : S.passes s = false ∨ deeper = [] := by
      by_cases hdeeper : deeper = []
      · exact .inr hdeeper
      · exact .inl (by simpa [hdeeper] using h)
    exact List.ne_nil_of_mem (mem_add.mpr (.inl (.inr ⟨hor, rfl⟩)))

/-- A loop all of whose calls return. -/
theorem foldlM_add {f : α → Except ε (List α)} {g : α → List α} {l : List α}
    (h : ∀ s ∈ l, f s = .ok (g s)) :
    l.foldlM (fun found source => do
      let deeper ← f source
      pure (S.add found source deeper)) found =
        .ok (l.foldl (fun found source => S.add found source (g source)) found) := by
  induction l generalizing found with
  | nil => rfl
  | cons s l ih =>
    rw [List.foldlM_cons, h s List.mem_cons_self]
    exact ih fun t ht => h t (List.mem_cons_of_mem s ht)

theorem mem_foldl_add {g : α → List α} {l : List α} :
    t ∈ l.foldl (fun found source => S.add found source (g source)) found ↔
      (∃ s ∈ l, (S.passes s = true ∧ g s ≠ [] ∧ t ∈ g s) ∨
        ((S.passes s = false ∨ g s = []) ∧ t = s)) ∨ t ∈ found := by
  induction l generalizing found with
  | nil => simp
  | cons s l ih =>
    rw [List.foldl_cons, ih, mem_add, List.exists_mem_cons_iff, ← or_assoc]
    exact or_congr_left or_comm

/-- A search leads through its first edge. -/
theorem leads_iff : S.Leads a t ↔
    ∃ s ∈ S.sources a, t = s ∨ (S.passes s = true ∧ S.Leads s t) := by
  constructor
  · rintro ⟨s, hs, hrest⟩
    refine ⟨s, hs, ?_⟩
    rcases Relation.ReflTransGen.cases_head hrest with rfl | ⟨r, ⟨hpasses, hr⟩, hlast⟩
    · exact .inl rfl
    · exact .inr ⟨hpasses, r, hr, hlast⟩
  · rintro ⟨s, hs, rfl | ⟨hpasses, r, hr, hrest⟩⟩
    · exact ⟨t, hs, .refl⟩
    · exact ⟨s, hs, hrest.head ⟨hpasses, hr⟩⟩

/-- The start is no terminal node of itself. -/
theorem not_leads_self (hcycle : ¬ S.CycleBehind a) : ¬ S.Leads a a := by
  rintro ⟨s, hs, hrest⟩
  have hback : Relation.ReflTransGen S.Back s a :=
    Relation.ReflTransGen.mono (fun _ _ h => h.2) _ _ hrest
  exact hcycle ⟨a, .refl, .head' hs hback⟩

variable [DecidableEq α]

/-- So many nodes are still not on the path. -/
theorem card_sdiff_lt {nodes : Finset α} (ha : a ∈ nodes) (hnot : a ∉ visited) :
    (nodes \ (a :: visited).toFinset).card < (nodes \ visited.toFinset).card := by
  refine Finset.card_lt_card ⟨?_, fun hsub => ?_⟩
  · exact Finset.sdiff_subset_sdiff (Finset.Subset.refl _) (by simp)
  · have hmem := hsub (Finset.mem_sdiff.mpr ⟨ha, by simpa using hnot⟩)
    simp at hmem

/-- **Without a cycle, the search finds the terminal nodes**, and none exactly if no edge leads to the
node. -/
theorem run_of_acyclic {nodes : Finset α} (hnodes : ∀ a, ∀ s ∈ S.sources a, s ∈ nodes)
    (ha : a ∈ nodes) (hfuel : (nodes \ visited.toFinset).card < n) (hcycle : ¬ S.CycleBehind a)
    (hvisited : ∀ v ∈ visited, ¬ Relation.ReflTransGen S.Back a v) :
    ∃ l, S.run n visited a = .ok l ∧ (l = [] ↔ S.sources a = []) ∧
      ∀ t, t ∈ l ↔ S.Leads a t ∧ S.Terminal t := by
  induction n generalizing visited a with
  | zero => exact absurd hfuel (Nat.not_lt_zero _)
  | succ n ih =>
    have hnot : a ∉ visited := fun hmem => hvisited a hmem .refl
    have hcall : ∀ s, ∃ l, s ∈ S.sources a → S.run n (a :: visited) s = .ok l ∧
        (l = [] ↔ S.sources s = []) ∧ ∀ t, t ∈ l ↔ S.Leads s t ∧ S.Terminal t := by
      intro s
      by_cases hs : s ∈ S.sources a
      · obtain ⟨l, hl⟩ := ih (hnodes a s hs)
          (lt_of_lt_of_le (card_sdiff_lt ha hnot) (Nat.lt_succ_iff.mp hfuel))
          (fun ⟨b, hb, hloop⟩ => hcycle ⟨b, hb.head hs, hloop⟩) fun v hv hback => by
            rcases List.mem_cons.mp hv with rfl | hv
            · exact hcycle ⟨v, .refl, .head' hs hback⟩
            · exact hvisited v hv (hback.head hs)
        exact ⟨l, fun _ => hl⟩
      · exact ⟨[], fun h => absurd h hs⟩
    choose g hg using hcall
    refine ⟨(S.sources a).foldl (fun found s => S.add found s (g s)) [], ?_, ?_, fun t => ?_⟩
    · rw [run, if_neg hnot]
      exact foldlM_add fun s hs => (hg s hs).1
    · cases hsources : S.sources a with
      | nil => simp
      | cons s l =>
        obtain ⟨t, ht⟩ := List.exists_mem_of_ne_nil _ (add_ne_nil : S.add [] s (g s) ≠ [])
        refine iff_of_false (List.ne_nil_of_mem (mem_foldl_add.mpr (.inr ht) : t ∈ _)) (by simp)
    · rw [mem_foldl_add, leads_iff]
      constructor
      · rintro (⟨s, hs, ⟨hpasses, -, ht⟩ | ⟨hor, rfl⟩⟩ | hnil)
        · obtain ⟨hleads, hterminal⟩ := ((hg s hs).2.2 t).mp ht
          exact ⟨⟨s, hs, .inr ⟨hpasses, hleads⟩⟩, hterminal⟩
        · exact ⟨⟨t, hs, .inl rfl⟩, hor.elim .inr fun hnil => .inl ((hg t hs).2.1.mp hnil)⟩
        · cases hnil
      · rintro ⟨⟨s, hs, rfl | ⟨hpasses, hleads⟩⟩, hterminal⟩
        · refine .inl ⟨t, hs, .inr ⟨?_, rfl⟩⟩
          exact hterminal.elim (fun hnil => .inr ((hg t hs).2.1.mpr hnil)) .inl
        · have ht := ((hg s hs).2.2 t).mpr ⟨hleads, hterminal⟩
          exact .inl ⟨s, hs, .inl ⟨hpasses, List.ne_nil_of_mem ht, ht⟩⟩

/-- A call that returns met no node twice and visited the source of every edge. -/
theorem run_cases {l : List α} (h : S.run n visited a = .ok l) :
    a ∉ visited ∧ ∃ m, ∀ s ∈ S.sources a, ∃ l', S.run m (a :: visited) s = .ok l' := by
  cases n with
  | zero => cases h
  | succ n =>
    rw [run] at h
    split at h
    · cases h
    · next hnot =>
      refine ⟨hnot, n, fun s hs => ?_⟩
      obtain ⟨found, found', hstep⟩ := exists_of_foldlM_ok h s hs
      cases hcall : S.run n (a :: visited) s with
      | error e =>
        rw [hcall] at hstep
        cases hstep
      | ok l' => exact ⟨l', rfl⟩

theorem notMem_of_run {l : List α} (h : S.run n visited a = .ok l)
    (hb : Relation.ReflTransGen S.Back a b) : b ∉ visited := by
  induction hb using Relation.ReflTransGen.head_induction_on generalizing n visited l with
  | refl => exact (run_cases h).1
  | head hs _ ih =>
    obtain ⟨-, m, hcalls⟩ := run_cases h
    obtain ⟨l', hcall⟩ := hcalls _ hs
    exact fun hmem => ih hcall (List.mem_cons_of_mem _ hmem)

theorem not_cycleBehind_of_run {l : List α} (h : S.run n visited a = .ok l) : ¬ S.CycleBehind a := by
  rintro ⟨b, hb, hloop⟩
  induction hb using Relation.ReflTransGen.head_induction_on generalizing n visited l with
  | refl =>
    obtain ⟨s, hs, hrest⟩ := Relation.TransGen.head'_iff.mp hloop
    obtain ⟨-, m, hcalls⟩ := run_cases h
    obtain ⟨l', hcall⟩ := hcalls s hs
    exact notMem_of_run hcall hrest List.mem_cons_self
  | head hs _ ih =>
    obtain ⟨-, m, hcalls⟩ := run_cases h
    obtain ⟨l', hcall⟩ := hcalls _ hs
    exact ih hcall

/-- The search ends by an error of its own, or returns. -/
theorem run_cases_error {nodes : Finset α} (hnodes : ∀ a, ∀ s ∈ S.sources a, s ∈ nodes)
    (ha : a ∈ nodes) (hfuel : (nodes \ visited.toFinset).card < n) {e : ε}
    (h : S.run n visited a = .error e) : e = S.cyclic := by
  induction n generalizing visited a with
  | zero => exact absurd hfuel (Nat.not_lt_zero _)
  | succ n ih =>
    rw [run] at h
    split at h
    · exact (Except.error.inj h).symm
    · next hnot =>
      obtain ⟨s, hs, found, hstep⟩ := exists_of_foldlM_error h
      refine ih (hnodes a s hs) (lt_of_lt_of_le (card_sdiff_lt ha hnot) (Nat.lt_succ_iff.mp hfuel)) ?_
      cases hcall : S.run n (a :: visited) s with
      | error e' =>
        rw [hcall] at hstep
        rw [Except.error.inj hstep]
      | ok l =>
        rw [hcall] at hstep
        cases hstep

/-- **With a cycle, the search is an error.** -/
theorem run_of_cycle {nodes : Finset α} (hnodes : ∀ a, ∀ s ∈ S.sources a, s ∈ nodes)
    (ha : a ∈ nodes) (hfuel : (nodes \ visited.toFinset).card < n) (hcycle : S.CycleBehind a) :
    S.run n visited a = .error S.cyclic := by
  cases h : S.run n visited a with
  | ok l => exact absurd hcycle (not_cycleBehind_of_run h)
  | error e => rw [run_cases_error hnodes ha hfuel h]

end BackwardSearch

end Sem
