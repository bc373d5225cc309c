import Mathlib.Data.List.AList

/-!
# Finite tables

Hash tables with unique keys are Mathlib's `AList`s: the key list of one is what an iteration
sees, in some order, and its `Nodup` is part of the type. This module adds the two rewriting rules
that turn a lookup into a case distinction on the key, `Entries`, the tables all of whose entries
have a property, and `adjust`, which changes one value in place.

* `exists_values_adjust`, `exists_values_erase`: what one change does to the values in order.
-/

namespace Sem

universe u v

/-- A table from `K` to `V` with unique keys. -/
abbrev Table (K : Type u) (V : Type v) := AList (fun _ : K => V)

namespace Table

variable {K : Type u} {V : Type v} [DecidableEq K]

theorem lookup_insert (t : Table K V) (k k' : K) (v : V) :
    (t.insert k v).lookup k' = if k' = k then some v else t.lookup k' := by
  by_cases h : k' = k
  · subst h
    simp
  · simp [h, AList.lookup_insert_ne h]

theorem lookup_erase (t : Table K V) (k k' : K) :
    (t.erase k).lookup k' = if k' = k then none else t.lookup k' := by
  by_cases h : k' = k
  · subst h
    simp
  · simp [h, AList.lookup_erase_ne h]

theorem lookup_empty (k : K) : (∅ : Table K V).lookup k = none := rfl

theorem mem_iff_lookup {t : Table K V} {k : K} : k ∈ t ↔ ∃ v, t.lookup k = some v := by
  rw [← AList.lookup_isSome, Option.isSome_iff_exists]

theorem mem_of_lookup {t : Table K V} {k : K} {v : V} (h : t.lookup k = some v) : k ∈ t :=
  mem_iff_lookup.mpr ⟨v, h⟩

/-- Every entry of the table has the property `P`. -/
def Entries (t : Table K V) (P : K → V → Prop) : Prop :=
  ∀ k v, t.lookup k = some v → P k v

variable {t : Table K V} {P Q : K → V → Prop}

theorem Entries.empty : Entries (∅ : Table K V) P :=
  fun _ _ h => nomatch h

theorem Entries.mono (h : Entries t P) (hPQ : ∀ k v, t.lookup k = some v → P k v → Q k v) :
    Entries t Q :=
  fun k v hk => hPQ k v hk (h k v hk)

/-- A new entry needs the property itself. -/
theorem Entries.insert {k : K} {v : V} (h : Entries t P) (hkv : P k v) :
    Entries (t.insert k v) P := by
  intro k' v' hk
  rw [lookup_insert] at hk
  split at hk
  · rename_i heq
    obtain rfl := Option.some.inj hk
    exact heq ▸ hkv
  · exact h k' v' hk

theorem Entries.erase (h : Entries t P) (k : K) : Entries (t.erase k) P := by
  intro k' v' hk
  rw [lookup_erase] at hk
  split at hk
  · cases hk
  · exact h k' v' hk

/-! ## Changing a value in place -/

/-- Apply `f` to the value at the key. -/
def adjust (t : Table K V) (k : K) (f : V → V) : Table K V where
  entries := t.entries.map fun e => if e.1 = k then ⟨e.1, f e.2⟩ else e
  nodupKeys := by
    have h : (t.entries.map fun e => if e.1 = k then (⟨e.1, f e.2⟩ : Sigma fun _ : K => V)
        else e).keys = t.entries.keys := by
      simp only [List.keys, List.map_map]
      apply List.map_congr_left
      intro e _
      by_cases he : e.1 = k <;> simp [he]
    rw [List.NodupKeys, h]
    exact t.nodupKeys

/-- The values, in the order of an iteration. -/
def values (t : Table K V) : List V := t.entries.map (·.2)

theorem lookup_adjust (t : Table K V) (k k' : K) (f : V → V) :
    (t.adjust k f).lookup k' = if k' = k then (t.lookup k').map f else t.lookup k' := by
  obtain ⟨entries, hnodup⟩ := t
  show List.dlookup k' (entries.map fun e => if e.1 = k then (⟨e.1, f e.2⟩ : Sigma fun _ : K => V)
      else e) =
    if k' = k then (List.dlookup k' entries : Option V).map f else List.dlookup k' entries
  clear hnodup
  induction entries with
  | nil => by_cases h : k' = k <;> simp [h]
  | cons e entries ih =>
    obtain ⟨a, v⟩ := e
    rw [List.map_cons]
    by_cases hk : a = k
    · subst hk
      rw [if_pos rfl]
      by_cases ha : k' = a
      · subst ha
        simp
      · rw [List.dlookup_cons_ne _ _ (Ne.symm (Ne.symm ha)), ih, if_neg ha, if_neg ha,
          List.dlookup_cons_ne _ _ ha]
    · rw [if_neg hk]
      by_cases ha : k' = a
      · subst ha
        simp [hk]
      · rw [List.dlookup_cons_ne _ _ ha, ih, List.dlookup_cons_ne _ _ ha]

theorem mem_adjust {t : Table K V} {k k' : K} {f : V → V} : k' ∈ t.adjust k f ↔ k' ∈ t := by
  rw [← AList.lookup_isSome, ← AList.lookup_isSome, lookup_adjust]
  by_cases h : k' = k <;> simp [h]

/-- There is a value at the key, and it has the property `P`. -/
def At (t : Table K V) (k : K) (P : V → Prop) : Prop := ∃ v, t.lookup k = some v ∧ P v

/-- A change, here or elsewhere, that keeps the property. -/
theorem At.adjust {t : Table K V} {k : K} {P Q : V → Prop} (h : t.At k P) (k' : K) {f : V → V}
    (hsame : ∀ v, P v → Q v) (hf : ∀ v, P v → Q (f v)) : (t.adjust k' f).At k Q := by
  obtain ⟨v, hv, hP⟩ := h
  by_cases hk : k = k'
  · exact ⟨f v, by rw [lookup_adjust, if_pos hk, hv, Option.map_some], hf v hP⟩
  · exact ⟨v, by rw [lookup_adjust, if_neg hk, hv], hsame v hP⟩

/-- The other values stay where they are. -/
theorem exists_values_adjust {t : Table K V} {k : K} {v : V} (h : t.lookup k = some v) :
    ∃ l r, t.values = l ++ v :: r ∧ ∀ f : V → V, (t.adjust k f).values = l ++ f v :: r := by
  obtain ⟨entries, hnodup⟩ := t
  replace h : List.dlookup k entries = some v := h
  show ∃ l r, entries.map (·.2) = l ++ v :: r ∧
    ∀ f : V → V, (entries.map fun e => if e.1 = k then (⟨e.1, f e.2⟩ : Sigma fun _ : K => V) else e).map
      (·.2) = l ++ f v :: r
  induction entries with
  | nil => cases h
  | cons e entries ih =>
    obtain ⟨a, w⟩ := e
    obtain ⟨ha, htail⟩ := List.nodupKeys_cons.mp hnodup
    by_cases hk : a = k
    · subst hk
      rw [List.dlookup_cons_eq] at h
      obtain rfl := Option.some.inj h
      refine ⟨[], entries.map (·.2), rfl, fun f => ?_⟩
      rw [List.map_cons, if_pos rfl, List.map_cons, List.nil_append]
      refine congrArg (f w :: ·) ?_
      rw [List.map_map]
      apply List.map_congr_left
      intro e he
      have hne : e.1 ≠ a := fun heq => ha (List.mem_map.mpr ⟨e, he, heq⟩)
      simp [hne]
    · rw [List.dlookup_cons_ne _ _ (Ne.symm hk)] at h
      obtain ⟨l, r, hv, hf⟩ := ih htail h
      refine ⟨w :: l, r, by simpa using hv, fun f => ?_⟩
      rw [List.map_cons, if_neg hk, List.map_cons, hf f]
      rfl

/-- Keys stay where they are. -/
theorem keys_adjust (t : Table K V) (k : K) (f : V → V) :
    (t.adjust k f).keys = t.keys := by
  simp only [AList.keys, List.keys, adjust, List.map_map]
  apply List.map_congr_left
  intro e _
  by_cases he : e.1 = k <;> simp [he]

theorem keys_insert_of_notMem {t : Table K V} {k : K} (h : k ∉ t) (v : V) :
    AList.keys (t.insert k v) = k :: t.keys := by
  rw [AList.keys, AList.entries_insert_of_notMem h]
  rfl

theorem adjust_of_notMem {t : Table K V} {k : K} (h : k ∉ t) (f : V → V) : t.adjust k f = t := by
  apply AList.ext
  show t.entries.map _ = t.entries
  conv_rhs => rw [← List.map_id t.entries]
  apply List.map_congr_left
  intro e he
  have hne : e.1 ≠ k := by
    rintro rfl
    exact h (AList.mem_keys.mpr (List.mem_map.mpr ⟨e, he, rfl⟩))
  rw [if_neg hne, id]

/-- If nothing is left without a key, it was the only one. -/
theorem keys_eq_singleton {t : Table K V} {k : K} (hk : k ∈ t)
    (h : AList.keys (t.erase k) = []) : t.keys = [k] := by
  have hall : ∀ k' ∈ t.keys, k' = k := by
    intro k' hk'
    by_contra hne
    have hmem : k' ∈ t.erase k := AList.mem_erase.mpr ⟨hne, AList.mem_keys.mpr hk'⟩
    rw [AList.mem_keys, h] at hmem
    cases hmem
  have hpos := List.length_pos_of_mem (AList.mem_keys.mp hk)
  have heq := List.eq_replicate_of_mem hall
  have hnodup := t.keys_nodup
  rw [heq, List.nodup_replicate] at hnodup
  have hlength : t.keys.length = 1 := by omega
  rw [hlength] at heq
  exact heq

/-- The other values stay where they are. -/
theorem exists_values_erase {t : Table K V} {k : K} {v : V} (h : t.lookup k = some v) :
    ∃ l r, t.values = l ++ v :: r ∧ values (t.erase k) = l ++ r := by
  obtain ⟨entries, hnodup⟩ := t
  replace h : List.dlookup k entries = some v := h
  show ∃ l r, entries.map (·.2) = l ++ v :: r ∧ (List.kerase k entries).map (·.2) = l ++ r
  clear hnodup
  induction entries with
  | nil => cases h
  | cons e entries ih =>
    obtain ⟨a, w⟩ := e
    by_cases hk : k = a
    · subst hk
      rw [List.dlookup_cons_eq] at h
      obtain rfl := Option.some.inj h
      exact ⟨[], entries.map (·.2), rfl, congrArg _ (@List.kerase_cons_eq _ _ _ k ⟨k, w⟩ entries rfl)⟩
    · rw [List.dlookup_cons_ne _ _ hk] at h
      obtain ⟨l, r, hv, hf⟩ := ih h
      refine ⟨w :: l, r, by simpa using hv, ?_⟩
      rw [List.kerase_cons_ne hk, List.map_cons, hf]
      rfl

/-- Apply `f` to every value. -/
def mapValues (t : Table K V) (f : V → V) : Table K V where
  entries := t.entries.map fun e => ⟨e.1, f e.2⟩
  nodupKeys := by
    have h : (t.entries.map fun e => (⟨e.1, f e.2⟩ : Sigma fun _ : K => V)).keys =
        t.entries.keys := by
      simp [List.keys, Function.comp_def]
    rw [List.NodupKeys, h]
    exact t.nodupKeys

/-- Apply `f` to every value, which also sees the key. -/
def mapEntries (t : Table K V) (f : K → V → V) : Table K V where
  entries := t.entries.map fun e => ⟨e.1, f e.1 e.2⟩
  nodupKeys := by
    have h : (t.entries.map fun e => (⟨e.1, f e.1 e.2⟩ : Sigma fun _ : K => V)).keys =
        t.entries.keys := by
      simp [List.keys, Function.comp_def]
    rw [List.NodupKeys, h]
    exact t.nodupKeys

theorem lookup_mapEntries (t : Table K V) (k : K) (f : K → V → V) :
    (t.mapEntries f).lookup k = (t.lookup k).map (f k) := by
  obtain ⟨entries, hnodup⟩ := t
  show List.dlookup k (entries.map fun e => (⟨e.1, f e.1 e.2⟩ : Sigma fun _ : K => V)) =
    (List.dlookup k entries : Option V).map (f k)
  clear hnodup
  induction entries with
  | nil => rfl
  | cons e entries ih =>
    obtain ⟨a, v⟩ := e
    rw [List.map_cons]
    by_cases ha : k = a
    · subst ha
      simp
    · rw [List.dlookup_cons_ne _ _ ha, List.dlookup_cons_ne _ _ ha, ih]

theorem Entries.mapEntries {f : K → V → V} (h : Entries t P)
    (hPQ : ∀ k v, P k v → Q k (f k v)) : Entries (t.mapEntries f) Q := by
  intro k v hk
  rw [lookup_mapEntries] at hk
  obtain ⟨v, hv, rfl⟩ := Option.map_eq_some_iff.mp hk
  exact hPQ k v (h k v hv)

theorem lookup_mapValues (t : Table K V) (k : K) (f : V → V) :
    (t.mapValues f).lookup k = (t.lookup k).map f := by
  obtain ⟨entries, hnodup⟩ := t
  show List.dlookup k (entries.map fun e => (⟨e.1, f e.2⟩ : Sigma fun _ : K => V)) =
    (List.dlookup k entries : Option V).map f
  clear hnodup
  induction entries with
  | nil => rfl
  | cons e entries ih =>
    obtain ⟨a, v⟩ := e
    rw [List.map_cons]
    by_cases ha : k = a
    · subst ha
      simp
    · rw [List.dlookup_cons_ne _ _ ha, List.dlookup_cons_ne _ _ ha, ih]

omit [DecidableEq K] in
theorem values_mapValues (t : Table K V) (f : V → V) :
    (t.mapValues f).values = t.values.map f := by
  simp [values, mapValues, Function.comp_def]

omit [DecidableEq K] in
theorem keys_mapValues (t : Table K V) (f : V → V) : (t.mapValues f).keys = t.keys := by
  simp [AList.keys, List.keys, mapValues, Function.comp_def]

omit [DecidableEq K] in
/-- A second map that does not see the first one hides it. -/
theorem mapValues_mapValues {t : Table K V} {f g : V → V} (h : ∀ v, g (f v) = g v) :
    (t.mapValues f).mapValues g = t.mapValues g := by
  apply AList.ext
  show (t.entries.map _).map _ = t.entries.map _
  rw [List.map_map]
  apply List.map_congr_left
  intro e _
  simp [h]

/-- A function of the values that does not see the change. -/
theorem mapValues_adjust {t : Table K V} {k : K} {f g : V → V} (h : ∀ v, g (f v) = g v) :
    (t.adjust k f).mapValues g = t.mapValues g := by
  apply AList.ext
  show (t.entries.map _).map _ = t.entries.map _
  rw [List.map_map]
  apply List.map_congr_left
  intro e _
  by_cases he : e.1 = k <;> simp [he, h]

/-- What a change does not show is the same in all values. -/
theorem map_values_adjust {β : Type*} {t : Table K V} {k : K} {f : V → V} {g : V → β}
    (h : ∀ v, g (f v) = g v) : (t.adjust k f).values.map g = t.values.map g := by
  show ((t.entries.map _).map _).map g = (t.entries.map _).map g
  rw [List.map_map, List.map_map, List.map_map]
  apply List.map_congr_left
  intro e _
  by_cases he : e.1 = k <;> simp [he, h]

/-- What is read off the values does not see a change that each value hides. -/
theorem flatMap_adjust_eq {β : Type*} {t : Table K V} {k : K} {f : V → V} {g : V → List β}
    (h : ∀ v, g (f v) = g v) : (t.adjust k f).values.flatMap g = t.values.flatMap g := by
  show ((t.entries.map _).map _).flatMap g = (t.entries.map _).flatMap g
  rw [List.map_map, List.flatMap_map, List.flatMap_map]
  congr 1
  funext e
  by_cases he : e.1 = k <;> simp [he, h]

/-- What is read off the values, with the part of the value that is changed. -/
theorem flatMap_adjust {β : Type*} {t : Table K V} {k : K} {v : V} (h : t.lookup k = some v)
    (g : V → List β) : ∃ rest, (t.values.flatMap g).Perm (g v ++ rest) ∧
      ∀ f : V → V, ((t.adjust k f).values.flatMap g).Perm (g (f v) ++ rest) := by
  obtain ⟨l, r, hvalues, hadjust⟩ := exists_values_adjust h
  have hperm : ∀ w : V, ((l ++ w :: r).flatMap g).Perm (g w ++ (l.flatMap g ++ r.flatMap g)) := by
    intro w
    rw [List.flatMap_append, List.flatMap_cons]
    exact List.perm_append_comm_assoc _ _ _
  refine ⟨l.flatMap g ++ r.flatMap g, ?_, fun f => ?_⟩
  · rw [hvalues]
    exact hperm v
  · rw [hadjust]
    exact hperm (f v)

theorem values_insert {t : Table K V} {k : K} {v : V} (h : k ∉ t) :
    values (t.insert k v) = v :: t.values := by
  rw [values, AList.entries_insert_of_notMem h]
  rfl

theorem values_insert_erase {t : Table K V} {k : K} {v : V} :
    values (t.insert k v) = v :: values (t.erase k) := rfl

/-- The values, that of one key first. -/
theorem values_perm_erase (t : Table K V) (k : K) :
    t.values.Perm ((t.lookup k).toList ++ values (t.erase k)) := by
  cases h : t.lookup k with
  | none =>
    have hk : k ∉ t := fun hk => by
      obtain ⟨v, hv⟩ := mem_iff_lookup.mp hk
      exact nomatch h.symm.trans hv
    have herase : t.erase k = t :=
      AList.ext (List.kerase_of_notMem_keys fun hk' => hk (AList.mem_keys.mpr hk'))
    rw [herase]
    exact List.Perm.refl _
  | some v =>
    obtain ⟨l, r, hvalues, herase⟩ := exists_values_erase h
    rw [hvalues, herase]
    exact List.perm_middle

theorem mem_values {t : Table K V} {v : V} : v ∈ t.values ↔ ∃ k, t.lookup k = some v := by
  constructor
  · intro h
    obtain ⟨e, he, rfl⟩ := List.mem_map.mp h
    exact ⟨e.1, (AList.mem_lookup_iff).mpr he⟩
  · rintro ⟨k, hk⟩
    exact List.mem_map.mpr ⟨⟨k, v⟩, (AList.mem_lookup_iff).mp hk, rfl⟩

/-- Where the values tell their keys, a lookup finds the value with the key. -/
theorem lookup_eq_some_iff (f : V → K) {t : Table K V} (h : t.Entries fun k v => f v = k) {k : K}
    {v : V} : t.lookup k = some v ↔ v ∈ t.values ∧ f v = k := by
  rw [mem_values]
  refine ⟨fun hk => ⟨⟨k, hk⟩, h k v hk⟩, ?_⟩
  rintro ⟨⟨k', hk'⟩, rfl⟩
  rwa [← h k' v hk'] at hk'

end Table

end Sem
