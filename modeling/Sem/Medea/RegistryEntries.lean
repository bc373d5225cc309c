import Sem.Medea.EntityFactoryLemmas

/-!
# What holds of the registry in every run

`Registry.Inv` needs the temporary ids to be unique. The permanent ids are unique in every run:
`Registry.Placed` is the part of the invariant that no event breaks.

* `Placed.registerEntity`: what `RegisterEntity` of a cached object can do.
* `placed_step`: every event keeps `Placed`.
-/

namespace Sem.Medea

open Table

namespace Registry

/-- The entries of the tables are of objects that know their id, and registered ones have one. -/
structure Placed (r : Registry) : Prop where
  hash : Entries r.factory.hash fun id p => 0 < id ∧ CachedAt r.objects id p
  unregistered : Entries r.factory.unregisteredHash fun id p => id < 0 ∧ CachedAt r.objects id p
  registered : ∀ p g, r.objects.lookup p = some g → 0 < g.id → r.factory.hash.lookup g.id = some p
  idCounter : 0 ≤ r.factory.idCounter
  unregisteredIdCounter : r.factory.unregisteredIdCounter ≤ 0
  reusable : ∀ id ∈ r.factory.resuableUnregisteredIds, id < 0
  cached : ∀ p g, r.objects.lookup p = some g → g.phase = .cached → g.kind.hasEntry
  uncached : ∀ p g, r.objects.lookup p = some g → g.phase ≠ .cached → g.id = -1

/-- The registry after the object `g` at `p` has moved to the permanent id `id`. -/
def moved (r : Registry) (p : Ptr) (g : GraphML) (id counter : Int) : Registry where
  factory :=
    { r.factory with
      hash := r.factory.hash.insert id p
      unregisteredHash := r.factory.unregisteredHash.erase g.id
      resuableUnregisteredIds := r.factory.resuableUnregisteredIds ++ [g.id]
      idCounter := counter }
  objects := r.objects.insert p { g with id := id }

variable {r r' : Registry} {p q : Ptr} {g g' : GraphML} {id : Int}

namespace Placed

theorem init : Placed {} where
  hash := Entries.empty
  unregistered := Entries.empty
  registered _ _ h := nomatch h
  idCounter := Int.le_refl 0
  unregisteredIdCounter := Int.le_refl 0
  reusable _ h := nomatch h
  cached _ _ h := nomatch h
  uncached _ _ h := nomatch h

theorem id_of_hash (h : Placed r) (hl : r.objects.lookup p = some g)
    (hp : r.factory.hash.lookup id = some p) : g.id = id := by
  obtain ⟨-, g', hl', -, hid⟩ := h.hash id p hp
  rw [hl] at hl'
  exact Option.some.inj hl' ▸ hid

theorem not_hash_of_neg (h : Placed r) (hneg : id < 0) : id ∉ r.factory.hash := by
  intro hm
  obtain ⟨q, hq⟩ := mem_iff_lookup.mp hm
  have := (h.hash _ _ hq).1
  omega

/-- The objects of the tables are alive. -/
theorem mem_of_getGraphML (h : Placed r) (hp : r.factory.getGraphML id = some p) :
    p ∈ r.objects := by
  unfold EntityFactory.getGraphML at hp
  split at hp
  · obtain ⟨-, g, hl, -⟩ := h.hash id p hp
    exact mem_of_lookup hl
  · split at hp
    · obtain ⟨-, g, hl, -⟩ := h.unregistered id p hp
      exact mem_of_lookup hl
    · cases hp

/-- The source's test for a registered object. -/
theorem isRegistered_iff (h : Placed r) (hl : r.objects.lookup p = some g) :
    r.factory.unsafeIsEntityRegistered p g ↔ 0 < g.id := by
  simp only [EntityFactory.unsafeIsEntityRegistered, decide_eq_true_eq]
  exact ⟨fun hp => (h.hash _ _ hp).1, h.registered p g hl⟩

/-! ## One event -/

/-- An object that is not cached appears, or moves on. -/
theorem insert_uncached (h : Placed r) (hid : g.id = -1) (hu : g.phase ≠ .cached)
    (hp : ∀ id, ¬ CachedAt r.objects id p) :
    Placed { r with objects := r.objects.insert p g } where
  hash := h.hash.mono fun id q _ hq => ⟨hq.1, hq.2.insert_ne fun heq => hp id (heq ▸ hq.2)⟩
  unregistered := h.unregistered.mono fun id q _ hq =>
    ⟨hq.1, hq.2.insert_ne fun heq => hp id (heq ▸ hq.2)⟩
  registered q g' hl hpos := by
    rw [lookup_insert] at hl
    split at hl
    · obtain rfl := Option.some.inj hl
      omega
    · exact h.registered q g' hl hpos
  idCounter := h.idCounter
  unregisteredIdCounter := h.unregisteredIdCounter
  reusable := h.reusable
  cached q g' hl hc := by
    rw [lookup_insert] at hl
    split at hl
    · exact absurd (Option.some.inj hl ▸ hc) hu
    · exact h.cached q g' hl hc
  uncached q g' hl hc := by
    rw [lookup_insert] at hl
    split at hl
    · rw [← Option.some.inj hl, hid]
    · exact h.uncached q g' hl hc

theorem delete (h : Placed r) (hl : r.objects.lookup p = some g) :
    Placed (r.deleteGraphML p g) := by
  obtain ⟨hcount, hucount, hreuse⟩ := delete_counters r p g
  have hleft : ∀ {id q}, CachedAt r.objects id q → (g.kind.hasEntry → id ≠ g.id) →
      CachedAt (r.deleteGraphML p g).objects id q := by
    intro id q hq hne
    refine hq.erase_ne ?_
    rintro rfl
    obtain ⟨g', hl', hc', hid⟩ := hq
    obtain rfl := Option.some.inj (hl.symm.trans hl')
    exact hne (h.cached _ _ hl hc') hid.symm
  have hback : ∀ {q g'}, (r.deleteGraphML p g).objects.lookup q = some g' →
      q ≠ p ∧ r.objects.lookup q = some g' := by
    intro q g' hq
    simp only [deleteGraphML, lookup_erase] at hq
    split at hq
    · cases hq
    · rename_i hne
      exact ⟨hne, hq⟩
  refine
    { hash := fun id q hq => ?_
      unregistered := fun id q hq => ?_
      registered := fun q g' hq hpos => ?_
      idCounter := hcount ▸ h.idCounter
      unregisteredIdCounter := hucount ▸ h.unregisteredIdCounter
      reusable := hreuse ▸ h.reusable
      cached := fun q g' hq => h.cached q g' (hback hq).2
      uncached := fun q g' hq => h.uncached q g' (hback hq).2 }
  · obtain ⟨hq, hne⟩ := lookup_of_delete.1 hq
    exact ⟨(h.hash id q hq).1, hleft (h.hash id q hq).2 hne⟩
  · obtain ⟨hq, hne⟩ := lookup_of_delete.2 hq
    exact ⟨(h.unregistered id q hq).1, hleft (h.unregistered id q hq).2 hne⟩
  · obtain ⟨hne, hq⟩ := hback hq
    have hentry := h.registered q g' hq hpos
    simp only [deleteGraphML, EntityFactory.deregisterGraphML]
    split
    · rw [lookup_erase, if_neg, hentry]
      -- two objects with one permanent id are the same
      intro heq
      have hp := h.registered p g hl (heq ▸ hpos)
      rw [← heq, hentry] at hp
      exact hne (Option.some.inj hp)
    · exact hentry

/-- **The id of a cached object** is negative. -/
theorem cache (h : Placed r) (hl : r.objects.lookup p = some g) (hu : g.phase = .constructing)
    (hk : g.kind.hasEntry) :
    ∃ id f, id < 0 ∧ f.hash = r.factory.hash ∧ r.cacheEntityAsUnregistered p g =
        { factory := f, objects := r.objects.insert p { g with phase := .cached, id := id } } ∧
      Placed (r.cacheEntityAsUnregistered p g) := by
  have hfree : ∃ id f, r.factory.getUnregisteredFreeID = (id, f) ∧ id < 0 ∧
      f.hash = r.factory.hash ∧ f.unregisteredHash = r.factory.unregisteredHash ∧
      f.idCounter = r.factory.idCounter ∧ f.unregisteredIdCounter ≤ 0 ∧
      ∀ id ∈ f.resuableUnregisteredIds, id < 0 := by
    unfold EntityFactory.getUnregisteredFreeID
    have hcount := h.unregisteredIdCounter
    split
    · rename_i id ids hids
      exact ⟨_, _, rfl, h.reusable id (by simp [hids]), rfl, rfl, rfl, hcount,
        fun id' hid => h.reusable id' (by simp [hids, hid])⟩
    · refine ⟨_, _, rfl, by omega, rfl, rfl, rfl, ?_, h.reusable⟩
      show r.factory.unregisteredIdCounter - 1 ≤ 0
      omega
  obtain ⟨id, f, heq, hneg, hhash, hunreg, hcount, hucount, hreuse⟩ := hfree
  -- the table gets an entry unless the id has one
  obtain ⟨t, ht, hentries⟩ : ∃ t, (if id ∈ f.unregisteredHash then f
      else { f with unregisteredHash := f.unregisteredHash.insert id p }) =
        { f with unregisteredHash := t } ∧
      (t = f.unregisteredHash ∨ t = f.unregisteredHash.insert id p) := by
    split
    · exact ⟨f.unregisteredHash, rfl, .inl rfl⟩
    · exact ⟨_, rfl, .inr rfl⟩
  have hstate : r.cacheEntityAsUnregistered p g =
      { factory := { f with unregisteredHash := t }
        objects := r.objects.insert p { g with phase := .cached, id := id } } := by
    simp only [cacheEntityAsUnregistered, heq, setID, ht]
  have hold : ∀ {id' q}, CachedAt r.objects id' q →
      CachedAt (r.objects.insert p { g with phase := .cached, id := id }) id' q :=
    fun hq => hq.insert_ne (hq.ne_of_uncached hl (by simp [hu]))
  have hunregistered : Entries f.unregisteredHash fun id' q => id' < 0 ∧
      CachedAt (r.objects.insert p { g with phase := .cached, id := id }) id' q := by
    rw [hunreg]
    exact h.unregistered.mono fun _ _ _ hq => ⟨hq.1, hold hq.2⟩
  refine ⟨id, { f with unregisteredHash := t }, hneg, hhash, hstate, ?_⟩
  rw [hstate]
  refine
    { hash := hhash ▸ h.hash.mono fun _ _ _ hq => ⟨hq.1, hold hq.2⟩
      unregistered := ?_
      registered := fun q g' hq hpos => ?_
      idCounter := hcount ▸ h.idCounter
      unregisteredIdCounter := hucount
      reusable := hreuse
      cached := fun q g' hq hc => ?_
      uncached := fun q g' hq hc => ?_ }
  · rcases hentries with rfl | rfl
    · exact hunregistered
    · exact hunregistered.insert ⟨hneg, _, AList.lookup_insert _, rfl, rfl⟩
  · simp only [hhash, lookup_insert] at hq ⊢
    split at hq
    · obtain rfl := Option.some.inj hq
      simp only at hpos
      omega
    · exact h.registered q g' hq hpos
  · rw [lookup_insert] at hq
    split at hq
    · obtain rfl := Option.some.inj hq
      exact hk
    · exact h.cached q g' hq hc
  · rw [lookup_insert] at hq
    split at hq
    · exact absurd (Option.some.inj hq ▸ rfl) hc
    · exact h.uncached q g' hq hc

/-- **`RegisterEntity` of a cached object** changes nothing, or moves it to a free permanent id. -/
theorem registerEntity (h : Placed r) (hl : r.objects.lookup p = some g) (hc : g.phase = .cached)
    (desired : Int) :
    (∃ res, res ≠ .ok true ∧ r.registerEntity p g desired = some (res, r) ∧
      (g.id ∉ r.factory.unregisteredHash ∨ 0 < g.id)) ∨
    ∃ id c, 0 < id ∧ id ∉ r.factory.hash ∧ g.id < 0 ∧ g.id ∈ r.factory.unregisteredHash ∧
      r.factory.getFreeID desired = some (id, { r.factory with idCounter := c }) ∧
      r.registerEntity p g desired = some (.ok true, r.moved p g id c) ∧
      Placed (r.moved p g id c) := by
  by_cases hreg : r.factory.unsafeIsEntityRegistered p g
  · exact .inl ⟨.ok false, by simp, by simp [Registry.registerEntity, hreg],
      .inr ((h.isRegistered_iff hl).mp hreg)⟩
  by_cases hmem : g.id ∈ r.factory.unregisteredHash
  · obtain ⟨q₀, hq₀⟩ := mem_iff_lookup.mp hmem
    have hneg := (h.unregistered _ _ hq₀).1
    obtain ⟨id, c, hget, hpos, hfree, hcount⟩ := EntityFactory.getFreeID_spec r.factory h.idCounter
      desired
    have hget' : EntityFactory.getFreeID
        { r.factory with
          unregisteredHash := r.factory.unregisteredHash.erase g.id
          resuableUnregisteredIds := r.factory.resuableUnregisteredIds ++ [g.id] } desired =
        some (id, { r.factory with
          unregisteredHash := r.factory.unregisteredHash.erase g.id
          resuableUnregisteredIds := r.factory.resuableUnregisteredIds ++ [g.id]
          idCounter := c }) := by
      -- the search reads `hash_` and the counter only
      obtain ⟨⟨id', c'⟩, hloop, heq⟩ := Option.map_eq_some_iff.mp hget
      simp only [Prod.mk.injEq, EntityFactory.mk.injEq] at heq
      obtain ⟨rfl, -, -, rfl, -⟩ := heq
      simp [EntityFactory.getFreeID, hloop]
    have hold : ∀ {id' q}, CachedAt r.objects id' q → id' ≠ g.id →
        CachedAt (r.objects.insert p { g with id := id }) id' q := by
      rintro id' q ⟨g', hl', hc', hid⟩ hne
      refine CachedAt.insert_ne ⟨g', hl', hc', hid⟩ ?_
      rintro rfl
      exact hne (Option.some.inj (hl.symm.trans hl') ▸ hid.symm)
    refine .inr ⟨id, c, hpos, hfree, hneg, hmem, hget, ?_, ?_⟩
    · simp only [Registry.registerEntity, hreg, EntityFactory.unregisterTempID, hmem, if_true,
        hget', Option.map_some, setID]
      rw [if_neg (by simp), if_neg (by omega), if_neg hfree]
      rfl
    · refine
        { hash := Entries.insert (h.hash.mono fun id' _ _ hq => ⟨hq.1, hold hq.2 ?_⟩)
            ⟨hpos, _, AList.lookup_insert _, hc, rfl⟩
          unregistered := fun id' q hq => ?_
          registered := fun q g' hq hpos' => ?_
          idCounter := hcount
          unregisteredIdCounter := h.unregisteredIdCounter
          reusable := fun id' hid => ?_
          cached := fun q g' hq hc' => ?_
          uncached := fun q g' hq hc' => ?_ }
      · have := hq.1
        omega
      · simp only [moved, lookup_erase] at hq
        split at hq
        · cases hq
        · rename_i hne
          obtain ⟨hneg', hat⟩ := h.unregistered _ _ hq
          exact ⟨hneg', hold hat hne⟩
      · simp only [moved, lookup_insert] at hq ⊢
        split at hq
        · rename_i heq'
          obtain rfl := Option.some.inj hq
          simp [heq']
        · have hentry := h.registered q g' hq hpos'
          rwa [if_neg fun heq' : g'.id = id => hfree (heq' ▸ mem_of_lookup hentry)]
      · rcases List.mem_append.mp hid with hid | hid
        · exact h.reusable _ hid
        · rw [List.mem_singleton.mp hid]
          exact hneg
      · simp only [moved, lookup_insert] at hq
        split at hq
        · obtain rfl := Option.some.inj hq
          exact h.cached p g hl hc
        · exact h.cached q g' hq hc'
      · simp only [moved, lookup_insert] at hq
        split at hq
        · exact absurd (Option.some.inj hq ▸ hc) hc'
        · exact h.uncached q g' hq hc'
  · refine .inl ⟨.error (registerError g.text 0), by simp, ?_, .inl hmem⟩
    simp [Registry.registerEntity, hreg, EntityFactory.unregisterTempID, hmem]

end Placed

theorem placed_step {a : Registry.Action} (h : Placed r) (hs : step r a = some r') : Placed r' := by
  cases a with
  | construct p kind text =>
    simp only [step] at hs
    split at hs
    · cases hs
    · rename_i hnew
      obtain rfl := Option.some.inj hs
      refine h.insert_uncached rfl (by simp) fun id hat => ?_
      obtain ⟨g, hl, -⟩ := hat
      exact hnew (mem_of_lookup hl)
  | constructorThrew p =>
    obtain ⟨g, hl, -, hs⟩ := withObject_eq_some.mp hs
    obtain rfl := Option.some.inj hs
    exact h.delete hl
  | returnUncached p =>
    obtain ⟨g, hl, hready, hs⟩ := withObject_eq_some.mp hs
    simp only [decide_eq_true_eq] at hready
    obtain rfl := Option.some.inj hs
    exact h.insert_uncached (h.uncached p g hl (by simp [hready.1])) (by simp)
      fun id hat => hat.ne_of_uncached hl (by simp [hready.1]) rfl
  | returnCached p =>
    obtain ⟨g, hl, hready, hs⟩ := withObject_eq_some.mp hs
    simp only [decide_eq_true_eq] at hready
    obtain rfl := Option.some.inj hs
    obtain ⟨-, -, -, -, -, hplaced⟩ := h.cache hl hready.1 hready.2
    exact hplaced
  | register p desired =>
    obtain ⟨g, hl, hready, hs⟩ := withObject_eq_some.mp hs
    obtain ⟨⟨res, r''⟩, hr, rfl⟩ := Option.map_eq_some_iff.mp hs
    rcases h.registerEntity hl (of_decide_eq_true hready) desired with
      ⟨_, -, heq, -⟩ | ⟨_, _, -, -, -, -, -, heq, hplaced⟩ <;> rw [heq] at hr <;>
      simp only [Option.some.injEq, Prod.mk.injEq] at hr <;> obtain ⟨-, rfl⟩ := hr
    · exact h
    · exact hplaced
  | destruct p =>
    obtain ⟨g, hl, -, hs⟩ := withObject_eq_some.mp hs
    obtain rfl := Option.some.inj hs
    exact h.delete hl

end Registry

end Sem.Medea
