import Sem.Medea.EntityFactory

/-!
# The registry invariant

`Registry.Inv` ties the two tables of `EntityFactory` to the objects. Only one thing can break it:
the first id that `getUnregisteredFreeID` hands out is `-1`, which is also the id every `GraphML`
is born with, so the destructor of an object that was never cached removes the entry of the entity
that was. `Registry.Meets` is the condition that `-1` belongs to at most one object.

* `getFreeID_spec`: the search for a free id ends, with a positive id that is not in use.
* `inv_step`: every event that meets the condition keeps the invariant.
* `registry_ok_of_reachBy`: in every run whose events meet it, lookups find every cached entity, the
  tables are disjoint, ids are unique and a destructor takes out nobody else's entry.
* `edge_failure_drops_node`: a run that breaks it.
-/

namespace Sem.Medea

open Table

/-! ## The search for a free id -/

namespace EntityFactory

theorem getFreeIDLoop_free {hash : Table Int Ptr} {fuel : Nat} {id counter : Int} {r : Int × Int}
    (h : getFreeIDLoop hash fuel id counter = some r) :
    0 < r.1 ∧ r.1 ∉ hash ∧ counter ≤ r.2 := by
  induction fuel generalizing id counter with
  | zero => cases h
  | succ fuel ih =>
    simp only [getFreeIDLoop] at h
    split at h
    · have := ih h
      exact ⟨this.1, this.2.1, by omega⟩
    · rename_i hfree
      obtain rfl := Option.some.inj h
      rw [not_or] at hfree
      exact ⟨by omega, hfree.2, Int.le_refl _⟩

/-- Past a nonnegative counter the loop only skips ids in use, and there are finitely many. -/
theorem getFreeIDLoop_isSome {hash : Table Int Ptr} {fuel : Nat} {c : Int} (hc : 0 < c)
    (hfuel : (hash.keys.filter (c ≤ ·)).length < fuel) :
    ∃ r, getFreeIDLoop hash fuel c c = some r := by
  induction fuel generalizing c with
  | zero => omega
  | succ fuel ih =>
    simp only [getFreeIDLoop]
    split
    · rename_i hused
      have hmem : c ∈ hash.keys := AList.mem_keys.mp (hused.resolve_left (by omega))
      refine ih (by omega) (Nat.lt_of_lt_of_le ?_ (Nat.le_of_lt_succ hfuel))
      -- `c` itself is no longer counted
      have hsub : hash.keys.filter (fun x => decide (c + 1 ≤ x)) ⊆
          (hash.keys.filter (fun x => decide (c ≤ x))).erase c := by
        intro x hx
        simp only [List.mem_filter, decide_eq_true_eq] at hx
        refine (List.mem_erase_of_ne (by omega)).mpr ?_
        simp only [List.mem_filter, decide_eq_true_eq]
        exact ⟨hx.1, by omega⟩
      have hin : c ∈ hash.keys.filter (fun x => decide (c ≤ x)) := by simp [hmem]
      have hle := (List.subperm_of_subset (hash.keys_nodup.filter _) hsub).length_le
      have hpos := List.length_pos_of_mem hin
      rw [List.length_erase_of_mem hin] at hle
      omega
    · exact ⟨_, rfl⟩

/-- **`getFreeID` returns**, with a positive id that no registered entity has. -/
theorem getFreeID_spec (f : EntityFactory) (hc : 0 ≤ f.idCounter) (startId : Int) :
    ∃ id c, f.getFreeID startId = some (id, { f with idCounter := c }) ∧
      0 < id ∧ id ∉ f.hash ∧ 0 ≤ c := by
  have hsome : ∃ r, getFreeIDLoop f.hash (f.hash.keys.length + 2) startId f.idCounter = some r := by
    rw [getFreeIDLoop]
    split
    · refine getFreeIDLoop_isSome (by omega) ?_
      have := f.hash.keys.length_filter_le (fun x => decide (f.idCounter + 1 ≤ x))
      omega
    · exact ⟨_, rfl⟩
  obtain ⟨r, hr⟩ := hsome
  obtain ⟨hpos, hfree, hle⟩ := getFreeIDLoop_free hr
  exact ⟨r.1, r.2, by simp [getFreeID, hr], hpos, hfree, by omega⟩

end EntityFactory

namespace Registry

/-! ## The invariant -/

/-- The object at `p` is cached and has the id `id`. -/
def CachedAt (objects : Table Ptr GraphML) (id : Int) (p : Ptr) : Prop :=
  ∃ g, objects.lookup p = some g ∧ g.phase = .cached ∧ g.id = id

/-- A constructed object of a kind with ids: a cached entity or a temporary node. -/
structure LiveEntity (objects : Table Ptr GraphML) (p : Ptr) (g : GraphML) : Prop where
  lookup : objects.lookup p = some g
  returned : g.phase ≠ .constructing
  kind : g.kind.hasEntry

/-- Some live object is a temporary node. -/
def HasTemporary (objects : Table Ptr GraphML) : Prop :=
  ∃ p ∈ objects.keys, ∃ g ∈ objects.lookup p, g.phase = .uncached ∧ g.kind.hasEntry

instance (objects : Table Ptr GraphML) : Decidable (HasTemporary objects) := by
  unfold HasTemporary
  infer_instance

/-- The entries of the two tables are of objects that know their id. -/
structure Inv (r : Registry) : Prop where
  hash : Entries r.factory.hash fun id p => 0 < id ∧ CachedAt r.objects id p
  unregistered : Entries r.factory.unregisteredHash fun id p =>
    id < 0 ∧ r.factory.unregisteredIdCounter ≤ id ∧ CachedAt r.objects id p
  idCounter : 0 ≤ r.factory.idCounter
  unregisteredIdCounter : r.factory.unregisteredIdCounter ≤ 0
  reusable : ∀ id ∈ r.factory.resuableUnregisteredIds,
    id < 0 ∧ r.factory.unregisteredIdCounter ≤ id ∧ id ∉ r.factory.unregisteredHash
  reusable_nodup : r.factory.resuableUnregisteredIds.Nodup
  cached : ∀ p g, r.objects.lookup p = some g → g.phase = .cached → g.kind.hasEntry ∧
    (r.factory.hash.lookup g.id = some p ∨ r.factory.unregisteredHash.lookup g.id = some p)
  /-- an object that was never cached still has the id it was born with -/
  uncached : ∀ p g, r.objects.lookup p = some g → g.phase ≠ .cached → g.id = -1
  /-- while a temporary node lives, no other entity has its id -/
  temporary : ∀ p g, LiveEntity r.objects p g → g.phase = .uncached →
    (-1 : Int) ∉ r.factory.unregisteredHash ∧
      ∀ q g', LiveEntity r.objects q g' → g'.phase = .uncached → q = p

/-- What the registry is for: ids identify the live entities. -/
structure RegistryOk (r : Registry) : Prop where
  getGraphML : ∀ p g, r.objects.lookup p = some g → g.phase = .cached →
    r.factory.getGraphML g.id = some p
  disjoint : ∀ id, ¬ (id ∈ r.factory.hash ∧ id ∈ r.factory.unregisteredHash)
  unique : ∀ p q g g', LiveEntity r.objects p g → LiveEntity r.objects q g' → g.id = g'.id → p = q

/-- The entries of every object but `p` are in the tables of `r'` as they were in those of `r`. -/
def KeepsOthers (p : Ptr) (r r' : Registry) : Prop :=
  ∀ id q, q ≠ p →
    (r.factory.hash.lookup id = some q → r'.factory.hash.lookup id = some q) ∧
    (r.factory.unregisteredHash.lookup id = some q →
      r'.factory.unregisteredHash.lookup id = some q)

/-- The object whose destructor an event runs. -/
def Action.destroyed : Action → Option Ptr
  | .constructorThrew p | .destruct p => some p
  | _ => none

/-- **The condition on an event**: the id `-1` is not given to a second object. -/
def Meets (r : Registry) : Action → Prop
  | .constructorThrew p => ∀ g ∈ r.objects.lookup p, g.kind.hasEntry →
      (-1 : Int) ∉ r.factory.unregisteredHash
  | .returnUncached p => ∀ g ∈ r.objects.lookup p, g.kind.hasEntry →
      (-1 : Int) ∉ r.factory.unregisteredHash ∧ ¬ HasTemporary r.objects
  | .returnCached _ => r.factory.getUnregisteredFreeID.1 = -1 → ¬ HasTemporary r.objects
  | _ => True

instance : ∀ r a, Decidable (Meets r a) := by
  intro r a
  cases a <;> unfold Meets <;> infer_instance

/-! ## Consequences of the invariant -/

variable {r r' : Registry} {p q : Ptr} {g g' : GraphML} {id : Int}

theorem LiveEntity.hasTemporary {objects : Table Ptr GraphML} (h : LiveEntity objects p g)
    (hu : g.phase = .uncached) : HasTemporary objects :=
  ⟨p, AList.mem_keys.mp (mem_of_lookup h.lookup), g, h.lookup, hu, h.kind⟩

theorem LiveEntity.cached_or (h : LiveEntity r.objects p g) :
    g.phase = .cached ∨ g.phase = .uncached := by
  rcases hp : g.phase with _ | _ | _
  · exact absurd hp h.returned
  · exact .inr rfl
  · exact .inl rfl

namespace Inv

/-- An entry of the id of a cached object, in either table, is that object's. -/
theorem eq_of_cached (h : Inv r) (hl : r.objects.lookup p = some g) (hc : g.phase = .cached)
    (hq : r.factory.hash.lookup g.id = some q ∨ r.factory.unregisteredHash.lookup g.id = some q) :
    q = p := by
  rcases (h.cached p g hl hc).2 with hp | hp <;> rcases hq with hq | hq
  · exact Option.some.inj (hq.symm.trans hp)
  · have := (h.hash _ _ hp).1
    have := (h.unregistered _ _ hq).1
    omega
  · have := (h.unregistered _ _ hp).1
    have := (h.hash _ _ hq).1
    omega
  · exact Option.some.inj (hq.symm.trans hp)

/-- The same for any object whose destructor touches the tables, when `-1` is not in use. -/
theorem eq_of_entry (h : Inv r) (hl : r.objects.lookup p = some g)
    (hok : g.phase ≠ .cached → (-1 : Int) ∉ r.factory.unregisteredHash)
    (hq : r.factory.hash.lookup g.id = some q ∨ r.factory.unregisteredHash.lookup g.id = some q) :
    q = p := by
  by_cases hc : g.phase = .cached
  · exact h.eq_of_cached hl hc hq
  · have hid := h.uncached p g hl hc
    rcases hq with hq | hq
    · have := (h.hash _ _ hq).1
      omega
    · rw [hid] at hq
      exact absurd (mem_of_lookup hq) (hok hc)

theorem not_hash_of_neg (h : Inv r) (hneg : id < 0) : id ∉ r.factory.hash := by
  intro hm
  obtain ⟨q, hq⟩ := mem_iff_lookup.mp hm
  have := (h.hash _ _ hq).1
  omega

/-- A live entity with the id `-1` is in `unregistered_hash_`, or is a temporary node. -/
theorem mem_of_cached_neg (h : Inv r) (hl : r.objects.lookup p = some g) (hc : g.phase = .cached)
    (hid : g.id = -1) : (-1 : Int) ∈ r.factory.unregisteredHash := by
  rcases (h.cached p g hl hc).2 with hp | hp
  · have := (h.hash _ _ hp).1
    omega
  · rw [← hid]
    exact mem_of_lookup hp

theorem registryOk (h : Inv r) : RegistryOk r where
  getGraphML p g hl hc := by
    unfold EntityFactory.getGraphML
    rcases (h.cached p g hl hc).2 with hp | hp
    · rw [if_pos (mem_of_lookup hp), hp]
    · rw [if_neg (h.not_hash_of_neg (h.unregistered _ _ hp).1), if_pos (mem_of_lookup hp), hp]
  disjoint id := by
    rintro ⟨hm, hu⟩
    obtain ⟨q, hq⟩ := mem_iff_lookup.mp hu
    exact h.not_hash_of_neg (h.unregistered _ _ hq).1 hm
  unique p q g g' hp hq heq := by
    rcases hp.cached_or with hc | hc <;> rcases hq.cached_or with hc' | hc'
    · exact h.eq_of_cached hq.lookup hc' (heq ▸ (h.cached p g hp.lookup hc).2)
    · have hid := h.uncached q g' hq.lookup (by simp [hc'])
      exact absurd (h.mem_of_cached_neg hp.lookup hc (heq.trans hid)) (h.temporary q g' hq hc').1
    · have hid := h.uncached p g hp.lookup (by simp [hc])
      exact absurd (h.mem_of_cached_neg hq.lookup hc' (heq.symm.trans hid))
        (h.temporary p g hp hc).1
    · exact (h.temporary q g' hq hc').2 p g hp hc

end Inv

/-! ## One event -/

theorem withObject_eq_some {ready : GraphML → Bool} {k : GraphML → Option Registry} :
    r.withObject p ready k = some r' ↔
      ∃ g, r.objects.lookup p = some g ∧ ready g = true ∧ k g = some r' := by
  simp only [withObject, Option.bind_eq_some_iff]
  refine exists_congr fun g => and_congr_right fun _ => ?_
  split <;> simp_all

theorem CachedAt.insert_ne {objects : Table Ptr GraphML} (h : CachedAt objects id q) (hne : q ≠ p) :
    CachedAt (objects.insert p g) id q := by
  obtain ⟨g', hl, hg'⟩ := h
  exact ⟨g', by rw [lookup_insert, if_neg hne, hl], hg'⟩

theorem CachedAt.erase_ne {objects : Table Ptr GraphML} (h : CachedAt objects id q) (hne : q ≠ p) :
    CachedAt (objects.erase p) id q := by
  obtain ⟨g', hl, hg'⟩ := h
  exact ⟨g', by rw [lookup_erase, if_neg hne, hl], hg'⟩

theorem LiveEntity.of_erase {objects : Table Ptr GraphML} (h : LiveEntity (objects.erase p) q g) :
    q ≠ p ∧ LiveEntity objects q g := by
  obtain ⟨hl, hr, hk⟩ := h
  rw [lookup_erase] at hl
  split at hl
  · cases hl
  · rename_i hne
    exact ⟨hne, hl, hr, hk⟩

theorem LiveEntity.of_insert {objects : Table Ptr GraphML}
    (h : LiveEntity (objects.insert p g) q g') :
    (q = p ∧ g' = g) ∨ (q ≠ p ∧ LiveEntity objects q g') := by
  obtain ⟨hl, hr, hk⟩ := h
  rw [lookup_insert] at hl
  split at hl
  · rename_i heq
    exact .inl ⟨heq, (Option.some.inj hl).symm⟩
  · rename_i hne
    exact .inr ⟨hne, hl, hr, hk⟩

/-- No table has an entry for an object that was never cached. -/
theorem CachedAt.ne_of_uncached {objects : Table Ptr GraphML} (h : CachedAt objects id q)
    (hl : objects.lookup p = some g) (hu : g.phase ≠ .cached) : q ≠ p := by
  rintro rfl
  obtain ⟨g', hl', hc, -⟩ := h
  rw [hl] at hl'
  exact hu (Option.some.inj hl' ▸ hc)

/-- A new object, or one that moves on without being cached, keeps tables and objects in
agreement. -/
theorem Inv.insert_uncached (h : Inv r) (hid : g.id = -1) (hu : g.phase ≠ .cached)
    (hp : ∀ id, ¬ CachedAt r.objects id p)
    (ht : g.phase = .uncached → g.kind.hasEntry →
      (-1 : Int) ∉ r.factory.unregisteredHash ∧ ¬ HasTemporary r.objects) :
    Inv { r with objects := r.objects.insert p g } where
  hash := h.hash.mono fun id q _ hq =>
    ⟨hq.1, hq.2.insert_ne fun heq => hp id (heq ▸ hq.2)⟩
  unregistered := h.unregistered.mono fun id q _ hq =>
    ⟨hq.1, hq.2.1, hq.2.2.insert_ne fun heq => hp id (heq ▸ hq.2.2)⟩
  idCounter := h.idCounter
  unregisteredIdCounter := h.unregisteredIdCounter
  reusable := h.reusable
  reusable_nodup := h.reusable_nodup
  cached q g' hl hc := by
    rw [lookup_insert] at hl
    split at hl
    · exact absurd (Option.some.inj hl ▸ hc) hu
    · exact h.cached q g' hl hc
  uncached q g' hl hc := by
    rw [lookup_insert] at hl
    split at hl
    · rw [← Option.some.inj hl, hid]
    · exact h.uncached q g' hl hc
  temporary q g' hl hc := by
    rcases hl.of_insert with ⟨rfl, rfl⟩ | ⟨-, hold⟩
    · refine ⟨(ht hc hl.kind).1, fun q' g'' hl' hc' => ?_⟩
      rcases hl'.of_insert with ⟨heq, -⟩ | ⟨-, hold'⟩
      · exact heq
      · exact absurd (hold'.hasTemporary hc') (ht hc hl.kind).2
    · refine ⟨(h.temporary q g' hold hc).1, fun q' g'' hl' hc' => ?_⟩
      rcases hl'.of_insert with ⟨-, rfl⟩ | ⟨-, hold'⟩
      · exact absurd (hold.hasTemporary hc) (ht hc' hl'.kind).2
      · exact (h.temporary q g' hold hc).2 q' g'' hold' hc'

/-! ### Destructors -/

/-- An entry that is left after `~GraphML` was there before, under another id. -/
theorem lookup_of_delete :
    ((r.deleteGraphML p g).factory.hash.lookup id = some q →
      r.factory.hash.lookup id = some q ∧ (g.kind.hasEntry → id ≠ g.id)) ∧
    ((r.deleteGraphML p g).factory.unregisteredHash.lookup id = some q →
      r.factory.unregisteredHash.lookup id = some q ∧ (g.kind.hasEntry → id ≠ g.id)) := by
  simp only [deleteGraphML, EntityFactory.deregisterGraphML]
  split
  · simp only [lookup_erase]
    constructor <;> split <;> simp_all
  · simp_all

theorem delete_counters (r : Registry) (p : Ptr) (g : GraphML) :
    (r.deleteGraphML p g).factory.idCounter = r.factory.idCounter ∧
    (r.deleteGraphML p g).factory.unregisteredIdCounter = r.factory.unregisteredIdCounter ∧
    (r.deleteGraphML p g).factory.resuableUnregisteredIds =
      r.factory.resuableUnregisteredIds := by
  simp only [deleteGraphML, EntityFactory.deregisterGraphML]
  split <;> simp

theorem mem_of_mem_delete (hm : id ∈ (r.deleteGraphML p g).factory.unregisteredHash) :
    id ∈ r.factory.unregisteredHash := by
  obtain ⟨q, hq⟩ := mem_iff_lookup.mp hm
  exact mem_of_lookup (lookup_of_delete.2 hq).1

/-- Running `~GraphML` of `p` takes out at most `p`'s own entry. -/
theorem keepsOthers_delete (h : Inv r) (hl : r.objects.lookup p = some g)
    (hok : g.phase ≠ .cached → g.kind.hasEntry → (-1 : Int) ∉ r.factory.unregisteredHash) :
    KeepsOthers p r (r.deleteGraphML p g) := by
  intro id q hne
  simp only [deleteGraphML, EntityFactory.deregisterGraphML]
  split
  · rename_i hk
    simp only [lookup_erase]
    constructor <;> intro hq <;> rw [if_neg] <;> try exact hq
    · rintro rfl
      exact hne (h.eq_of_entry hl (fun hu => hok hu hk) (.inl hq))
    · rintro rfl
      exact hne (h.eq_of_entry hl (fun hu => hok hu hk) (.inr hq))
  · exact ⟨fun hq => hq, fun hq => hq⟩

theorem Inv.delete (h : Inv r) (hl : r.objects.lookup p = some g)
    (hok : g.phase ≠ .cached → g.kind.hasEntry → (-1 : Int) ∉ r.factory.unregisteredHash) :
    Inv (r.deleteGraphML p g) := by
  have hkeep := keepsOthers_delete h hl hok
  obtain ⟨hcount, hucount, hreuse⟩ := delete_counters r p g
  -- an entry left under an id other than `g.id` is not an entry of `p`
  have hleft : ∀ {id q}, CachedAt r.objects id q → (g.kind.hasEntry → id ≠ g.id) →
      CachedAt (r.deleteGraphML p g).objects id q := by
    intro id q hq hne
    refine hq.erase_ne ?_
    rintro rfl
    obtain ⟨g', hl', hc', hid⟩ := hq
    obtain rfl := Option.some.inj (hl.symm.trans hl')
    exact hne (h.cached _ _ hl hc').1 hid.symm
  refine
    { hash := fun id q hq => ?_
      unregistered := fun id q hq => ?_
      idCounter := hcount ▸ h.idCounter
      unregisteredIdCounter := hucount ▸ h.unregisteredIdCounter
      reusable := fun id hid => ?_
      reusable_nodup := hreuse ▸ h.reusable_nodup
      cached := fun q g' hq hc => ?_
      uncached := fun q g' hq hc => ?_
      temporary := fun q g' hq hc => ?_ }
  · obtain ⟨hq, hne⟩ := lookup_of_delete.1 hq
    exact ⟨(h.hash id q hq).1, hleft (h.hash id q hq).2 hne⟩
  · obtain ⟨hq, hne⟩ := lookup_of_delete.2 hq
    obtain ⟨hneg, hle, hat⟩ := h.unregistered id q hq
    exact ⟨hneg, hucount ▸ hle, hleft hat hne⟩
  · obtain ⟨hneg, hle, hfree⟩ := h.reusable id (hreuse ▸ hid)
    exact ⟨hneg, hucount ▸ hle, fun hm => hfree (mem_of_mem_delete hm)⟩
  · simp only [deleteGraphML, lookup_erase] at hq
    split at hq
    · cases hq
    · rename_i hne
      obtain ⟨hk, hentry⟩ := h.cached q g' hq hc
      exact ⟨hk, hentry.imp (hkeep _ _ hne).1 (hkeep _ _ hne).2⟩
  · simp only [deleteGraphML, lookup_erase] at hq
    split at hq
    · cases hq
    · exact h.uncached q g' hq hc
  · obtain ⟨-, hq⟩ := LiveEntity.of_erase hq
    obtain ⟨hfree, hone⟩ := h.temporary q g' hq hc
    exact ⟨fun hm => hfree (mem_of_mem_delete hm),
      fun q' g'' hq' hc' => hone q' g'' (LiveEntity.of_erase hq').2 hc'⟩

/-! ### Caching -/

/-- **The id of a cached entity** is negative and not in use, and is not handed out again before it
is given back. -/
theorem Inv.getUnregisteredFreeID (h : Inv r) :
    ∃ id f, r.factory.getUnregisteredFreeID = (id, f) ∧
      id < 0 ∧ id ∉ r.factory.unregisteredHash ∧ f.unregisteredIdCounter ≤ id ∧
      f.hash = r.factory.hash ∧ f.unregisteredHash = r.factory.unregisteredHash ∧
      f.idCounter = r.factory.idCounter ∧
      f.unregisteredIdCounter ≤ r.factory.unregisteredIdCounter ∧
      f.resuableUnregisteredIds.Sublist r.factory.resuableUnregisteredIds ∧
      id ∉ f.resuableUnregisteredIds := by
  unfold EntityFactory.getUnregisteredFreeID
  split
  · rename_i id ids hids
    obtain ⟨hneg, hle, hfree⟩ := h.reusable id (by simp [hids])
    have hnd := h.reusable_nodup
    rw [hids, List.nodup_cons] at hnd
    refine ⟨_, _, rfl, hneg, hfree, hle, rfl, rfl, rfl, Int.le_refl _, ?_, hnd.1⟩
    rw [hids]
    exact List.sublist_cons_self id ids
  · rename_i hids
    have := h.unregisteredIdCounter
    refine ⟨_, _, rfl, by omega, fun hm => ?_, Int.le_refl _, rfl, rfl, rfl, ?_, ?_, by simp [hids]⟩
    · obtain ⟨q, hq⟩ := mem_iff_lookup.mp hm
      have := (h.unregistered _ _ hq).2.1
      omega
    · show r.factory.unregisteredIdCounter - 1 ≤ r.factory.unregisteredIdCounter
      omega
    · exact List.Sublist.refl _

theorem Inv.cache (h : Inv r) (hl : r.objects.lookup p = some g) (hu : g.phase = .constructing)
    (hk : g.kind.hasEntry)
    (hok : r.factory.getUnregisteredFreeID.1 = -1 → ¬ HasTemporary r.objects) :
    Inv (r.cacheEntityAsUnregistered p g) := by
  obtain ⟨id, f, heq, hneg, hfree, hcid, hhash, hunreg, hcount, hucount, hsub, hnot⟩ :=
    h.getUnregisteredFreeID
  have hstate : r.cacheEntityAsUnregistered p g =
      { factory := { f with unregisteredHash := f.unregisteredHash.insert id p }
        objects := r.objects.insert p { g with phase := .cached, id := id } } := by
    simp only [cacheEntityAsUnregistered, heq, setID]
    rw [if_neg (hunreg ▸ hfree)]
  have hnew : CachedAt (r.objects.insert p { g with phase := .cached, id := id }) id p :=
    ⟨_, AList.lookup_insert _, rfl, rfl⟩
  have hold : ∀ {id' q}, CachedAt r.objects id' q →
      CachedAt (r.objects.insert p { g with phase := .cached, id := id }) id' q :=
    fun hq => hq.insert_ne (hq.ne_of_uncached hl (by simp [hu]))
  rw [hstate]
  refine
    { hash := hhash ▸ h.hash.mono fun _ _ _ hq => ⟨hq.1, hold hq.2⟩
      unregistered := Entries.insert (hunreg ▸ h.unregistered.mono fun _ _ _ hq =>
        ⟨hq.1, Int.le_trans hucount hq.2.1, hold hq.2.2⟩) ⟨hneg, hcid, hnew⟩
      idCounter := hcount ▸ h.idCounter
      unregisteredIdCounter := Int.le_trans hucount h.unregisteredIdCounter
      reusable := fun id' hid => ?_
      reusable_nodup := h.reusable_nodup.sublist hsub
      cached := fun q g' hq hc => ?_
      uncached := fun q g' hq hc => ?_
      temporary := fun q g' hq hc => ?_ }
  · obtain ⟨hneg', hle, hfree'⟩ := h.reusable id' (hsub.subset hid)
    refine ⟨hneg', Int.le_trans hucount hle, fun hm => ?_⟩
    rcases (AList.mem_insert _).mp hm with rfl | hm
    · exact hnot hid
    · exact hfree' (hunreg ▸ hm)
  · simp only [lookup_insert, hhash, hunreg] at hq ⊢
    split at hq
    · rename_i heq'
      obtain rfl := Option.some.inj hq
      exact ⟨hk, .inr (by simp [heq'])⟩
    · obtain ⟨hk', hentry⟩ := h.cached q g' hq hc
      refine ⟨hk', hentry.imp_right fun he => ?_⟩
      rwa [if_neg fun heq' : g'.id = id => hfree (heq' ▸ mem_of_lookup he)]
  · rw [lookup_insert] at hq
    split at hq
    · exact absurd (Option.some.inj hq ▸ rfl) hc
    · exact h.uncached q g' hq hc
  · rcases hq.of_insert with ⟨-, rfl⟩ | ⟨-, hold'⟩
    · cases hc
    · refine ⟨fun hm => ?_, fun q' g'' hq' hc' => ?_⟩
      · rcases (AList.mem_insert _).mp hm with heq' | hm
        · exact hok (by rw [heq, ← heq']) (hold'.hasTemporary hc)
        · exact (h.temporary q g' hold' hc).1 (hunreg ▸ hm)
      · rcases hq'.of_insert with ⟨-, rfl⟩ | ⟨-, hq'⟩
        · cases hc'
        · exact (h.temporary q g' hold' hc).2 q' g'' hq' hc'

/-! ### Registering -/

/-- **`RegisterEntity` of a cached entity**: it is registered already, or it moves to a free
positive id and gives the temporary one back. -/
theorem Inv.registerEntity (h : Inv r) (hl : r.objects.lookup p = some g)
    (hc : g.phase = .cached) (desired : Int) :
    r.registerEntity p g desired = some (.ok false, r) ∨
    ∃ id c, 0 < id ∧ id ∉ r.factory.hash ∧ 0 ≤ c ∧
      r.factory.unregisteredHash.lookup g.id = some p ∧
      r.registerEntity p g desired = some (.ok true,
        { factory :=
            { r.factory with
              hash := r.factory.hash.insert id p
              unregisteredHash := r.factory.unregisteredHash.erase g.id
              resuableUnregisteredIds := r.factory.resuableUnregisteredIds ++ [g.id]
              idCounter := c }
          objects := r.objects.insert p { g with id := id } }) := by
  rcases (h.cached p g hl hc).2 with hp | hp
  · exact .inl (by simp [Registry.registerEntity, EntityFactory.unsafeIsEntityRegistered, hp])
  · have hneg := (h.unregistered _ _ hp).1
    have hnot : ¬ r.factory.unsafeIsEntityRegistered p g := by
      simp only [EntityFactory.unsafeIsEntityRegistered, decide_eq_true_eq]
      exact fun hm => h.not_hash_of_neg hneg (mem_of_lookup hm)
    obtain ⟨id, c, heq, hpos, hfree, hc⟩ := EntityFactory.getFreeID_spec
      { r.factory with
        unregisteredHash := r.factory.unregisteredHash.erase g.id
        resuableUnregisteredIds := r.factory.resuableUnregisteredIds ++ [g.id] } h.idCounter desired
    refine .inr ⟨id, c, hpos, hfree, hc, hp, ?_⟩
    simp only [Registry.registerEntity, hnot, EntityFactory.unregisterTempID, mem_of_lookup hp,
      if_true, heq, Option.map_some, setID]
    rw [if_neg (by simp), if_neg (by omega), if_neg hfree]

theorem Inv.register (h : Inv r) (hl : r.objects.lookup p = some g) (hc : g.phase = .cached)
    {desired : Int} {res : Except String Bool} (hr : r.registerEntity p g desired = some (res, r')) :
    Inv r' := by
  rcases h.registerEntity hl hc desired with heq | ⟨id, c, hpos, hfree, hcount, hp, heq⟩ <;>
    rw [heq] at hr <;> simp only [Option.some.injEq, Prod.mk.injEq] at hr <;>
    obtain ⟨-, rfl⟩ := hr
  · exact h
  · have hneg := (h.unregistered _ _ hp).1
    have hold : ∀ {id' q}, CachedAt r.objects id' q → id' ≠ g.id →
        CachedAt (r.objects.insert p { g with id := id }) id' q := by
      rintro id' q ⟨g', hl', hc', hid⟩ hne
      refine CachedAt.insert_ne ⟨g', hl', hc', hid⟩ ?_
      rintro rfl
      exact hne (Option.some.inj (hl.symm.trans hl') ▸ hid.symm)
    refine
      { hash := Entries.insert (h.hash.mono fun id' _ _ hq => ⟨hq.1, hold hq.2 ?_⟩)
          ⟨hpos, _, AList.lookup_insert _, hc, rfl⟩
        unregistered := fun id' q hq => ?_
        idCounter := hcount
        unregisteredIdCounter := h.unregisteredIdCounter
        reusable := fun id' hid => ?_
        reusable_nodup := ?_
        cached := fun q g' hq hc' => ?_
        uncached := fun q g' hq hc' => ?_
        temporary := fun q g' hq hc' => ?_ }
    · have := hq.1
      omega
    · rw [lookup_erase] at hq
      split at hq
      · cases hq
      · rename_i hne
        obtain ⟨hneg', hle, hat⟩ := h.unregistered _ _ hq
        exact ⟨hneg', hle, hold hat hne⟩
    · simp only [List.mem_append, List.mem_singleton, AList.mem_erase] at hid ⊢
      rcases hid with hid | rfl
      · obtain ⟨hneg', hle, hfree'⟩ := h.reusable _ hid
        exact ⟨hneg', hle, fun hm => hfree' hm.2⟩
      · exact ⟨hneg, (h.unregistered _ _ hp).2.1, fun hm => hm.1 rfl⟩
    · refine List.Nodup.append h.reusable_nodup (List.nodup_singleton _) ?_
      simp only [List.disjoint_singleton]
      exact fun hm => (h.reusable _ hm).2.2 (mem_of_lookup hp)
    · simp only [lookup_insert, lookup_erase] at hq ⊢
      split at hq
      · rename_i heq'
        obtain rfl := Option.some.inj hq
        exact ⟨(h.cached p g hl hc).1, .inl (by simp [heq'])⟩
      · rename_i hne
        obtain ⟨hk, hentry⟩ := h.cached q g' hq hc'
        refine ⟨hk, hentry.imp (fun he => ?_) (fun he => ?_)⟩
        · rwa [if_neg fun heq' : g'.id = id => hfree (heq' ▸ mem_of_lookup he)]
        · rwa [if_neg fun heq' : g'.id = g.id => hne (h.eq_of_cached hl hc (.inr (heq' ▸ he)))]
    · rw [lookup_insert] at hq
      split at hq
      · exact absurd (Option.some.inj hq ▸ hc) hc'
      · exact h.uncached q g' hq hc'
    · rcases hq.of_insert with ⟨-, rfl⟩ | ⟨-, hold'⟩
      · exact absurd hc' (by simp [hc])
      · refine ⟨fun hm => (h.temporary q g' hold' hc').1 (AList.mem_erase.mp hm).2,
          fun q' g'' hq' hc'' => ?_⟩
        rcases hq'.of_insert with ⟨-, rfl⟩ | ⟨-, hq'⟩
        · exact absurd hc'' (by simp [hc])
        · exact (h.temporary q g' hold' hc').2 q' g'' hq' hc''

/-! ## Runs -/

theorem inv_init : Inv {} where
  hash := Entries.empty
  unregistered := Entries.empty
  idCounter := Int.le_refl 0
  unregisteredIdCounter := Int.le_refl 0
  reusable _ h := nomatch h
  reusable_nodup := List.nodup_nil
  cached _ _ h := nomatch h
  uncached _ _ h := nomatch h
  temporary _ _ h := nomatch h.lookup

theorem inv_step {a : Action} (h : Inv r) (hok : Meets r a) (hs : step r a = some r') :
    Inv r' := by
  cases a with
  | construct p kind text =>
    simp only [step] at hs
    split at hs
    · cases hs
    · rename_i hnew
      obtain rfl := Option.some.inj hs
      refine h.insert_uncached rfl (by simp) (fun id hat => ?_) (fun hu => nomatch hu)
      obtain ⟨g, hl, -⟩ := hat
      exact hnew (mem_of_lookup hl)
  | constructorThrew p =>
    obtain ⟨g, hl, -, hs⟩ := withObject_eq_some.mp hs
    obtain rfl := Option.some.inj hs
    exact h.delete hl fun _ hk => hok g hl hk
  | returnUncached p =>
    obtain ⟨g, hl, hready, hs⟩ := withObject_eq_some.mp hs
    simp only [decide_eq_true_eq] at hready
    obtain rfl := Option.some.inj hs
    refine h.insert_uncached (h.uncached p g hl (by simp [hready.1])) (by simp)
      (fun id hat => hat.ne_of_uncached hl (by simp [hready.1]) rfl) fun _ hk => hok g hl hk
  | returnCached p =>
    obtain ⟨g, hl, hready, hs⟩ := withObject_eq_some.mp hs
    simp only [decide_eq_true_eq] at hready
    obtain rfl := Option.some.inj hs
    exact h.cache hl hready.1 hready.2 hok
  | register p desired =>
    obtain ⟨g, hl, hready, hs⟩ := withObject_eq_some.mp hs
    obtain ⟨⟨res, r''⟩, hr, rfl⟩ := Option.map_eq_some_iff.mp hs
    exact h.register hl (of_decide_eq_true hready) hr
  | destruct p =>
    obtain ⟨g, hl, hready, hs⟩ := withObject_eq_some.mp hs
    simp only [decide_eq_true_eq] at hready
    obtain rfl := Option.some.inj hs
    refine h.delete hl fun hu hk => (h.temporary p g ⟨hl, hready, hk⟩ ?_).1
    exact (LiveEntity.cached_or ⟨hl, hready, hk⟩).resolve_left hu

theorem inv_inductive : lts.InductiveBy Meets Inv where
  init h := h ▸ inv_init
  step h hok hs := inv_step h hok hs

/-- A destructor that meets the condition takes out nobody else's entry. -/
theorem keepsOthers_step {a : Action} (h : Inv r) (hok : Meets r a) (hs : step r a = some r')
    (hp : a.destroyed = some p) : KeepsOthers p r r' := by
  cases a with
  | constructorThrew q =>
    obtain rfl := Option.some.inj hp
    obtain ⟨g, hl, -, hs⟩ := withObject_eq_some.mp hs
    obtain rfl := Option.some.inj hs
    exact keepsOthers_delete h hl fun _ hk => hok g hl hk
  | destruct q =>
    obtain rfl := Option.some.inj hp
    obtain ⟨g, hl, hready, hs⟩ := withObject_eq_some.mp hs
    simp only [decide_eq_true_eq] at hready
    obtain rfl := Option.some.inj hs
    refine keepsOthers_delete h hl fun hu hk => (h.temporary q g ⟨hl, hready, hk⟩ ?_).1
    exact (LiveEntity.cached_or ⟨hl, hready, hk⟩).resolve_left hu
  | _ => cases hp

/-- The condition is exact: an event that does not meet it leaves a registry in which ids no longer
identify the live entities. -/
theorem meets_of_registryOk {a : Action} (h : Inv r) (hs : step r a = some r')
    (hok : RegistryOk r') : Meets r a := by
  have hentry : (-1 : Int) ∈ r.factory.unregisteredHash →
      ∃ q g, r.objects.lookup q = some g ∧ g.phase = .cached ∧ g.id = -1 := by
    intro hm
    obtain ⟨q, hq⟩ := mem_iff_lookup.mp hm
    obtain ⟨-, -, g, hg⟩ := h.unregistered _ _ hq
    exact ⟨q, g, hg⟩
  cases a with
  | constructorThrew p =>
    obtain ⟨g, hl, hready, hs⟩ := withObject_eq_some.mp hs
    simp only [decide_eq_true_eq] at hready
    obtain rfl := Option.some.inj hs
    intro g' hl' hk hm
    obtain rfl := Option.some.inj (hl.symm.trans hl')
    obtain ⟨q, gq, hlq, hcq, hidq⟩ := hentry hm
    have hne : q ≠ p := by
      rintro rfl
      rw [hlq] at hl
      simp [← Option.some.inj hl, hcq] at hready
    have hget := hok.getGraphML q gq (by simp [deleteGraphML, hne, hlq]) hcq
    rw [hidq] at hget
    -- both entries of `-1` are gone
    have hid := h.uncached p g hl (by simp [hready])
    simp [EntityFactory.getGraphML, deleteGraphML, EntityFactory.deregisterGraphML, hk, hid] at hget
  | returnUncached p =>
    obtain ⟨g, hl, hready, hs⟩ := withObject_eq_some.mp hs
    simp only [decide_eq_true_eq] at hready
    obtain rfl := Option.some.inj hs
    intro g' hl' hk
    obtain rfl := Option.some.inj (hl.symm.trans hl')
    have hid := h.uncached p g hl (by simp [hready.1])
    have hp : LiveEntity (r.objects.insert p { g with phase := .uncached }) p
        { g with phase := .uncached } := ⟨AList.lookup_insert _, by simp, hk⟩
    have hclash : ∀ q gq, r.objects.lookup q = some gq → gq.phase ≠ .constructing →
        gq.kind.hasEntry → gq.id ≠ -1 := by
      intro q gq hlq hpq hkq hidq
      have hne : q ≠ p := by
        rintro rfl
        rw [hlq] at hl
        exact hpq (Option.some.inj hl ▸ hready.1)
      exact hne (hok.unique q p gq _ ⟨by simp [hne, hlq], hpq, hkq⟩ hp
        (hidq.trans hid.symm))
    refine ⟨fun hm => ?_, ?_⟩
    · obtain ⟨q, gq, hlq, hcq, hidq⟩ := hentry hm
      exact hclash q gq hlq (by simp [hcq]) (h.cached q gq hlq hcq).1 hidq
    · rintro ⟨q, -, gq, hlq, hpq, hkq⟩
      exact hclash q gq hlq (by simp [hpq]) hkq (h.uncached q gq hlq (by simp [hpq]))
  | returnCached p =>
    obtain ⟨g, hl, hready, hs⟩ := withObject_eq_some.mp hs
    simp only [decide_eq_true_eq] at hready
    obtain rfl := Option.some.inj hs
    rintro hid ⟨q, -, gq, hlq, hpq, hkq⟩
    have hne : q ≠ p := by
      rintro rfl
      rw [hlq] at hl
      have := Option.some.inj hl ▸ hready.1
      simp [hpq] at this
    have hq : LiveEntity (r.cacheEntityAsUnregistered p g).objects q gq :=
      ⟨by simpa [cacheEntityAsUnregistered, setID, hne] using hlq, by simp [hpq], hkq⟩
    have hp : LiveEntity (r.cacheEntityAsUnregistered p g).objects p
        { g with phase := .cached, id := -1 } :=
      ⟨by simp [cacheEntityAsUnregistered, setID, hid], by simp, hready.2⟩
    exact hne (hok.unique q p gq _ hq hp (h.uncached q gq hlq (by simp [hpq])))
  | _ => trivial

/-- **Ids identify the live entities** in every run that never gives `-1` to two objects: a lookup
by a cached entity's id finds it, the tables are disjoint, ids are unique, and a destructor removes
no other entity's entry. -/
theorem registry_ok_of_reachBy (h : lts.ReachBy Meets r) :
    RegistryOk r ∧ ∀ a r' p, Meets r a → step r a = some r' → a.destroyed = some p →
      KeepsOthers p r r' :=
  have hi := inv_inductive.reach h
  ⟨hi.registryOk, fun _ _ _ hok hs hp => keepsOthers_step hi hok hs hp⟩

/-- A node and a key are registered, then a temporary node comes and goes while `-1` is free. -/
theorem registry_ok_of_reachBy_temporary :
    ∃ r, lts.ReachBy Meets r ∧ r.factory.getGraphML 7 = some 1 ∧
      r.objects.lookup 3 = some { kind := .node, text := "Variable", phase := .uncached } ∧
      RegistryOk r ∧ ∀ r', step r (.destruct 3) = some r' → KeepsOthers 3 r r' := by
  have hrun : (Lts.runBy step Meets {} (createNode 1 "Model" false ++ [.register 1 7] ++
      getKey 2 "label" ++ createNode 3 "Variable" true)).map
        (fun r => (r.factory.getGraphML 7, r.objects.lookup 3)) =
      some (some 1, some { kind := .node, text := "Variable", phase := .uncached }) := by
    decide
  obtain ⟨r, hr, hview⟩ := Option.map_eq_some_iff.mp hrun
  obtain ⟨hget, hl⟩ := Prod.mk.inj hview
  have hreach : lts.ReachBy Meets r := Lts.reachBy_of_runBy hr
  have h := registry_ok_of_reachBy hreach
  exact ⟨r, hreach, hget, hl, h.1, fun r' hs => h.2 (.destruct 3) r' 3 trivial hs rfl⟩

/-- **A failed edge makes a live node unfindable**: the first entity is cached under `-1`, and an
edge whose constructor throws dies with the id `-1` and takes the node's entry with it. -/
theorem edge_failure_drops_node :
    ¬ ∀ r, lts.Reach r → RegistryOk r ∧ ∀ a r' p, step r a = some r' → a.destroyed = some p →
      KeepsOthers p r r' := by
  intro h
  have hrun : (Lts.run step {} (createNode 1 "Model" false ++ createEdge 2 "Edge" true)).map
      (fun r => (r.objects.lookup 1, r.factory.getGraphML (-1))) =
        some (some { kind := .node, text := "Model", id := -1, phase := .cached }, none) := by
    decide
  obtain ⟨r, hr, hview⟩ := Option.map_eq_some_iff.mp hrun
  obtain ⟨hl, hget⟩ := Prod.mk.inj hview
  have := (h r (Lts.reach_of_run hr)).1.getGraphML 1 _ hl rfl
  rw [hget] at this
  cases this

end Registry

end Sem.Medea
