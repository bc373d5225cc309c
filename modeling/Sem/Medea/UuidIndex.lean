import Sem.Medea.RegistryEntries
import Sem.Medea.UuidLookup

/-!
# Lookups by UUID in every run

`uuid_lookup_` is an index from labels to ids in the sense of `View.Indexes`, and each event is one
of the changes of a view. Nothing keeps the index right by itself: an entity's entry outlives it,
blocks the UUID for others and comes back to life with the id, and when one of two entities with the
same UUID changes it, the entry of both is gone.

* `indexes_step_iff`: an event leaves a right index exactly if it meets the condition.
* `finds_iff_of_reachBy`: in every run whose events meet it, a lookup is right exactly if the UUID
  has an entry or no other entity is held under the id `-1`.
* `not_forall_finds`: a UUID that is given to a second entity after the first one is destroyed.
-/

namespace Sem.Medea

open Table

namespace UuidRegistry

variable {qt : Qt} {s s' : UuidRegistry} {p q : Ptr} {g : GraphML} {id : Int} {uuid : String}

/-! ## The view -/

theorem label_eq (s : UuidRegistry) (id : Int) :
    s.view.label id = ((s.factory.hash.lookup id).bind s.asEntity).map s.uuids.lookup := rfl

theorem asEntity_of_lookup (hl : s.objects.lookup p = some g) :
    s.asEntity p = if g.kind.isEntity then some p else none := by
  simp [Registry.asEntity, hl]

theorem asEntity_eq_some (h : s.asEntity p = some q) : q = p := by
  unfold Registry.asEntity at h
  split at h
  · split at h
    · exact (Option.some.inj h).symm
    · cases h
  · exact (Option.some.inj h).symm

/-- The label of an object that is registered under `id`. -/
theorem label_of_hash (hp : s.factory.hash.lookup id = some p) (hl : s.objects.lookup p = some g) :
    s.view.label id = if g.kind.isEntity then some (s.uuids.lookup p) else none := by
  rw [label_eq, hp, Option.bind_some, asEntity_of_lookup hl]
  split <;> rfl

theorem label_of_not_hash (hid : id ∉ s.factory.hash) : s.view.label id = none := by
  rw [label_eq, AList.lookup_eq_none.mpr hid]
  rfl

theorem label_congr (hhash : s'.factory.hash.lookup id = s.factory.hash.lookup id)
    (hq : ∀ q, s.factory.hash.lookup id = some q →
      s'.objects.lookup q = s.objects.lookup q ∧ s'.uuids.lookup q = s.uuids.lookup q) :
    s'.view.label id = s.view.label id := by
  rw [label_eq, label_eq, hhash]
  cases hl : s.factory.hash.lookup id with
  | none => rfl
  | some q =>
    obtain ⟨hobj, huuid⟩ := hq q hl
    have hentity : s'.asEntity q = s.asEntity q := by
      unfold Registry.asEntity
      rw [hobj]
    rw [Option.bind_some, Option.bind_some, hentity]
    cases he : s.asEntity q with
    | none => rfl
    | some q' =>
      rw [asEntity_eq_some he, Option.map_some, Option.map_some, huuid]

/-- Who has a UUID, by the ids of the view. -/
theorem hasUuid_iff (h : s.Placed) (hl : s.objects.lookup p = some g) :
    s.HasUuid p uuid ↔ 0 < g.id ∧ s.view.Has g.id uuid := by
  constructor
  · rintro ⟨g', hl', hkind, hreg, huuid⟩
    obtain rfl := Option.some.inj (hl.symm.trans hl')
    have hpos := (h.isRegistered_iff hl).mp hreg
    refine ⟨hpos, ?_⟩
    show s.view.label g.id = some (some uuid)
    rw [label_of_hash (h.registered p g hl hpos) hl, if_pos hkind, huuid]
  · rintro ⟨hpos, hhas⟩
    have hlabel : s.view.label g.id = some (some uuid) := hhas
    rw [label_of_hash (h.registered p g hl hpos) hl] at hlabel
    split at hlabel
    · rename_i hkind
      exact ⟨g, hl, hkind, (h.isRegistered_iff hl).mpr hpos, Option.some.inj hlabel⟩
    · cases hlabel

/-- An id with a UUID is the id of a registered node or edge. -/
theorem hasUuid_of_has (h : s.Placed) (hhas : s.view.Has id uuid) :
    ∃ p g, s.factory.hash.lookup id = some p ∧ s.objects.lookup p = some g ∧ g.id = id ∧
      s.HasUuid p uuid := by
  obtain ⟨p, hp⟩ : ∃ p, s.factory.hash.lookup id = some p := by
    by_contra hnone
    have hid : id ∉ s.factory.hash := fun hm => hnone (mem_iff_lookup.mp hm)
    have hlabel : s.view.label id = some (some uuid) := hhas
    rw [label_of_not_hash hid] at hlabel
    cases hlabel
  obtain ⟨hpos, g, hl, -, rfl⟩ := h.hash id p hp
  exact ⟨p, g, hp, hl, rfl, (hasUuid_iff h hl).mpr ⟨hpos, hhas⟩⟩

/-! ## The lookup of a right index -/

/-- **A right index makes a right lookup**, but for the id `-1` that stands for no entry. -/
theorem finds_iff (h : s.Placed) (hindex : View.Indexes s.uuidLookup s.view)
    (hpos : Entries s.uuidLookup fun _ id => 0 < id) : s.Finds uuid ↔ s.DefaultMeets uuid := by
  have hhash : ∀ {id}, 0 < id → s.factory.getGraphML id = s.factory.hash.lookup id := by
    intro id hid
    unfold EntityFactory.getGraphML
    by_cases hm : id ∈ s.factory.hash
    · rw [if_pos hm]
    · have hu : id ∉ s.factory.unregisteredHash := by
        intro hm'
        obtain ⟨q, hq⟩ := mem_iff_lookup.mp hm'
        have := (h.unregistered _ _ hq).1
        omega
      rw [if_neg hm, if_neg hu, AList.lookup_eq_none.mpr hm]
  -- a UUID that one entity has to itself has an entry
  have hentry : ∀ p, s.HasUuid p uuid → (∀ q, s.HasUuid q uuid → q = p) →
      ∃ id, s.uuidLookup.lookup uuid = some id ∧ s.getEntity id = some p := by
    intro p hp huniq
    obtain ⟨g, hl, hkind, hreg, huuid⟩ := hp
    obtain ⟨hgpos, hhas⟩ := (hasUuid_iff h hl).mp ⟨g, hl, hkind, hreg, huuid⟩
    refine ⟨g.id, hindex.complete uuid g.id (View.sole_iff.mpr ⟨hhas, fun id hid => ?_⟩), ?_⟩
    · obtain ⟨q, gq, -, hlq, rfl, hq⟩ := hasUuid_of_has h hid
      obtain rfl := huniq q hq
      rw [hl] at hlq
      rw [Option.some.inj hlq]
    · rw [Registry.getEntity, hhash hgpos, h.registered p g hl hgpos, Option.bind_some,
        asEntity_of_lookup hl, if_pos hkind]
  constructor
  · intro hf huuid p hp
    refine (hf.sound p ?_).2
    rw [getEntityByUUID, AList.lookup_eq_none.mpr huuid, Option.getD_none]
    exact hp
  · intro hdefault
    refine ⟨fun p hp => ?_, fun p hp huniq => ?_⟩
    · unfold getEntityByUUID at hp
      have hmem : p ∈ s.objects := by
        obtain ⟨q, hq, he⟩ := Option.bind_eq_some_iff.mp hp
        rw [asEntity_eq_some he]
        exact h.mem_of_getGraphML hq
      refine ⟨hmem, ?_⟩
      cases hlook : s.uuidLookup.lookup uuid with
      | none =>
        rw [hlook, Option.getD_none] at hp
        exact hdefault (AList.lookup_eq_none.mp hlook) p hp
      | some id =>
        rw [hlook, Option.getD_some, Registry.getEntity, hhash (hpos _ _ hlook)] at hp
        refine hindex.sound uuid id hlook (s.uuids.lookup p) ?_
        show s.view.label id = some (s.uuids.lookup p)
        rw [label_eq, hp, Option.map_some]
    · obtain ⟨id, hlook, hget⟩ := hentry p hp huniq
      rw [getEntityByUUID, hlook, Option.getD_some, hget]

/-! ## What the events change -/

/-- The notifier of a registered entity relabels its id. -/
theorem entitiesUUIDChanged_eq (s : UuidRegistry) (g : GraphML) (old new : String) :
    s.entitiesUUIDChanged g old new =
      { s with
        uuidLookup :=
          if 0 < g.id then View.relabel s.uuidLookup g.id old new else s.uuidLookup.erase old } := by
  unfold entitiesUUIDChanged View.relabel
  by_cases hpos : 0 < g.id
  · simp only [if_pos hpos]
  · simp only [if_neg hpos]

/-- **Setting a UUID** leaves a right index exactly if it meets the condition. `old` is the UUID the
entity has, or one that it was given without a notice. -/
theorem setData_iff (h : s.Placed) (hindex : View.Indexes s.uuidLookup s.view)
    (hl : s.objects.lookup p = some g) (hkind : g.kind.isEntity) {old value created : String}
    (hold : ∀ uuid ∈ s.uuids.lookup p, uuid = old) :
    View.Indexes (s.setData qt p g old value created).uuidLookup
        (s.setData qt p g old value created).view ↔
      SetMeets s g old (qt.getUUIDOfValue value created) := by
  unfold setData SetMeets
  rw [entitiesUUIDChanged_eq]
  by_cases hpos : 0 < g.id
  · rw [if_pos hpos, if_pos hpos]
    have hp := h.registered p g hl hpos
    have hself : ∀ t : UuidRegistry, t.toRegistry = s.toRegistry →
        t.view.label g.id = some (t.uuids.lookup p) := by
      intro t ht
      rw [label_of_hash (ht ▸ hp) (ht ▸ hl), if_pos hkind]
    refine View.relabel_iff hindex ⟨?_, fun id hne => ?_⟩ fun uuid hhas => ?_
    · refine (hself _ ?_).trans ?_
      · rfl
      · rw [AList.lookup_insert]
    · refine label_congr rfl fun q hq => ⟨rfl, ?_⟩
      rw [lookup_insert, if_neg]
      rintro rfl
      exact hne (h.id_of_hash hl hq).symm
    · have hlabel : s.view.label g.id = some (some uuid) := hhas
      rw [label_of_hash hp hl, if_pos hkind] at hlabel
      exact hold uuid (Option.some.inj hlabel)
  · rw [if_neg hpos, if_neg hpos]
    have hview : ∀ id, ({ s with
        uuids := s.uuids.insert p (qt.getUUIDOfValue value created)
        uuidLookup := s.uuidLookup.erase old } : UuidRegistry).view.label id =
          s.view.label id := by
      refine fun id => label_congr rfl fun q hq => ⟨rfl, ?_⟩
      rw [lookup_insert, if_neg]
      rintro rfl
      have hid := h.id_of_hash hl hq
      have := (h.hash _ _ hq).1
      omega
    rw [← View.erase_iff hindex]
    exact ⟨fun h' => h'.congr fun id => (hview id).symm, fun h' => h'.congr hview⟩

/-- The events of the registry but `RegisterEntity` leave the registered objects alone that they do
not destroy. -/
theorem life_frame {r r' : Registry} {a : Registry.Action} (id : Int) (h : r.Placed)
    (hs : Registry.step r a = some r') (ha : ∀ p id, a ≠ .register p id)
    (hid : ∀ p ∈ a.destroyed, ∀ g ∈ r.objects.lookup p, id ≠ g.id) :
    r'.factory.hash.lookup id = r.factory.hash.lookup id ∧
      ∀ q, r.factory.hash.lookup id = some q →
        r'.objects.lookup q = r.objects.lookup q ∧ a.destroyed ≠ some q := by
  have hdelete : ∀ {p g}, r.objects.lookup p = some g → id ≠ g.id →
      (r.deleteGraphML p g).factory.hash.lookup id = r.factory.hash.lookup id ∧
        ∀ q, r.factory.hash.lookup id = some q →
          (r.deleteGraphML p g).objects.lookup q = r.objects.lookup q ∧ some p ≠ some q := by
    intro p g hl hne
    constructor
    · simp only [Registry.deleteGraphML, EntityFactory.deregisterGraphML]
      split
      · rw [lookup_erase, if_neg hne]
      · rfl
    · intro q hq
      have hpq : q ≠ p := by
        rintro rfl
        exact hne (h.id_of_hash hl hq).symm
      refine ⟨?_, fun heq => hpq (Option.some.inj heq).symm⟩
      simp only [Registry.deleteGraphML, lookup_erase, if_neg hpq]
  have huncached : ∀ {p g q}, r.objects.lookup p = some g → g.phase = .constructing →
      r.factory.hash.lookup id = some q → q ≠ p :=
    fun hl hu hq => (h.hash _ _ hq).2.ne_of_uncached hl (by simp [hu])
  cases a with
  | construct p kind text =>
    simp only [Registry.step] at hs
    split at hs
    · cases hs
    · rename_i hnew
      obtain rfl := Option.some.inj hs
      refine ⟨rfl, fun q hq => ⟨?_, by simp [Registry.Action.destroyed]⟩⟩
      obtain ⟨-, gq, hlq, -⟩ := h.hash _ _ hq
      rw [lookup_insert, if_neg]
      rintro rfl
      exact hnew (mem_of_lookup hlq)
  | constructorThrew p =>
    obtain ⟨g, hl, -, hs⟩ := Registry.withObject_eq_some.mp hs
    obtain rfl := Option.some.inj hs
    exact hdelete hl (hid p rfl g hl)
  | returnUncached p =>
    obtain ⟨g, hl, hready, hs⟩ := Registry.withObject_eq_some.mp hs
    simp only [decide_eq_true_eq] at hready
    obtain rfl := Option.some.inj hs
    refine ⟨rfl, fun q hq => ⟨?_, by simp [Registry.Action.destroyed]⟩⟩
    rw [lookup_insert, if_neg (huncached hl hready.1 hq)]
  | returnCached p =>
    obtain ⟨g, hl, hready, hs⟩ := Registry.withObject_eq_some.mp hs
    simp only [decide_eq_true_eq] at hready
    obtain rfl := Option.some.inj hs
    obtain ⟨id', f, -, hhash, hstate, -⟩ := h.cache hl hready.1 hready.2
    rw [hstate]
    refine ⟨by rw [hhash], fun q hq => ⟨?_, by simp [Registry.Action.destroyed]⟩⟩
    rw [lookup_insert, if_neg (huncached hl hready.1 hq)]
  | register p desired => exact absurd rfl (ha p desired)
  | destruct p =>
    obtain ⟨g, hl, -, hs⟩ := Registry.withObject_eq_some.mp hs
    obtain rfl := Option.some.inj hs
    exact hdelete hl (hid p rfl g hl)

/-- The id of a destroyed object has no entry in `hash_`. -/
theorem destroyed_not_hash {r r' : Registry} {a : Registry.Action} (h : r.Placed)
    (hs : Registry.step r a = some r') (hd : a.destroyed = some p) :
    ∃ g, r.objects.lookup p = some g ∧ g.id ∉ r'.factory.hash ∧
      (a = .constructorThrew p → g.id = -1) := by
  have hdelete : ∀ {g}, r.objects.lookup p = some g →
      g.id ∉ (r.deleteGraphML p g).factory.hash := by
    intro g hl
    simp only [Registry.deleteGraphML, EntityFactory.deregisterGraphML]
    split
    · simp
    · rename_i hkind
      have hc : g.phase ≠ .cached := fun hc => hkind (h.cached p g hl hc)
      rw [h.uncached p g hl hc]
      exact h.not_hash_of_neg (by omega)
  cases a with
  | constructorThrew q =>
    obtain rfl := Option.some.inj hd
    obtain ⟨g, hl, hready, hs⟩ := Registry.withObject_eq_some.mp hs
    obtain rfl := Option.some.inj hs
    simp only [decide_eq_true_eq] at hready
    exact ⟨g, hl, hdelete hl, fun _ => h.uncached q g hl (by simp [hready])⟩
  | destruct q =>
    obtain rfl := Option.some.inj hd
    obtain ⟨g, hl, -, hs⟩ := Registry.withObject_eq_some.mp hs
    obtain rfl := Option.some.inj hs
    exact ⟨g, hl, hdelete hl, by simp⟩
  | _ => cases hd

/-- **Registering an entity** under `id` leaves a right index exactly if it meets the condition. -/
theorem registered_iff (h : s.Placed) (hindex : View.Indexes s.uuidLookup s.view)
    (hl : s.objects.lookup p = some g) (hneg : g.id < 0) (hpos : 0 < id)
    (hfree : id ∉ s.factory.hash) {c : Int} {created : String}
    (hs : s' = { s with toRegistry := s.moved p g id c }) :
    View.Indexes (s'.entityRegistered qt p created).uuidLookup
        (s'.entityRegistered qt p created).view ↔
      (g.kind.isEntity → RegisterMeets qt s id (s.uuids.lookup p) created) := by
  have hl' : s'.objects.lookup p = some { g with id := id } := by
    rw [hs]
    exact AList.lookup_insert _
  have hp' : s'.factory.hash.lookup id = some p := by
    rw [hs]
    exact AList.lookup_insert _
  have hself : ∀ t : UuidRegistry, t.toRegistry = s'.toRegistry →
      t.view.label id = if g.kind.isEntity then some (t.uuids.lookup p) else none := by
    intro t ht
    exact label_of_hash (g := { g with id := id }) (ht ▸ hp') (ht ▸ hl')
  -- the other ids belong to other objects
  have hother : ∀ t : UuidRegistry, t.toRegistry = s'.toRegistry →
      (∀ q, q ≠ p → t.uuids.lookup q = s.uuids.lookup q) →
      ∀ id', id' ≠ id → t.view.label id' = s.view.label id' := by
    intro t ht huuids id' hne
    have hhash : t.factory.hash.lookup id' = s.factory.hash.lookup id' := by
      rw [ht, hs]
      exact AList.lookup_insert_ne hne
    refine label_congr hhash fun q hq => ?_
    have hqp : q ≠ p := by
      rintro rfl
      have hid := h.id_of_hash hl hq
      have := (h.hash _ _ hq).1
      omega
    refine ⟨?_, huuids q hqp⟩
    rw [ht, hs]
    exact AList.lookup_insert_ne hqp
  have hnone : s.view.label id = none := label_of_not_hash hfree
  have huuids : s'.uuids = s.uuids := by rw [hs]
  have hlookup : s'.uuidLookup = s.uuidLookup := by rw [hs]
  by_cases hkind : g.kind.isEntity
  · unfold entityRegistered
    rw [hl', huuids]
    cases huuid : s.uuids.lookup p with
    | none =>
      simp only [hkind, forall_const, RegisterMeets]
      rw [hlookup, View.unlabel_iff hindex ⟨?_, hother s' rfl fun q _ => by rw [huuids]⟩]
      · refine and_iff_left ?_
        intro x hx
        rw [hnone] at hx
        cases hx
      · rw [hself s' rfl, if_pos hkind, huuids, huuid]
    | some uuid =>
      simp only [hkind, if_true, forall_const, RegisterMeets]
      unfold setData
      rw [entitiesUUIDChanged_eq]
      simp only [if_pos hpos, hlookup, huuids]
      refine View.relabel_iff hindex ⟨?_, hother _ rfl fun q hq => ?_⟩ fun l hhas => ?_
      · refine (hself _ ?_).trans ?_
        · rfl
        · rw [if_pos hkind, AList.lookup_insert]
      · exact AList.lookup_insert_ne hq
      · have hlabel : s.view.label id = some (some l) := hhas
        rw [hnone] at hlabel
        cases hlabel
  · have hview : ∀ id', s'.view.label id' = s.view.label id' := by
      intro id'
      by_cases heq : id' = id
      · rw [heq, hself s' rfl, if_neg hkind, hnone]
      · exact hother s' rfl (fun q _ => by rw [huuids]) id' heq
    have hsame : s'.entityRegistered qt p created = s' := by
      unfold entityRegistered
      rw [hl']
      cases s'.uuids.lookup p with
      | none => rfl
      | some uuid => exact if_neg hkind
    rw [hsame, hlookup]
    exact iff_of_true (hindex.congr hview) fun h => absurd h hkind

/-! ## Every event -/

/-- What holds in every run. -/
structure Inv (s : UuidRegistry) : Prop where
  placed : s.Placed
  index : Entries s.uuidLookup fun _ id => 0 < id

theorem inv_init : Inv {} where
  placed := Registry.Placed.init
  index := Entries.empty

theorem index_setData (h : Entries s.uuidLookup fun _ id => 0 < id) {old value created : String} :
    Entries (s.setData qt p g old value created).uuidLookup fun _ id => 0 < id := by
  unfold setData entitiesUUIDChanged
  have herase : Entries (s.uuidLookup.erase old) fun _ id => 0 < id := Entries.erase h old
  by_cases hpos : 0 < g.id
  · simp only [if_pos hpos]
    split
    · exact herase
    · exact herase.insert hpos
  · simp only [if_neg hpos]
    exact herase

theorem setData_toRegistry {old value created : String} :
    (s.setData qt p g old value created).toRegistry = s.toRegistry := by
  unfold setData
  rw [entitiesUUIDChanged_eq]

theorem entityRegistered_toRegistry {created : String} :
    (s.entityRegistered qt p created).toRegistry = s.toRegistry := by
  unfold entityRegistered
  split
  · split
    · exact setData_toRegistry
    · rfl
  · rfl

theorem index_entityRegistered (h : Entries s.uuidLookup fun _ id => 0 < id) {created : String} :
    Entries (s.entityRegistered qt p created).uuidLookup fun _ id => 0 < id := by
  unfold entityRegistered
  split
  · split
    · exact index_setData h
    · exact h
  · exact h

theorem withEntity_eq_some {k : GraphML → Option String → Option UuidRegistry} :
    s.withEntity p k = some s' ↔
      ∃ g, s.objects.lookup p = some g ∧ g.kind.isEntity ∧ k g (s.uuids.lookup p) = some s' := by
  simp only [withEntity, Option.bind_eq_some_iff]
  refine exists_congr fun g => and_congr_right fun _ => ?_
  split <;> simp_all

/-- What `RegisterEntity` does: nothing, or it moves the object to a free id and sets its UUID. -/
theorem register_cases (h : s.Placed) {desired : Int} {created : String}
    (hs : step qt s (.life (.register p desired) created) = some s') :
    ∃ g, s.objects.lookup p = some g ∧
      ((s' = s ∧ ¬ (g.id ∈ s.factory.unregisteredHash)) ∨
        ∃ id c, 0 < id ∧ id ∉ s.factory.hash ∧ g.id < 0 ∧ g.id ∈ s.factory.unregisteredHash ∧
          s.factory.getFreeID desired = some (id, { s.factory with idCounter := c }) ∧
          (s.moved p g id c).Placed ∧
          s' = entityRegistered qt { s with toRegistry := s.moved p g id c } p created) := by
  simp only [step, Option.bind_eq_some_iff] at hs
  obtain ⟨g, hl, hs⟩ := hs
  refine ⟨g, hl, ?_⟩
  split at hs
  · rename_i hc
    obtain ⟨⟨res, r⟩, hr, heq⟩ := Option.map_eq_some_iff.mp hs
    rcases h.registerEntity hl hc desired with
      ⟨res', hres, hreg, hwhy⟩ | ⟨id, c, hpos, hfree, hneg, hmem, hget, hreg, hplaced⟩
    · rw [hreg] at hr
      simp only [Option.some.injEq, Prod.mk.injEq] at hr
      obtain ⟨rfl, rfl⟩ := hr
      simp only [if_neg hres] at heq
      refine .inl ⟨heq.symm, fun hm => ?_⟩
      obtain ⟨q, hq⟩ := mem_iff_lookup.mp hm
      have := (h.unregistered _ _ hq).1
      exact hwhy.elim (fun hn => hn hm) fun hpos => by omega
    · rw [hreg] at hr
      simp only [Option.some.injEq, Prod.mk.injEq] at hr
      obtain ⟨rfl, rfl⟩ := hr
      simp only [if_true] at heq
      exact .inr ⟨id, c, hpos, hfree, hneg, hmem, hget, hplaced, heq.symm⟩
  · cases hs

/-- The other events of the registry. -/
theorem life_cases {a : Registry.Action} {created : String}
    (hs : step qt s (.life a created) = some s') (ha : ∀ p id, a ≠ .register p id) :
    ∃ r, Registry.step s.toRegistry a = some r ∧
      s' = { s with toRegistry := r, uuids := a.destroyed.elim s.uuids s.uuids.erase } := by
  cases a with
  | register p id => exact absurd rfl (ha p id)
  | _ =>
    obtain ⟨r, hr, rfl⟩ := Option.map_eq_some_iff.mp hs
    exact ⟨r, hr, rfl⟩

theorem inv_step {a : Action} (h : Inv s) (hs : step qt s a = some s') : Inv s' := by
  have hsame : ∀ {t : UuidRegistry}, t.toRegistry = s.toRegistry → t.Placed := by
    intro t ht
    rw [ht]
    exact h.placed
  cases a with
  | life a created =>
    by_cases ha : ∃ p id, a = .register p id
    · obtain ⟨p, desired, rfl⟩ := ha
      obtain ⟨g, -, ⟨rfl, -⟩ | ⟨id, c, -, -, -, -, -, hplaced, rfl⟩⟩ := register_cases h.placed hs
      · exact h
      · refine ⟨?_, index_entityRegistered ?_⟩
        · rw [entityRegistered_toRegistry]
          exact hplaced
        · exact h.index
    · obtain ⟨r, hr, rfl⟩ := life_cases hs fun p id heq => ha ⟨p, id, heq⟩
      exact ⟨Registry.placed_step h.placed hr, h.index⟩
  | addData p value createdValue created =>
    simp only [step] at hs
    obtain ⟨g, -, -, hs⟩ := withEntity_eq_some.mp hs
    split at hs
    · obtain rfl := Option.some.inj hs
      exact ⟨hsame setData_toRegistry, index_setData h.index⟩
    · cases hs
  | setValue p value created =>
    obtain ⟨g, -, -, hs⟩ := withEntity_eq_some.mp hs
    obtain ⟨old, -, rfl⟩ := Option.map_eq_some_iff.mp hs
    exact ⟨hsame setData_toRegistry, index_setData h.index⟩
  | removeData p =>
    obtain ⟨g, -, -, hs⟩ := withEntity_eq_some.mp hs
    obtain ⟨old, -, rfl⟩ := Option.map_eq_some_iff.mp hs
    exact ⟨h.placed, h.index⟩

/-- A destructor takes the label of its object's id, if that has one. -/
theorem changes_destroyed {a : Registry.Action} {r : Registry} (h : s.Placed)
    (hr : Registry.step s.toRegistry a = some r) (hd : a.destroyed = some p)
    (hl : s.objects.lookup p = some g) (hgone : g.id ∉ r.factory.hash)
    (ha : ∀ p id, a ≠ .register p id) :
    View.Changes s.view
      (view { s with toRegistry := r, uuids := a.destroyed.elim s.uuids s.uuids.erase })
      g.id none := by
  refine ⟨label_of_not_hash hgone, fun id hne => ?_⟩
  have hid : ∀ q ∈ a.destroyed, ∀ g' ∈ s.objects.lookup q, id ≠ g'.id := by
    intro q hq g' hg'
    obtain rfl := Option.some.inj (hd.symm.trans hq)
    obtain rfl := Option.some.inj (hl.symm.trans hg')
    exact hne
  obtain ⟨hhash, hobjects⟩ := life_frame id h hr ha hid
  refine label_congr hhash fun q hq => ⟨(hobjects q hq).1, ?_⟩
  have hqp : q ≠ p := fun heq => (hobjects q hq).2 (heq ▸ hd)
  rw [hd]
  exact AList.lookup_erase_ne hqp

/-- **An event leaves a right index exactly if it meets the condition.** -/
theorem indexes_step_iff {a : Action} (h : Inv s) (hindex : View.Indexes s.uuidLookup s.view)
    (hs : step qt s a = some s') :
    View.Indexes s'.uuidLookup s'.view ↔ Meets qt s a := by
  cases a with
  | life a created =>
    by_cases ha : ∃ p id, a = .register p id
    · obtain ⟨p, desired, rfl⟩ := ha
      simp only [Meets]
      obtain ⟨g, hl, ⟨rfl, hmem⟩ | ⟨id, c, hpos, hfree, hneg, hmem, hget, -, rfl⟩⟩ :=
        register_cases h.placed hs
      · refine iff_of_true hindex fun g' hl' _ hmem' => ?_
        obtain rfl := Option.some.inj (hl.symm.trans hl')
        exact absurd hmem' hmem
      · rw [registered_iff h.placed hindex hl hneg hpos hfree rfl, hl, hget]
        simp only [Option.mem_def, Option.some.injEq, forall_eq', hmem, forall_const]
    · have ha' : ∀ p id, a ≠ .register p id := fun p id heq => ha ⟨p, id, heq⟩
      obtain ⟨r, hr, rfl⟩ := life_cases hs ha'
      cases hd : a.destroyed with
      | none =>
        have hview : ∀ id, (view { s with
            toRegistry := r, uuids := a.destroyed.elim s.uuids s.uuids.erase }).label id =
              s.view.label id := by
          intro id
          obtain ⟨hhash, hobjects⟩ := life_frame id h.placed hr ha' (by simp [hd])
          exact label_congr hhash fun q hq => ⟨(hobjects q hq).1, by rw [hd]; rfl⟩
        refine iff_of_true (hd ▸ hindex.congr hview) ?_
        cases a with
        | destruct p => cases hd
        | register p desired => exact absurd rfl (ha' p desired)
        | _ => trivial
      | some p =>
        obtain ⟨g, hl, hgone, hthrew⟩ := destroyed_not_hash h.placed hr hd
        have hchanges := changes_destroyed h.placed hr hd hl hgone ha'
        rw [hd] at hchanges
        rw [show _ ↔ _ from View.forget_iff hindex hchanges]
        cases a with
        | destruct q =>
          obtain rfl := Option.some.inj hd
          simp only [Meets, hl, Option.mem_def, Option.some.injEq, forall_eq']
        | constructorThrew q =>
          obtain rfl := Option.some.inj hd
          refine iff_of_true ?_ trivial
          intro x hx
          rw [hthrew rfl, label_of_not_hash (h.placed.not_hash_of_neg (by omega))] at hx
          cases hx
        | _ => cases hd
  | addData p value createdValue created =>
    simp only [step] at hs
    obtain ⟨g, hl, hkind, hs⟩ := withEntity_eq_some.mp hs
    split at hs
    · rename_i hnone
      obtain rfl := Option.some.inj hs
      rw [setData_iff h.placed hindex hl hkind (by simp [hnone])]
      simp only [Meets, hl, Option.mem_def, Option.some.injEq, forall_eq']
    · cases hs
  | setValue p value created =>
    obtain ⟨g, hl, hkind, hs⟩ := withEntity_eq_some.mp hs
    obtain ⟨old, huuid, rfl⟩ := Option.map_eq_some_iff.mp hs
    rw [setData_iff h.placed hindex hl hkind (by simp [huuid])]
    simp only [Meets, hl, huuid, Option.mem_def, Option.some.injEq, forall_eq']
  | removeData p =>
    obtain ⟨g, hl, hkind, hs⟩ := withEntity_eq_some.mp hs
    obtain ⟨old, huuid, rfl⟩ := Option.map_eq_some_iff.mp hs
    simp only [Meets, hl, Option.mem_def, Option.some.injEq, forall_eq']
    have hother : ∀ id, id ≠ g.id ∨ id ≤ 0 →
        (view { s with uuids := s.uuids.erase p }).label id = s.view.label id := by
      intro id hne
      refine label_congr rfl fun q hq => ⟨rfl, AList.lookup_erase_ne ?_⟩
      rintro rfl
      have hid := h.placed.id_of_hash hl hq
      have := (h.placed.hash _ _ hq).1
      omega
    by_cases hpos : 0 < g.id
    · rw [forall_prop_of_true hpos]
      refine View.unlabel_iff hindex ⟨?_, fun id hne => hother id (.inl hne)⟩
      have hp := h.placed.registered p g hl hpos
      have hself : ∀ t : UuidRegistry, t.toRegistry = s.toRegistry →
          t.view.label g.id = some (t.uuids.lookup p) := by
        intro t ht
        rw [label_of_hash (ht ▸ hp) (ht ▸ hl), if_pos hkind]
      refine (hself _ ?_).trans ?_
      · rfl
      · rw [AList.lookup_erase]
    · refine iff_of_true (hindex.congr fun id => hother id ?_) fun h => absurd h hpos
      by_cases heq : id = g.id
      · exact .inr (by omega)
      · exact .inl heq

/-- The index is right in every run whose events meet the condition. -/
theorem indexes_inductive (qt : Qt) : (lts qt).InductiveBy (Meets qt) fun s =>
    Inv s ∧ View.Indexes s.uuidLookup s.view where
  init h := by
    obtain rfl := h
    refine ⟨inv_init, ⟨(fun _ _ h => nomatch h), fun l k h => ?_⟩⟩
    cases h.1
  step h hok hs := ⟨inv_step h.1 hs, (indexes_step_iff h.1 h.2 hs).mpr hok⟩

/-- **A lookup by UUID is right** in every run whose events meet the condition: its answer is alive
and has the UUID, and an entity that has the UUID to itself is found. One exception is left, a UUID
without an entry while another entity has the temporary id `-1`. -/
theorem finds_iff_of_reachBy (h : (lts qt).ReachBy (Meets qt) s) (uuid : String) :
    s.Finds uuid ↔ s.DefaultMeets uuid :=
  have hi := (indexes_inductive qt).reach h
  finds_iff hi.1.placed hi.2 hi.1.index

/-! ## Two runs -/

/-- The UUID that the text `localhost` stands for. -/
def localhostUuid : String := "\x7b421aa90e-079f-a326-b649-4f812ad13e79\x7d"

/-- A text of the form of a UUID. -/
def clusterUuid : String := "\x7b9f6290f4-436e-45a2-9a5d-1d3a6e5b4c10\x7d"

/-- Qt on the texts of the runs below. -/
def runQt : Qt where
  uuid text := if text = localhostUuid ∨ text = clusterUuid then some text else none
  md5 _ := "421aa90e079fa326b6494f812ad13e79"

/-- A node with a UUID is constructed and registered. -/
def registerNode (p : Ptr) (desiredId : Int) (uuid : String) : List Action :=
  [.life (.construct p .node "HardwareNode") ""] ++ attachData p none uuid ++
    [.life (.returnCached p) "", .life (.register p desiredId) ""]

/-- A second node takes the UUID of the first one and is destroyed: the first one is still found. -/
theorem finds_iff_of_reachBy_duplicate :
    ∃ s, (lts runQt).ReachBy (Meets runQt) s ∧ s.getEntityByUUID localhostUuid = some 1 ∧
      (s.Finds localhostUuid ↔ s.DefaultMeets localhostUuid) := by
  have hrun : (Lts.runBy (step runQt) (Meets runQt) {} (registerNode 1 7 localhostUuid ++
      registerNode 2 (-1) clusterUuid ++
      [.setValue 2 "localhost" "", .life (.destruct 2) ""])).map
        (·.getEntityByUUID localhostUuid) = some (some 1) := by
    decide +kernel
  obtain ⟨s, hs, hget⟩ := Option.map_eq_some_iff.mp hrun
  have hreach : (lts runQt).ReachBy (Meets runQt) s := Lts.reachBy_of_runBy hs
  exact ⟨s, hreach, hget, finds_iff_of_reachBy hreach localhostUuid⟩

/-- **A UUID is lost with its first entity**: the node is destroyed, its entry stays, and the node
that is constructed in its place and given its UUID is not found. -/
theorem not_forall_finds : ¬ ∀ qt s, (lts qt).Reach s → ∀ uuid, s.Finds uuid := by
  intro h
  have hrun : (Lts.run (step runQt) {} (registerNode 1 (-1) localhostUuid ++
      [.life (.destruct 1) ""] ++ registerNode 2 (-1) clusterUuid ++
      [.setValue 2 "localhost" ""])).any (fun s =>
        s.getEntityByUUID localhostUuid = none ∧ s.objects.keys = [2] ∧
          s.objects.lookup 2 = some
            { kind := .node, text := "HardwareNode", id := 2, phase := .cached } ∧
          s.factory.hash.lookup 2 = some 2 ∧ s.uuids.lookup 2 = some localhostUuid) := by
    decide +kernel
  obtain ⟨s, hs, hview⟩ := Option.any_eq_true _ _ |>.mp hrun
  obtain ⟨hget, hkeys, hl, hhash, huuid⟩ := of_decide_eq_true hview
  have hfinds := h runQt s (Lts.reach_of_run hs) localhostUuid
  have hhas : s.HasUuid 2 localhostUuid := by
    refine ⟨_, hl, rfl, ?_, huuid⟩
    simp only [EntityFactory.unsafeIsEntityRegistered, hhash, decide_true]
  have hfound := hfinds.complete 2 hhas fun q hq => by
    obtain ⟨gq, hlq, -⟩ := hq
    have hmem := AList.mem_keys.mp (mem_of_lookup hlq)
    rw [hkeys] at hmem
    exact List.mem_singleton.mp hmem
  rw [hget] at hfound
  cases hfound

end UuidRegistry

end Sem.Medea
