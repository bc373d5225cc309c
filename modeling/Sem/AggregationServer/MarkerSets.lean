import Sem.AggregationServer.DatabaseClient
import Sem.AggregationServer.DeviceGroups
import Mathlib.Data.List.Nodup

/-!
# Sets of markers

`ProcessMarkerRequest` finds the set of a row in two maps: one from labels, and one from texts that
are made of a label and a workload id.

* `markerSets_correct_iff`: each row is in the set of its label and its id, and in no other one.
-/

namespace Sem.AggregationServer

open Xml (Text)

/-- The names of an instance of a component or of a worker. -/
structure InstanceNames where
  name : Text
  path : Text
  graphmlId : Text
  type : Text
  deriving DecidableEq, Repr

/-- A row of `GetMarkerInfo`. -/
structure MarkerRow where
  label : Text
  workloadID : Int
  sampleTime : Text
  componentInstance : InstanceNames
  workerInstance : InstanceNames
  deriving DecidableEq, Repr

/-- An event of a marker in the reply. -/
structure MarkerEvent (Time : Type) where
  timestamp : Time
  componentInstance : InstanceNames
  workerInstance : InstanceNames
  deriving DecidableEq, Repr

/-- The events of one marker id, in the order of their rows. -/
structure MarkerIDSet (Time : Type) where
  id : Int
  events : List (MarkerEvent Time)
  deriving DecidableEq, Repr

/-- The id sets of one marker name. -/
structure MarkerNameSet (Time : Type) where
  name : Text
  markerIdSets : List (MarkerIDSet Time)
  deriving DecidableEq, Repr

/-- The response and the maps of the loop; a pointer is the place of its set. -/
structure MarkerGrouping (Time : Type) where
  markerNameSets : List (MarkerNameSet Time)
  nameSetMap : Table Text ℕ
  idSetMap : Table Text (ℕ × ℕ)

/-- `id_str` -/
def idText (label : Text) (id : Int) : Text := label ++ '_' :: intText id

namespace MarkerGrouping

variable {Time : Type}

/-- Before the first row there are no sets. -/
def start : MarkerGrouping Time where
  markerNameSets := []
  nameSetMap := ∅
  idSetMap := ∅

/-- The set of the label, which is new if there is none. -/
def nameSet (g : MarkerGrouping Time) (label : Text) : MarkerGrouping Time × ℕ :=
  match g.nameSetMap.lookup label with
  | some i => (g, i)
  | none =>
    ({ g with
        markerNameSets := g.markerNameSets ++ [⟨label, []⟩]
        nameSetMap := g.nameSetMap.insert label g.markerNameSets.length },
      g.markerNameSets.length)

/-- The set of the label and the id, which is new in the set of the label if there is none. -/
def idSet (g : MarkerGrouping Time) (i : ℕ) (label : Text) (id : Int) :
    MarkerGrouping Time × ℕ × ℕ :=
  match g.idSetMap.lookup (idText label id) with
  | some p => (g, p)
  | none =>
    let j := (g.markerNameSets[i]?.map fun s => s.markerIdSets.length).getD 0
    ({ g with
        markerNameSets := g.markerNameSets.modify i fun s =>
          { s with markerIdSets := s.markerIdSets ++ [⟨id, []⟩] }
        idSetMap := g.idSetMap.insert (idText label id) (i, j) }, i, j)

/-- The event goes to the `j`-th id set of the `i`-th name set. -/
def addEvent (g : MarkerGrouping Time) (i j : ℕ) (event : MarkerEvent Time) :
    MarkerGrouping Time :=
  { g with
    markerNameSets := g.markerNameSets.modify i fun s =>
      { s with
        markerIdSets := s.markerIdSets.modify j fun t =>
          { t with events := t.events ++ [event] } } }

/-- What the loop does with a row. -/
def addRow (fromString : Text → Option Time) (g : MarkerGrouping Time) (row : MarkerRow) :
    Except ReplierError (MarkerGrouping Time) :=
  let (g, i) := g.nameSet row.label
  let (g, i, j) := g.idSet i row.label row.workloadID
  match fromString row.sampleTime with
  | none => .error (.sampleTime row.sampleTime)
  | some timestamp =>
    .ok (g.addEvent i j ⟨timestamp, row.componentInstance, row.workerInstance⟩)

end MarkerGrouping

variable {Time : Type}

/-- The sets of the response to these rows. -/
def markerSets (fromString : Text → Option Time) (rows : List MarkerRow) :
    Except ReplierError (List (MarkerNameSet Time)) :=
  (rows.foldlM (MarkerGrouping.addRow fromString) .start).map MarkerGrouping.markerNameSets

/-- The event of a row, with each value in its field. -/
structure MarkerRow.Event (fromString : Text → Option Time) (row : MarkerRow)
    (event : MarkerEvent Time) : Prop where
  timestamp : fromString row.sampleTime = some event.timestamp
  componentInstance : event.componentInstance = row.componentInstance
  workerInstance : event.workerInstance = row.workerInstance

/-- Each row is in the set of its label and its id, of which there is one. -/
structure MarkersBy (own : MarkerRow → MarkerEvent Time → Prop) (rows : List MarkerRow)
    (sets : List (MarkerNameSet Time)) : Prop where
  names : (sets.map MarkerNameSet.name).Nodup
  mem_names (label : Text) :
    label ∈ sets.map MarkerNameSet.name ↔ ∃ r ∈ rows, r.label = label
  ids (s : MarkerNameSet Time) : s ∈ sets → (s.markerIdSets.map MarkerIDSet.id).Nodup
  mem_ids (s : MarkerNameSet Time) (id : Int) : s ∈ sets →
    (id ∈ s.markerIdSets.map MarkerIDSet.id ↔ ∃ r ∈ rows, r.label = s.name ∧ r.workloadID = id)
  events (s : MarkerNameSet Time) (t : MarkerIDSet Time) : s ∈ sets → t ∈ s.markerIdSets →
    List.Forall₂ own (rows.filter fun r => r.label = s.name ∧ r.workloadID = t.id) t.events

/-! ## Keys -/

/-- The id is what follows the last separator. -/
theorem idText_inj {label label' : Text} {id id' : Int} :
    idText label id = idText label' id' ↔ label = label' ∧ id = id' := by
  refine ⟨fun h => ?_, fun ⟨hl, hi⟩ => by rw [hl, hi]⟩
  have hreverse := congrArg List.reverse h
  simp only [idText, List.reverse_append, List.reverse_cons, List.append_assoc,
    List.singleton_append] at hreverse
  have hsep : ∀ n, '_' ∉ (intText n).reverse := fun n hm =>
    notMem_intText rfl (by decide) n (List.mem_reverse.mp hm)
  obtain ⟨hid, hlabel⟩ := append_separated_inj (hsep id) (hsep id') (.inr rfl) (.inr rfl) hreverse
  exact ⟨List.reverse_injective (List.cons.inj hlabel).2,
    intText_injective (List.reverse_injective hid)⟩

/-! ## The sets that the maps lead to -/

theorem getElem?_concat_eq_some {α : Type} {l : List α} {a b : α} {i : ℕ} :
    (l ++ [a])[i]? = some b ↔ l[i]? = some b ∨ i = l.length ∧ a = b := by
  grind

theorem getElem?_modify_eq_some {α : Type} {l : List α} {f : α → α} {i j : ℕ} {b : α} :
    (l.modify i f)[j]? = some b ↔ ∃ a, l[j]? = some a ∧ b = if i = j then f a else a := by
  grind

/-- The set of the label is at `i`. -/
def NameAt (sets : List (MarkerNameSet Time)) (label : Text) (i : ℕ) : Prop :=
  ∃ s, sets[i]? = some s ∧ s.name = label

/-- The set of the label and the id, with these events, is at `p`. -/
def SetAt (sets : List (MarkerNameSet Time)) (label : Text) (id : Int) (p : ℕ × ℕ)
    (events : List (MarkerEvent Time)) : Prop :=
  ∃ s t, sets[p.1]? = some s ∧ s.name = label ∧ s.markerIdSets[p.2]? = some t ∧ t.id = id ∧
    t.events = events

/-- The maps lead to the sets that there are, which are those of the rows `seen`; they have the
events of the rows `done`. -/
structure MarkerBooks (own : MarkerRow → MarkerEvent Time → Prop) (seen done : List MarkerRow)
    (g : MarkerGrouping Time) : Prop where
  nameMap (label : Text) (i : ℕ) :
    g.nameSetMap.lookup label = some i ↔ NameAt g.markerNameSets label i
  idMap (label : Text) (id : Int) (p : ℕ × ℕ) :
    g.idSetMap.lookup (idText label id) = some p ↔
      ∃ events, SetAt g.markerNameSets label id p events
  name_seen (label : Text) (i : ℕ) : NameAt g.markerNameSets label i → ∃ r ∈ seen, r.label = label
  id_seen (label : Text) (id : Int) (p : ℕ × ℕ) (events : List (MarkerEvent Time)) :
    SetAt g.markerNameSets label id p events → ∃ r ∈ seen, r.label = label ∧ r.workloadID = id
  done_mem (r : MarkerRow) : r ∈ done →
    ∃ p events, SetAt g.markerNameSets r.label r.workloadID p events
  events (label : Text) (id : Int) (p : ℕ × ℕ) (events : List (MarkerEvent Time)) :
    SetAt g.markerNameSets label id p events →
      List.Forall₂ own (done.filter fun r => r.label = label ∧ r.workloadID = id) events

section Books

variable {own : MarkerRow → MarkerEvent Time → Prop} {seen done : List MarkerRow}
  {g : MarkerGrouping Time} {sets : List (MarkerNameSet Time)} {label label' : Text} {id id' : Int}
  {i : ℕ} {p : ℕ × ℕ} {events : List (MarkerEvent Time)} {r : MarkerRow}

theorem markerBooks_start : MarkerBooks own [] [] (MarkerGrouping.start : MarkerGrouping Time) where
  nameMap label i := by
    refine ⟨fun h => ?_, fun ⟨s, hs, _⟩ => ?_⟩
    · cases h
    · cases hs
  idMap label id p := by
    refine ⟨fun h => ?_, fun ⟨events, s, t, hs, _⟩ => ?_⟩
    · cases h
    · cases hs
  name_seen label i := fun ⟨s, hs, _⟩ => by cases hs
  id_seen label id p events := fun ⟨s, t, hs, _⟩ => by cases hs
  done_mem r hr := absurd hr List.not_mem_nil
  events label id p events := fun ⟨s, t, hs, _⟩ => by cases hs

/-- A new set has its own name and takes none away. -/
theorem nameAt_concat {s : MarkerNameSet Time} :
    NameAt (sets ++ [s]) label i ↔ NameAt sets label i ∨ i = sets.length ∧ s.name = label := by
  simp only [NameAt, getElem?_concat_eq_some]
  grind

/-- A new set of a label has no sets of ids. -/
theorem setAt_concat :
    SetAt (sets ++ [⟨label', []⟩]) label id p events ↔ SetAt sets label id p events := by
  simp only [SetAt, getElem?_concat_eq_some]
  grind

/-- A change within a set is not a change of its name. -/
theorem nameAt_modify {f : MarkerNameSet Time → MarkerNameSet Time} {j : ℕ}
    (hf : ∀ s, (f s).name = s.name) : NameAt (sets.modify j f) label i ↔ NameAt sets label i := by
  simp only [NameAt, getElem?_modify_eq_some]
  grind

/-- A new set of an id in the set of its label. -/
theorem setAt_addId {s : MarkerNameSet Time} (hs : sets[i]? = some s) :
    SetAt (sets.modify i fun s => { s with markerIdSets := s.markerIdSets ++ [⟨id', []⟩] })
        label id p events ↔
      SetAt sets label id p events ∨
        label = s.name ∧ id = id' ∧ p = (i, s.markerIdSets.length) ∧ events = [] := by
  obtain ⟨k, j⟩ := p
  constructor
  · rintro ⟨s', t, hs', rfl, ht, rfl, rfl⟩
    obtain ⟨s₀, hs₀, rfl⟩ := getElem?_modify_eq_some.mp hs'
    by_cases hk : i = k
    · subst hk
      obtain rfl : s₀ = s := Option.some.inj (hs₀.symm.trans hs)
      rw [if_pos rfl] at ht ⊢
      obtain ht | ⟨rfl, rfl⟩ := getElem?_concat_eq_some.mp ht
      · exact .inl ⟨s₀, t, hs₀, rfl, ht, rfl, rfl⟩
      · exact .inr ⟨rfl, rfl, rfl, rfl⟩
    · rw [if_neg hk] at ht ⊢
      exact .inl ⟨s₀, t, hs₀, rfl, ht, rfl, rfl⟩
  · rintro (⟨s₀, t, hs₀, rfl, ht, rfl, rfl⟩ | ⟨rfl, rfl, hp, rfl⟩)
    · refine ⟨_, t, getElem?_modify_eq_some.mpr ⟨s₀, hs₀, rfl⟩, ?_, ?_, rfl, rfl⟩
      · split <;> rfl
      · split
        · exact getElem?_concat_eq_some.mpr (.inl ht)
        · exact ht
    · obtain ⟨rfl, rfl⟩ := Prod.mk.inj hp
      refine ⟨_, ⟨id, []⟩, getElem?_modify_eq_some.mpr ⟨s, hs, rfl⟩, ?_, ?_, rfl, rfl⟩
      · rw [if_pos rfl]
      · rw [if_pos rfl]
        exact getElem?_concat_eq_some.mpr (.inr ⟨rfl, rfl⟩)

/-- A new event of a set. -/
theorem setAt_addEvent {q : ℕ × ℕ} {event : MarkerEvent Time} :
    SetAt (sets.modify q.1 fun s => { s with
        markerIdSets := s.markerIdSets.modify q.2 fun t =>
          { t with events := t.events ++ [event] } }) label id p events ↔
      ∃ before, SetAt sets label id p before ∧
        events = if q = p then before ++ [event] else before := by
  obtain ⟨k, j⟩ := p
  obtain ⟨k', j'⟩ := q
  constructor
  · rintro ⟨s', t, hs', rfl, ht, rfl, rfl⟩
    obtain ⟨s, hs, rfl⟩ := getElem?_modify_eq_some.mp hs'
    by_cases hk : k' = k
    · subst hk
      simp only [if_true] at ht ⊢
      obtain ⟨t₀, ht₀, rfl⟩ := getElem?_modify_eq_some.mp ht
      refine ⟨t₀.events, ⟨s, t₀, hs, rfl, ht₀, ?_, rfl⟩, ?_⟩
      · split <;> rfl
      · by_cases hj : j' = j <;> simp [hj]
    · simp only [hk, if_false] at ht ⊢
      exact ⟨t.events, ⟨s, t, hs, rfl, ht, rfl, rfl⟩, by simp [hk]⟩
  · rintro ⟨before, ⟨s, t, hs, rfl, ht, rfl, rfl⟩, rfl⟩
    by_cases hk : k' = k
    · subst hk
      refine ⟨_, if j' = j then { t with events := t.events ++ [event] } else t,
        getElem?_modify_eq_some.mpr ⟨s, hs, rfl⟩, by rw [if_pos rfl], ?_, ?_, ?_⟩
      · rw [if_pos rfl]
        exact getElem?_modify_eq_some.mpr ⟨t, ht, rfl⟩
      · split <;> rfl
      · by_cases hj : j' = j <;> simp [hj]
    · refine ⟨_, t, getElem?_modify_eq_some.mpr ⟨s, hs, rfl⟩, by rw [if_neg hk], ?_, rfl, ?_⟩
      · rw [if_neg hk]
        exact ht
      · simp [hk]

/-! ## The loop -/

/-- There is one set for a name. -/
theorem NameAt.inj (h : MarkerBooks own seen done g) {j : ℕ}
    (hi : NameAt g.markerNameSets label i) (hj : NameAt g.markerNameSets label j) : i = j :=
  Option.some.inj (((h.nameMap label i).mpr hi).symm.trans ((h.nameMap label j).mpr hj))

/-- There is one set for a name and an id. -/
theorem SetAt.inj (h : MarkerBooks own seen done g) {q : ℕ × ℕ}
    {events' : List (MarkerEvent Time)} (hp : SetAt g.markerNameSets label id p events)
    (hq : SetAt g.markerNameSets label id q events') : p = q :=
  Option.some.inj (((h.idMap label id p).mpr ⟨_, hp⟩).symm.trans ((h.idMap label id q).mpr ⟨_, hq⟩))

/-- A row may be seen before its event is added. -/
theorem MarkerBooks.see (h : MarkerBooks own seen done g) (r : MarkerRow) :
    MarkerBooks own (seen ++ [r]) done g where
  nameMap := h.nameMap
  idMap := h.idMap
  name_seen label i hname := by
    obtain ⟨q, hq, hl⟩ := h.name_seen label i hname
    exact ⟨q, List.mem_append_left _ hq, hl⟩
  id_seen label id p events hset := by
    obtain ⟨q, hq, hl⟩ := h.id_seen label id p events hset
    exact ⟨q, List.mem_append_left _ hq, hl⟩
  done_mem := h.done_mem
  events := h.events

/-- The set of a label is found, or made empty. -/
theorem MarkerBooks.nameSet (h : MarkerBooks own seen done g)
    (hseen : ∃ r ∈ seen, r.label = label) :
    MarkerBooks own seen done (g.nameSet label).1 ∧
      NameAt (g.nameSet label).1.markerNameSets label (g.nameSet label).2 := by
  unfold MarkerGrouping.nameSet
  cases hlookup : g.nameSetMap.lookup label with
  | some i => exact ⟨h, (h.nameMap label i).mp hlookup⟩
  | none =>
    have hnone : ∀ i, ¬ NameAt g.markerNameSets label i := by
      intro i hi
      have hi := (h.nameMap label i).mpr hi
      rw [hlookup] at hi
      cases hi
    refine ⟨?_, nameAt_concat.mpr (.inr ⟨rfl, rfl⟩)⟩
    exact {
      nameMap := fun label' i => by
        rw [Table.lookup_insert, nameAt_concat]
        by_cases hl : label' = label
        · subst hl
          simp [hnone, eq_comm]
        · simp [hl, h.nameMap, Ne.symm hl]
      idMap := fun label' id p => by
        simp only [setAt_concat]
        exact h.idMap label' id p
      name_seen := fun label' i hname => by
        obtain hname | ⟨-, rfl⟩ := nameAt_concat.mp hname
        · exact h.name_seen label' i hname
        · exact hseen
      id_seen := fun label' id p events hset => h.id_seen label' id p events (setAt_concat.mp hset)
      done_mem := fun r hr => by
        obtain ⟨p, events, hset⟩ := h.done_mem r hr
        exact ⟨p, events, setAt_concat.mpr hset⟩
      events := fun label' id p events hset => h.events label' id p events (setAt_concat.mp hset) }

/-- So is the set of an id within it. -/
theorem MarkerBooks.idSet (h : MarkerBooks own seen done g)
    (hname : NameAt g.markerNameSets label i)
    (hseen : ∃ r ∈ seen, r.label = label ∧ r.workloadID = id) :
    MarkerBooks own seen done (g.idSet i label id).1 ∧
      ∃ events, SetAt (g.idSet i label id).1.markerNameSets label id (g.idSet i label id).2
        events := by
  obtain ⟨s, hs, rfl⟩ := hname
  unfold MarkerGrouping.idSet
  cases hlookup : g.idSetMap.lookup (idText s.name id) with
  | some p => exact ⟨h, (h.idMap s.name id p).mp hlookup⟩
  | none =>
    have hnone : ∀ p events, ¬ SetAt g.markerNameSets s.name id p events := by
      intro p events hset
      have hp := (h.idMap s.name id p).mpr ⟨events, hset⟩
      rw [hlookup] at hp
      cases hp
    have hj : (g.markerNameSets[i]?.map fun s => s.markerIdSets.length).getD 0 =
        s.markerIdSets.length := by
      rw [hs]
      rfl
    simp only [hj]
    refine ⟨?_, [], (setAt_addId hs).mpr (.inr ⟨rfl, rfl, rfl, rfl⟩)⟩
    exact {
      nameMap := fun label' k =>
        (h.nameMap label' k).trans (nameAt_modify (by intro _; rfl)).symm
      idMap := fun label' id' p => by
        simp only [Table.lookup_insert, idText_inj, setAt_addId hs]
        by_cases hkey : label' = s.name ∧ id' = id
        · obtain ⟨rfl, rfl⟩ := hkey
          simp [hnone, eq_comm]
        · rw [if_neg hkey, h.idMap]
          exact exists_congr fun events =>
            ⟨.inl, fun h => h.resolve_right fun h => hkey ⟨h.1, h.2.1⟩⟩
      name_seen := fun label' k hname =>
        h.name_seen label' k ((nameAt_modify (by intro _; rfl)).mp hname)
      id_seen := fun label' id' p events hset => by
        obtain hset | ⟨rfl, rfl, -, -⟩ := (setAt_addId hs).mp hset
        · exact h.id_seen label' id' p events hset
        · exact hseen
      done_mem := fun r hr => by
        obtain ⟨p, events, hset⟩ := h.done_mem r hr
        exact ⟨p, events, (setAt_addId hs).mpr (.inl hset)⟩
      events := fun label' id' p events hset => by
        obtain hset | ⟨rfl, rfl, -, rfl⟩ := (setAt_addId hs).mp hset
        · exact h.events label' id' p events hset
        · have hempty : (done.filter fun r => r.label = s.name ∧ r.workloadID = id') = [] := by
            refine List.filter_eq_nil_iff.mpr fun r hr hkey => ?_
            obtain ⟨hl, hi⟩ := of_decide_eq_true hkey
            obtain ⟨p, events, hset⟩ := h.done_mem r hr
            rw [hl, hi] at hset
            exact hnone p events hset
          rw [hempty]
          exact .nil }

/-- The event of a row ends where the row belongs. -/
theorem MarkerBooks.addEvent {event : MarkerEvent Time} (h : MarkerBooks own seen done g)
    (hset : SetAt g.markerNameSets r.label r.workloadID p events) (hown : own r event) :
    MarkerBooks own seen (done ++ [r]) (g.addEvent p.1 p.2 event) where
  nameMap label i := (h.nameMap label i).trans (nameAt_modify (by intro _; rfl)).symm
  idMap label id q := by
    simp only [MarkerGrouping.addEvent, setAt_addEvent, h.idMap]
    constructor
    · rintro ⟨events, hset⟩
      exact ⟨_, events, hset, rfl⟩
    · rintro ⟨events, before, hset, rfl⟩
      exact ⟨before, hset⟩
  name_seen label i hname := h.name_seen label i ((nameAt_modify (by intro _; rfl)).mp hname)
  id_seen label id q events hset := by
    obtain ⟨before, hset, -⟩ := setAt_addEvent.mp hset
    exact h.id_seen label id q before hset
  done_mem q hq := by
    obtain ⟨q', events', hset'⟩ : ∃ q' events',
        SetAt g.markerNameSets q.label q.workloadID q' events' := by
      obtain hq | hq := List.mem_append.mp hq
      · exact h.done_mem q hq
      · rw [List.mem_singleton.mp hq]
        exact ⟨p, events, hset⟩
    exact ⟨q', _, setAt_addEvent.mpr ⟨events', hset', rfl⟩⟩
  events label id q events' hset' := by
    obtain ⟨before, hbefore, rfl⟩ := setAt_addEvent.mp hset'
    have hdone := h.events label id q before hbefore
    rw [List.filter_append]
    by_cases hkey : r.label = label ∧ r.workloadID = id
    · obtain ⟨rfl, rfl⟩ := hkey
      obtain rfl : p = q := hset.inj h hbefore
      rw [if_pos rfl, List.filter_cons_of_pos (by simp), List.filter_nil]
      exact List.rel_append hdone (.cons hown .nil)
    · have hne : (p.1, p.2) ≠ q := by
        rintro rfl
        obtain ⟨s, t, hs, hl, ht, hi, -⟩ := hset
        obtain ⟨s', t', hs', hl', ht', hi', -⟩ := hbefore
        obtain rfl : s = s' := Option.some.inj (hs.symm.trans hs')
        obtain rfl : t = t' := Option.some.inj (ht.symm.trans ht')
        exact hkey ⟨hl.symm.trans hl', hi.symm.trans hi'⟩
      rw [if_neg hne, List.filter_cons_of_neg (by simpa using hkey), List.filter_nil,
        List.append_nil]
      exact hdone

/-- A row whose time can be read is added to the one set that it belongs to. -/
theorem MarkerBooks.addRow {fromString : Text → Option Time} {timestamp : Time}
    (h : MarkerBooks own done done g) (htime : fromString r.sampleTime = some timestamp)
    (hown : own r ⟨timestamp, r.componentInstance, r.workerInstance⟩) :
    ∃ g', g.addRow fromString r = .ok g' ∧ MarkerBooks own (done ++ [r]) (done ++ [r]) g' := by
  have hmem : r ∈ done ++ [r] := List.mem_append_right _ List.mem_cons_self
  obtain ⟨hname, hat⟩ := (h.see r).nameSet ⟨r, hmem, rfl⟩
  obtain ⟨hid, events, hset⟩ := hname.idSet hat ⟨r, hmem, rfl, rfl⟩
  refine ⟨_, ?_, hid.addEvent hset hown⟩
  simp only [MarkerGrouping.addRow, htime]

/-- By induction over the rows, each of which extends the list of those done. -/
theorem MarkerBooks.foldlM {fromString : Text → Option Time} {rows : List MarkerRow}
    (h : MarkerBooks own done done g)
    (hrows : ∀ r ∈ rows, ∃ timestamp, fromString r.sampleTime = some timestamp ∧
      own r ⟨timestamp, r.componentInstance, r.workerInstance⟩) :
    ∃ g', rows.foldlM (MarkerGrouping.addRow fromString) g = .ok g' ∧
      MarkerBooks own (done ++ rows) (done ++ rows) g' := by
  induction rows generalizing done g with
  | nil => exact ⟨g, rfl, by rwa [List.append_nil]⟩
  | cons r rows ih =>
    obtain ⟨timestamp, htime, hown⟩ := hrows r List.mem_cons_self
    obtain ⟨g₁, hadd, hbooks⟩ := h.addRow htime hown
    obtain ⟨g', hrest, hbooks'⟩ := ih hbooks fun q hq => hrows q (List.mem_cons_of_mem _ hq)
    refine ⟨g', ?_, by rwa [List.append_assoc] at hbooks'⟩
    rw [List.foldlM_cons, hadd]
    exact hrest

theorem nameAt_of_mem {s : MarkerNameSet Time} (hs : s ∈ sets) : ∃ i, NameAt sets s.name i := by
  obtain ⟨i, hi⟩ := List.mem_iff_getElem?.mp hs
  exact ⟨i, s, hi, rfl⟩

/-- Books over all rows are the grouping that the reply should be. -/
theorem MarkerBooks.markersBy (h : MarkerBooks own done done g) :
    MarkersBy own done g.markerNameSets where
  names := by
    rw [List.nodup_iff_getElem?_ne_getElem?]
    intro i j hij hj heq
    rw [List.length_map] at hj
    have hsi := List.getElem?_eq_getElem (hij.trans hj)
    have hsj := List.getElem?_eq_getElem hj
    rw [List.getElem?_map, List.getElem?_map, hsi, hsj] at heq
    exact hij.ne (NameAt.inj h ⟨_, hsi, Option.some.inj heq⟩ ⟨_, hsj, rfl⟩)
  mem_names label := by
    constructor
    · intro hmem
      obtain ⟨s, hs, rfl⟩ := List.mem_map.mp hmem
      obtain ⟨i, hi⟩ := nameAt_of_mem hs
      exact h.name_seen _ i hi
    · rintro ⟨r, hr, rfl⟩
      obtain ⟨p, events, s, t, hs, hname, -⟩ := h.done_mem r hr
      exact List.mem_map.mpr ⟨s, List.mem_of_getElem? hs, hname⟩
  ids s hs := by
    obtain ⟨i, hi⟩ := List.mem_iff_getElem?.mp hs
    rw [List.nodup_iff_getElem?_ne_getElem?]
    intro j k hjk hk heq
    rw [List.length_map] at hk
    have htj := List.getElem?_eq_getElem (hjk.trans hk)
    have htk := List.getElem?_eq_getElem hk
    rw [List.getElem?_map, List.getElem?_map, htj, htk] at heq
    have hat : SetAt g.markerNameSets s.name s.markerIdSets[k].id (i, j) _ :=
      ⟨s, _, hi, rfl, htj, Option.some.inj heq, rfl⟩
    have hat' : SetAt g.markerNameSets s.name s.markerIdSets[k].id (i, k) _ :=
      ⟨s, _, hi, rfl, htk, rfl, rfl⟩
    exact hjk.ne (Prod.mk.inj (hat.inj h hat')).2
  mem_ids s id hs := by
    obtain ⟨i, hi⟩ := List.mem_iff_getElem?.mp hs
    constructor
    · intro hmem
      obtain ⟨t, ht, rfl⟩ := List.mem_map.mp hmem
      obtain ⟨j, hj⟩ := List.mem_iff_getElem?.mp ht
      exact h.id_seen _ _ (i, j) _ ⟨s, t, hi, rfl, hj, rfl, rfl⟩
    · rintro ⟨r, hr, hl, rfl⟩
      obtain ⟨p, events, s', t, hs', hname, ht, hid, -⟩ := h.done_mem r hr
      have hp : p.1 = i := NameAt.inj h ⟨s', hs', hname.trans hl⟩ ⟨s, hi, rfl⟩
      rw [hp, hi] at hs'
      obtain rfl := Option.some.inj hs'
      exact List.mem_map.mpr ⟨t, List.mem_of_getElem? ht, hid⟩
  events s t hs ht := by
    obtain ⟨i, hi⟩ := List.mem_iff_getElem?.mp hs
    obtain ⟨j, hj⟩ := List.mem_iff_getElem?.mp ht
    exact h.events _ _ (i, j) _ ⟨s, t, hi, rfl, hj, rfl, rfl⟩

end Books

/-- A response has an event of each row. -/
theorem fromString_of_markerSets {fromString : Text → Option Time} {rows : List MarkerRow}
    {sets : List (MarkerNameSet Time)} (h : markerSets fromString rows = .ok sets) :
    ∀ r ∈ rows, ∃ t, fromString r.sampleTime = some t := by
  have hfold : ∀ (g g' : MarkerGrouping Time),
      rows.foldlM (MarkerGrouping.addRow fromString) g = .ok g' →
        ∀ r ∈ rows, ∃ t, fromString r.sampleTime = some t := by
    clear h
    induction rows with
    | nil => exact fun g g' _ r hr => absurd hr List.not_mem_nil
    | cons row rows ih =>
      intro g g' hfold
      rw [List.foldlM_cons] at hfold
      cases hadd : g.addRow fromString row with
      | error e =>
        rw [hadd] at hfold
        cases hfold
      | ok g₁ =>
        rw [hadd] at hfold
        refine List.forall_mem_cons.mpr ⟨?_, ih g₁ g' hfold⟩
        simp only [MarkerGrouping.addRow] at hadd
        split at hadd
        · cases hadd
        · rename_i t ht
          exact ⟨t, ht⟩
  rw [markerSets] at h
  cases hg : rows.foldlM (MarkerGrouping.addRow fromString) .start with
  | error e =>
    rw [hg] at h
    cases h
  | ok g' => exact hfold _ _ hg

/-- **Each row is in the set of its label and its id, if the times can be read.** -/
theorem markerSets_correct_iff {fromString : Text → Option Time} {rows : List MarkerRow} :
    (∃ sets, markerSets fromString rows = .ok sets ∧
        MarkersBy (MarkerRow.Event fromString) rows sets) ↔
      ∀ r ∈ rows, ∃ t, fromString r.sampleTime = some t := by
  refine ⟨fun ⟨sets, h, _⟩ => fromString_of_markerSets h, fun htimes => ?_⟩
  have hstart : MarkerBooks (MarkerRow.Event fromString) [] [] .start := markerBooks_start
  obtain ⟨g, hfold, hbooks⟩ := hstart.foldlM
    fun r hr => by
      obtain ⟨t, ht⟩ := htimes r hr
      exact ⟨t, ht, ht, rfl, rfl⟩
  refine ⟨g.markerNameSets, ?_, hbooks.markersBy⟩
  rw [markerSets, hfold]
  rfl

end Sem.AggregationServer
