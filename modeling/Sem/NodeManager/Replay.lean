import Sem.NodeManager.Inventory

/-!
# Steps done again

A step that has succeeded finds its work done: it succeeds again and adds nothing. So a message
that was carried out in part can be carried out again from where it stopped.

* `Step.met_apply`, `Step.Met.done`: a step and its work.
* `replay`: the message again, after steps of it that succeeded.
* `Passes.mono`: a logger that is there does not make a step throw.
* `component_applyAll`, `clients_applyAll`, `attributes_applyAll`: what a list of steps adds.
-/

namespace Sem.NodeManager.DeploymentContainer

open Xml (Text)

variable {env : Environment} {id : Text}

/-! ## More of everything -/

/-- The second inventory has what the first one has. -/
structure Extends (v w : Inventory) : Prop where
  attributes : ∀ e a, v.attributes e = some a →
    ∃ b, w.attributes e = some b ∧ ∀ name type, a.lookup name = some type →
      b.lookup name = some type
  clients : v.clients ⊆ w.clients
  logger : v.logger → w.logger

variable {library : Library} {v w u : Inventory}

theorem Extends.refl (v : Inventory) : Extends v v :=
  ⟨fun _ a h => ⟨a, h, fun _ _ h => h⟩, subset_rfl, fun h => h⟩

theorem Extends.trans (h : Extends v w) (h' : Extends w u) : Extends v u := by
  refine ⟨fun e a ha => ?_, h.clients.trans h'.clients, fun hl => h'.logger (h.logger hl)⟩
  obtain ⟨b, hb, hab⟩ := h.attributes e a ha
  obtain ⟨d, hd, hbd⟩ := h'.attributes e b hb
  exact ⟨d, hd, fun name type hn => hbd name type (hab name type hn)⟩

/-- An entity that was there is still there. -/
theorem Extends.isSome (h : Extends v w) {e : Entity} (he : (v.attributes e).isSome) :
    (w.attributes e).isSome := by
  obtain ⟨a, ha⟩ := Option.isSome_iff_exists.mp he
  obtain ⟨b, hb, -⟩ := h.attributes e a ha
  exact Option.isSome_iff_exists.mpr ⟨b, hb⟩

/-- An attribute that is there keeps its type. -/
theorem lookup_constructAttribute {a : Attributes} {attributePb : AttributePb} {name : Text}
    {type : AttributeType} (h : a.lookup name = some type) :
    (constructAttribute a attributePb).lookup name = some type := by
  unfold constructAttribute
  by_cases hmem : attributePb.info.name ∈ a
  · rw [if_pos hmem, h]
  · have hne : name ≠ attributePb.info.name := by
      rintro rfl
      exact hmem (Table.mem_of_lookup h)
    rw [if_neg hmem, Table.lookup_insert, if_neg hne, h]

namespace Step

/-- No step takes an entity away. -/
theorem extends_apply (library : Library) (v : Inventory) (s : Step) :
    Extends v (s.apply library v) := by
  cases s with
  | logger loggerPb => exact ⟨(Extends.refl v).attributes, fun _ => .inl, .inl⟩
  | component componentPb =>
    rw [apply]
    by_cases hsome : (v.attributes (.component componentPb.info.id)).isSome
    · rw [if_pos hsome]
      exact .refl v
    · rw [if_neg hsome]
      refine ⟨fun e a ha => ⟨a, ?_, fun _ _ h => h⟩, subset_rfl, fun h => h⟩
      have hne : e.owner ≠ componentPb.info.id := by
        intro he
        have := v.owned e (by rw [ha]; rfl)
        rw [he] at this
        exact hsome this
      exact (if_neg hne).trans ha
  | «attribute» entity attributePb =>
    refine ⟨fun e a ha => ?_, subset_rfl, fun h => h⟩
    by_cases he : e = entity
    · refine ⟨_, (if_pos he).trans (congrArg (Option.map _) ha), ?_⟩
      exact fun name type => lookup_constructAttribute
    · exact ⟨a, (if_neg he).trans ha, fun _ _ h => h⟩
  | port id portPb =>
    rw [apply]
    by_cases h : (v.attributes (.component id)).isSome ∧
        v.attributes (.port id portPb.info.name) = none
    · rw [dif_pos h]
      refine ⟨fun e a ha => ⟨a, (if_neg ?_).trans ha, fun _ _ h => h⟩, subset_rfl, fun h => h⟩
      rintro rfl
      rw [h.2] at ha
      cases ha
    · rw [dif_neg h]
      exact .refl v
  | reconfigure id name => exact .refl v
  | worker id workerPb => exact .refl v

/-- What the step is to do is done. -/
def Met (v : Inventory) : Step → Prop
  | .logger loggerPb =>
      (∀ id, loggerPb.IsClient id → id ∈ v.clients) ∧ (loggerPb.Binds → v.logger)
  | .component componentPb => (v.attributes (.component componentPb.info.id)).isSome
  | .attribute entity attributePb => ∃ a, v.attributes entity = some a ∧
      a.lookup attributePb.info.name = some attributePb.kind.type
  | .port id portPb => (v.attributes (.port id portPb.info.name)).isSome
  | .reconfigure _ _ => True
  | .worker id workerPb => (v.attributes (.worker id workerPb.info.name)).isSome

/-- The entity that the step works on. -/
def needs : Step → Option Entity
  | .logger _ | .component _ | .reconfigure _ _ => none
  | .attribute entity _ => some entity
  | .port id _ | .worker id _ => some (.component id)

/-- The entity that the step gets or constructs. -/
def gives : Step → Option Entity
  | .logger _ | .attribute _ _ | .reconfigure _ _ => none
  | .component componentPb => some (.component componentPb.info.id)
  | .port id portPb => some (.port id portPb.info.name)
  | .worker id workerPb => some (.worker id workerPb.info.name)

theorem Met.isSome {s : Step} (h : s.Met v) {e : Entity} (he : s.gives = some e) :
    (v.attributes e).isSome := by
  cases s with
  | logger | «attribute» | reconfigure => cases he
  | component | port | worker =>
    cases he
    exact h

/-- What a step needs stays there. -/
theorem Met.mono {s : Step} (h : s.Met v) (hvw : Extends v w) : s.Met w := by
  cases s with
  | logger loggerPb =>
    exact ⟨fun id hid => hvw.clients (h.1 id hid), fun hbinds => hvw.logger (h.2 hbinds)⟩
  | component componentPb => exact hvw.isSome h
  | «attribute» entity attributePb =>
    obtain ⟨a, ha, hname⟩ := h
    obtain ⟨b, hb, hab⟩ := hvw.attributes entity a ha
    exact ⟨b, hb, hab _ _ hname⟩
  | port id portPb => exact hvw.isSome h
  | reconfigure id name => trivial
  | worker id workerPb => exact hvw.isSome h

/-- A step that succeeds does what it is to do. -/
theorem met_apply {s : Step} (h : ¬ s.Fails env v)
    (hneeds : ∀ e, s.needs = some e → (v.attributes e).isSome) :
    s.Met (s.apply env.library v) := by
  cases s with
  | logger loggerPb => exact ⟨fun _ => .inr, .inr⟩
  | component componentPb =>
    rw [apply]
    by_cases hsome : (v.attributes (.component componentPb.info.id)).isSome
    · rw [if_pos hsome]
      exact hsome
    · rw [if_neg hsome]
      exact congrArg Option.isSome (if_pos rfl)
  | «attribute» entity attributePb =>
    obtain ⟨a, ha⟩ := Option.isSome_iff_exists.mp (hneeds entity rfl)
    refine ⟨constructAttribute a attributePb, (if_pos rfl).trans (congrArg (Option.map _) ha), ?_⟩
    unfold constructAttribute
    by_cases hmem : attributePb.info.name ∈ a
    · rw [if_pos hmem]
      obtain ⟨type, htype⟩ := Table.mem_iff_lookup.mp hmem
      rw [htype]
      by_contra hne
      exact h ⟨a, type, ha, htype, fun heq => hne (congrArg some heq)⟩
    · rw [if_neg hmem, Table.lookup_insert, if_pos rfl]
  | port id portPb =>
    rw [apply]
    by_cases hnew : (v.attributes (.component id)).isSome ∧
        v.attributes (.port id portPb.info.name) = none
    · rw [dif_pos hnew]
      exact congrArg Option.isSome (if_pos rfl)
    · rw [dif_neg hnew]
      refine Option.isSome_iff_ne_none.mpr fun hnone => hnew ⟨hneeds _ rfl, hnone⟩
  | reconfigure id name => trivial
  | worker id workerPb =>
    exact Option.isSome_iff_ne_none.mpr fun hnone => h ⟨hneeds _ rfl, hnone⟩

/-- A step whose work is done succeeds, and adds nothing. -/
theorem Met.done {s : Step} (h : s.Met v) (env : Environment) :
    ¬ s.Fails env v ∧ s.apply env.library v = v := by
  cases s with
  | logger loggerPb =>
    refine ⟨?_, apply_logger_of_not _ h.1 h.2⟩
    rintro (⟨hclient, hnone, -⟩ | ⟨htype, hnone, e, he⟩)
    · exact hnone (h.1 _ hclient)
    · refine hnone (h.2 ⟨htype, fun hmode => ?_⟩)
      rw [newLoganLogger, hmode] at he
      cases he
  | component componentPb =>
    refine ⟨fun hfails => ?_, if_pos h⟩
    have hsome : (v.attributes (.component componentPb.info.id)).isSome := h
    rw [hfails.1] at hsome
    cases hsome
  | «attribute» entity attributePb =>
    obtain ⟨a, ha, hname⟩ := h
    refine ⟨?_, Inventory.ext (funext fun e => ?_) rfl rfl⟩
    · rintro ⟨a', type, ha', htype, hne⟩
      cases ha.symm.trans ha'
      exact hne (Option.some.inj (htype.symm.trans hname))
    · by_cases he : e = entity
      · refine (if_pos he).trans ?_
        rw [he, ha]
        exact congrArg some (if_pos (Table.mem_of_lookup hname))
      · exact if_neg he
  | port id portPb =>
    have hsome : (v.attributes (.port id portPb.info.name)).isSome := h
    refine ⟨fun hfails => ?_, dif_neg fun hnew => ?_⟩
    · rw [hfails.2.1] at hsome
      cases hsome
    · rw [hnew.2] at hsome
      cases hsome
  | reconfigure id name => exact ⟨fun h => h, rfl⟩
  | worker id workerPb =>
    have hsome : (v.attributes (.worker id workerPb.info.name)).isSome := h
    refine ⟨fun hfails => ?_, rfl⟩
    rw [hfails.2] at hsome
    cases hsome

end Step

/-! ## Steps done again -/

/-- Nor do all of them together. -/
theorem extends_applyAll (library : Library) (v : Inventory) (l : List Step) :
    Extends v (applyAll library v l) := by
  induction l generalizing v with
  | nil => exact .refl v
  | cons s l ih => exact (s.extends_apply library v).trans (ih _)

/-- The entities that the steps work on are known, or an earlier step gets them. -/
def Grounded (known : Set Entity) : List Step → Prop
  | [] => True
  | s :: l => (∀ e, s.needs = some e → e ∈ known) ∧
      Grounded (known ∪ { e | s.gives = some e }) l

theorem Grounded.mono {known known' : Set Entity} {l : List Step} (h : Grounded known l)
    (hknown : known ⊆ known') : Grounded known' l := by
  induction l generalizing known known' with
  | nil => trivial
  | cons s l ih =>
    exact ⟨fun e he => hknown (h.1 e he), ih h.2 (Set.union_subset_union_left _ hknown)⟩

/-- Steps whose needs are met by known entities may stand in a row. -/
theorem Grounded.append {known : Set Entity} {l l' : List Step} (h : Grounded known l)
    (h' : Grounded known l') : Grounded known (l ++ l') := by
  induction l generalizing known with
  | nil => exact h'
  | cons s l ih => exact ⟨h.1, ih h.2 (h'.mono Set.subset_union_left)⟩

theorem Grounded.of_append {known : Set Entity} {l l' : List Step}
    (h : Grounded known (l ++ l')) : Grounded known l := by
  induction l generalizing known with
  | nil => trivial
  | cons s l ih => exact ⟨h.1, ih h.2⟩

theorem Grounded.map {α : Type} {known : Set Entity} {f : α → Step} {l : List α}
    (h : ∀ a e, (f a).needs = some e → e ∈ known) : Grounded known (l.map f) := by
  induction l generalizing known with
  | nil => trivial
  | cons a l ih => exact ⟨h a, ih fun b e he => .inl (h b e he)⟩

theorem Grounded.flatMap {α : Type} {known : Set Entity} {f : α → List Step} {l : List α}
    (h : ∀ a, Grounded known (f a)) : Grounded known (l.flatMap f) := by
  induction l with
  | nil => trivial
  | cons a l ih =>
    rw [List.flatMap_cons]
    exact (h a).append ih

/-- Ports need their component only. -/
theorem grounded_portSteps {known : Set Entity} (h : .component id ∈ known) (portPb : PortPb) :
    Grounded known (portSteps id portPb) := by
  refine ⟨fun e he => ?_, .append (.map fun _ e he => ?_) ⟨nofun, trivial⟩⟩
  · cases he
    exact h
  · cases he
    exact .inr rfl

/-- So do workers. -/
theorem grounded_workerSteps {known : Set Entity} (h : .component id ∈ known)
    (workerPb : WorkerPb) : Grounded known (workerSteps id workerPb) := by
  refine ⟨fun e he => ?_, .map fun _ e he => ?_⟩
  · cases he
    exact h
  · cases he
    exact .inr rfl

/-- A component comes before its members. -/
theorem grounded_componentSteps (known : Set Entity) (componentPb : ComponentPb) :
    Grounded known (componentSteps componentPb) := by
  refine ⟨nofun, .append (.append (.map fun _ e he => ?_) (.flatMap fun portPb => ?_))
    (.flatMap fun workerPb => ?_)⟩
  · cases he
    exact .inr rfl
  · exact grounded_portSteps (.inr rfl) portPb
  · exact grounded_workerSteps (.inr rfl) workerPb

/-- The steps of a container need nothing from outside. -/
theorem grounded_steps (container : ContainerPb) : Grounded ∅ (steps container) :=
  .append (.map nofun) (.flatMap (grounded_componentSteps ∅))

/-- Steps that succeed leave nothing to do. -/
theorem met_of_passes {known : Set Entity} {l : List Step} (hl : Grounded known l)
    (hknown : ∀ e ∈ known, (v.attributes e).isSome) (hpasses : Passes env v l) :
    ∀ s ∈ l, s.Met (applyAll env.library v l) := by
  induction l generalizing known v with
  | nil => nofun
  | cons s l ih =>
    have hmet : s.Met (s.apply env.library v) :=
      Step.met_apply hpasses.1 fun e he => hknown e (hl.1 e he)
    intro s' hs'
    rcases List.mem_cons.mp hs' with rfl | hs'
    · exact hmet.mono (extends_applyAll env.library _ l)
    · refine ih hl.2 ?_ hpasses.2 s' hs'
      rintro e (he | he)
      · exact (s.extends_apply env.library v).isSome (hknown e he)
      · exact hmet.isSome he

/-- Steps that have been done once pass again and change nothing. -/
theorem passes_of_met {l : List Step} (h : ∀ s ∈ l, s.Met v) (env : Environment) :
    Passes env v l ∧ applyAll env.library v l = v := by
  induction l with
  | nil => exact ⟨trivial, rfl⟩
  | cons s l ih =>
    obtain ⟨hfails, happly⟩ := (h s List.mem_cons_self).done env
    obtain ⟨hpasses, hall⟩ := ih fun s' hs' => h s' (List.mem_cons_of_mem s hs')
    refine ⟨⟨hfails, ?_⟩, ?_⟩
    · rw [happly]
      exact hpasses
    · show applyAll env.library (s.apply env.library v) l = v
      rw [happly, hall]

/-- The steps that were passed in one environment are passed again in another one with the same
library, and the rest goes on as it would have. -/
theorem replay {env' : Environment} (hlibrary : env'.library = env.library) {l l' : List Step}
    (hl : Grounded ∅ l) (hpasses : Passes env v l) (h : Passes env' v (l ++ l')) :
    Passes env' (applyAll env.library v l) (l ++ l') := by
  obtain ⟨hpassed, hsame⟩ := passes_of_met (met_of_passes hl nofun hpasses) env'
  refine passes_append.mpr ⟨hpassed, ?_⟩
  rw [hsame, ← hlibrary]
  exact (passes_append.mp h).2

/-! ## Only a logger more -/

/-- The second inventory has at most a logger more than the first one. -/
structure SameEntities (v w : Inventory) : Prop where
  attributes : w.attributes = v.attributes
  clients : w.clients = v.clients
  logger : v.logger → w.logger

/-- A step does the same to states with the same entities. -/
theorem SameEntities.apply (h : SameEntities v w) (library : Library) (s : Step) :
    SameEntities (s.apply library v) (s.apply library w) := by
  obtain ⟨attributes, clients, logger, owned⟩ := v
  obtain ⟨attributes', clients', logger', owned'⟩ := w
  obtain ⟨rfl, rfl, hlogger⟩ := h
  cases s with
  | logger loggerPb => exact ⟨rfl, rfl, Or.imp_left hlogger⟩
  | component componentPb =>
    rw [Step.apply, Step.apply]
    by_cases hsome : (attributes' (.component componentPb.info.id)).isSome
    · rw [if_pos hsome, if_pos hsome]
      exact ⟨rfl, rfl, hlogger⟩
    · rw [if_neg hsome, if_neg hsome]
      exact ⟨rfl, rfl, hlogger⟩
  | «attribute» entity attributePb => exact ⟨rfl, rfl, hlogger⟩
  | port id portPb =>
    rw [Step.apply, Step.apply]
    by_cases hnew : (attributes' (.component id)).isSome ∧
        attributes' (.port id portPb.info.name) = none
    · rw [dif_pos hnew, dif_pos hnew]
      exact ⟨rfl, rfl, hlogger⟩
    · rw [dif_neg hnew, dif_neg hnew]
      exact ⟨rfl, rfl, hlogger⟩
  | reconfigure id name => exact ⟨rfl, rfl, hlogger⟩
  | worker id workerPb => exact ⟨rfl, rfl, hlogger⟩

/-- And fails for the same. -/
theorem SameEntities.fails (h : SameEntities v w) {s : Step} (hfails : s.Fails env w) :
    s.Fails env v := by
  obtain ⟨attributes, clients, logger, owned⟩ := v
  obtain ⟨attributes', clients', logger', owned'⟩ := w
  obtain ⟨rfl, rfl, hlogger⟩ := h
  cases s with
  | logger loggerPb =>
    obtain hclient | ⟨htype, hnone, he⟩ := hfails
    · exact .inl hclient
    · exact .inr ⟨htype, fun h => hnone (hlogger h), he⟩
  | component | «attribute» | port | reconfigure | worker => exact hfails

/-- So a whole list passes in both. -/
theorem Passes.mono {l : List Step} (h : Passes env v l) (hvw : SameEntities v w) :
    Passes env w l := by
  induction l generalizing v w with
  | nil => trivial
  | cons s l ih =>
    exact ⟨fun hfails => h.1 (hvw.fails hfails), ih h.2 (hvw.apply env.library s)⟩

/-! ## What a list adds -/

/-- The component that the step adds to. -/
def Step.owner : Step → Option Text
  | .logger _ | .reconfigure _ _ => none
  | .component componentPb => some componentPb.info.id
  | .attribute entity _ => some entity.owner
  | .port id _ | .worker id _ => some id

/-- A step changes attributes of its own entity only. -/
theorem Step.attributes_apply {s : Step} {e : Entity} (h : s.owner ≠ some e.owner) :
    (s.apply library v).attributes e = v.attributes e := by
  cases s with
  | logger loggerPb => rfl
  | component componentPb =>
    rw [apply]
    by_cases hsome : (v.attributes (.component componentPb.info.id)).isSome
    · rw [if_pos hsome]
    · rw [if_neg hsome]
      exact if_neg fun he => h (congrArg some he.symm)
  | «attribute» entity attributePb =>
    exact if_neg fun he => h (congrArg some (congrArg Entity.owner he).symm)
  | port id portPb =>
    rw [apply]
    by_cases hnew : (v.attributes (.component id)).isSome ∧
        v.attributes (.port id portPb.info.name) = none
    · rw [dif_pos hnew]
      refine if_neg fun he => h ?_
      rw [he]
      rfl
    · rw [dif_neg hnew]
  | reconfigure | worker => rfl

/-- Other components stay as they are. -/
theorem attributes_applyAll {l : List Step} {e : Entity} (h : ∀ s ∈ l, s.owner ≠ some e.owner) :
    (applyAll library v l).attributes e = v.attributes e := by
  induction l generalizing v with
  | nil => rfl
  | cons s l ih =>
    refine (ih fun s' hs' => h s' (List.mem_cons_of_mem s hs')).trans ?_
    exact s.attributes_apply (h s List.mem_cons_self)

/-- A component is there if it was, or if the step makes it. -/
theorem Step.component_apply (s : Step) : ((s.apply library v).attributes (.component id)).isSome ↔
    (v.attributes (.component id)).isSome ∨ ∃ k, s = .component k ∧ k.info.id = id := by
  cases s with
  | logger | reconfigure | worker => exact (or_iff_left (by simp)).symm
  | component componentPb =>
    rw [apply]
    by_cases hsome : (v.attributes (.component componentPb.info.id)).isSome
    · rw [if_pos hsome]
      refine (or_iff_left_of_imp ?_).symm
      rintro ⟨k, hk, rfl⟩
      cases hk
      exact hsome
    · rw [if_neg hsome]
      by_cases hid : id = componentPb.info.id
      · exact iff_of_true (congrArg Option.isSome (if_pos hid)) (.inr ⟨componentPb, rfl, hid.symm⟩)
      · have hsame : (v.addComponent componentPb.info.id
            (library.component componentPb)).attributes (.component id) =
            v.attributes (.component id) := if_neg hid
        rw [hsame]
        refine (or_iff_left ?_).symm
        rintro ⟨k, hk, rfl⟩
        cases hk
        exact hid rfl
  | «attribute» entity attributePb =>
    refine Iff.trans ?_ (or_iff_left (by simp)).symm
    show (if Entity.component id = entity then Option.map _ _ else _ : Option _).isSome ↔ _
    by_cases he : Entity.component id = entity
    · rw [if_pos he, Option.isSome_map]
    · rw [if_neg he]
  | port portId portPb =>
    refine Iff.trans ?_ (or_iff_left (by simp)).symm
    rw [apply]
    by_cases hnew : (v.attributes (.component portId)).isSome ∧
        v.attributes (.port portId portPb.info.name) = none
    · rw [dif_pos hnew]
      have hsame : (v.addPort portPb.info.name (library.port portPb) hnew.1).attributes
          (.component id) = v.attributes (.component id) := rfl
      rw [hsame]
    · rw [dif_neg hnew]

/-- Or if some step has made it. -/
theorem component_applyAll (library : Library) {l : List Step} :
    ((applyAll library v l).attributes (.component id)).isSome ↔
      (v.attributes (.component id)).isSome ∨ ∃ k, .component k ∈ l ∧ k.info.id = id := by
  induction l generalizing v with
  | nil => simp [applyAll]
  | cons s l ih =>
    refine ih.trans ?_
    rw [s.component_apply, or_assoc]
    simp only [List.mem_cons, or_and_right, exists_or, eq_comm]

theorem Step.clients_apply (s : Step) : id ∈ (s.apply library v).clients ↔
    id ∈ v.clients ∨ ∃ loggerPb, s = .logger loggerPb ∧ loggerPb.IsClient id := by
  cases s with
  | logger loggerPb =>
    refine or_congr_right ⟨fun h => ⟨loggerPb, rfl, h⟩, ?_⟩
    rintro ⟨loggerPb', h, hclient⟩
    cases h
    exact hclient
  | component componentPb =>
    refine Iff.trans ?_ (or_iff_left (by simp)).symm
    rw [apply]
    by_cases hsome : (v.attributes (.component componentPb.info.id)).isSome
    · rw [if_pos hsome]
    · rw [if_neg hsome]
      exact Iff.rfl
  | port id portPb =>
    refine Iff.trans ?_ (or_iff_left (by simp)).symm
    rw [apply]
    by_cases hnew : (v.attributes (.component id)).isSome ∧
        v.attributes (.port id portPb.info.name) = none
    · rw [dif_pos hnew]
      exact Iff.rfl
    · rw [dif_neg hnew]
  | «attribute» | reconfigure | worker => exact (or_iff_left (by simp)).symm

/-- The same for the clients of loggers. -/
theorem clients_applyAll (library : Library) {l : List Step} : id ∈ (applyAll library v l).clients ↔
    id ∈ v.clients ∨ ∃ loggerPb, .logger loggerPb ∈ l ∧ loggerPb.IsClient id := by
  induction l generalizing v with
  | nil => simp [applyAll]
  | cons s l ih =>
    refine ih.trans ?_
    rw [s.clients_apply, or_assoc]
    simp only [List.mem_cons, or_and_right, exists_or, eq_comm]

/-- The steps of a message work on the components that it names. -/
theorem exists_of_owner {container : ContainerPb} {s : Step} (h : s ∈ steps container)
    (hid : s.owner = some id) : ∃ k ∈ container.components, k.info.id = id := by
  rcases List.mem_append.mp h with h | h
  · obtain ⟨loggerPb, -, rfl⟩ := List.mem_map.mp h
    cases hid
  · obtain ⟨k, hk, h⟩ := List.mem_flatMap.mp h
    refine ⟨k, hk, ?_⟩
    simp only [componentSteps, partSteps, portSteps, workerSteps, List.mem_cons, List.mem_append,
      List.mem_map, List.mem_flatMap, List.not_mem_nil, or_false] at h
    obtain rfl | (⟨a, -, rfl⟩ | ⟨portPb, -, rfl | ⟨a, -, rfl⟩ | rfl⟩) |
      ⟨workerPb, -, rfl | ⟨a, -, rfl⟩⟩ := h <;> cases hid <;> rfl

end Sem.NodeManager.DeploymentContainer
