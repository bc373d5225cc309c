import Mathlib.Data.List.ReduceOption
import Sem.Lib.Closure
import Sem.ReGen.GmlFunctions

/-!
# The classes that are built (`cdit:get_class_instances`, `cdit:get_classes_to_build`)

A component has instances of classes, and their definitions have instances again. The classes that
were visited are not remembered.

* `closure_iff`: where the recursion comes to an end with the classes that are reached, and where
  the classes to build are each listed once.
* `Meets`: no class that is reached has an instance of itself at any depth, and every instance that
  is met has one definition, which is a class.
-/

namespace Sem.ReGen.Gml

open Xml (Text)

namespace Document

variable (doc : Document)

/-- The instances of classes in a component or class. -/
def instancesIn (entity : ℕ) : List ℕ :=
  doc.getDescendantNodesOfKind [entity] [lit "ClassInstance"]

/-- The classes of the instances at any depth, as often as they are met. -/
def getClassInstances : ℕ → ℕ → Option (List ℕ)
  | 0, _ => none
  | depth + 1, entity =>
    ((doc.instancesIn entity).mapM fun i =>
      (doc.isClassInstanceWorker depth i).bind fun worker =>
        if worker then some []
        else (doc.getDefinition depth i).bind fun classDefinition =>
          (getClassInstances depth classDefinition).map (classDefinition :: ·)).map List.flatten

/-- `o:remove_duplicates`. -/
def removeDuplicates (elements : List ℕ) : List ℕ := elements.eraseDups

/-- `cdit:get_components_to_build`: all, or those whose instances are deployed. -/
def getComponentsToBuild (depth : ℕ) (generateAll : Bool) : Option (List ℕ) :=
  let requiredComponents :=
    if generateAll then some (doc.getNodesOfKind [lit "ComponentImpl"])
    else (doc.getDeployedComponentInstances.mapM (doc.getImpl depth)).map List.reduceOption
  requiredComponents.map removeDuplicates

/-- `cdit:get_classes_to_build`: the classes of all instances in the components. -/
def getClassesToBuild (depth : ℕ) (generateAll : Bool) : Option (List ℕ) :=
  (doc.getComponentsToBuild depth generateAll).bind fun components =>
    (components.mapM (doc.getClassInstances depth)).map fun classes =>
      removeDuplicates classes.flatten

/-! ## Classes that are reached -/

/-- A definition at the end of some chain of definitions. -/
def DefinedBy (i d : ℕ) : Prop :=
  Relation.ReflTransGen (fun i j => j ∈ doc.getTargets i (lit "Edge_Definition")) i d ∧
    doc.getTargets d (lit "Edge_Definition") = []

/-- The definition at the end of the only chain of definitions. -/
def Defines (i d : ℕ) : Prop :=
  Relation.ReflTransGen (fun i j => doc.getTargets i (lit "Edge_Definition") = [j]) i d ∧
    doc.getTargets d (lit "Edge_Definition") = []

/-- The class is a worker. -/
def IsWorker (d : ℕ) : Prop := doc.gotData d (lit "worker") = true

/-- There is an instance of the class, which is no worker, in the component or class. -/
def ClassStep (entity d : ℕ) : Prop :=
  ∃ i ∈ doc.instancesIn entity, doc.DefinedBy i d ∧ doc.hasKind [lit "Class"] d = true ∧
    ¬ doc.IsWorker d

/-- A class is reached by instances in instances. -/
def ReachesClass (entity d : ℕ) : Prop := Relation.TransGen doc.ClassStep entity d

/-- The recursion comes to an end with the classes that are reached. -/
def CollectsClasses (component : ℕ) : Prop :=
  ∃ depth classes, doc.getClassInstances depth component = some classes ∧
    ∀ d, d ∈ classes ↔ doc.ReachesClass component d

/-- The classes to build are those that the components reach, each once. -/
def ListsClassesOnce (generateAll : Bool) : Prop :=
  ∃ depth components classes, doc.getComponentsToBuild depth generateAll = some components ∧
    doc.getClassesToBuild depth generateAll = some classes ∧ classes.Nodup ∧
    ∀ d, d ∈ classes ↔ ∃ component ∈ components, doc.ReachesClass component d

/-- An instance that is not of a worker leads to its definition. -/
def InstanceStep (entity d : ℕ) : Prop :=
  ∃ i ∈ doc.instancesIn entity, doc.Defines i d ∧ ¬ doc.IsWorker d

/-- What a component needs for its classes to be found. -/
structure Meets (component : ℕ) : Prop where
  /-- Nothing that is reached has an instance of itself, at any depth. -/
  acyclic : ∀ d, Relation.ReflTransGen doc.InstanceStep component d →
    ¬ Relation.TransGen doc.InstanceStep d d
  /-- Every instance that is met has one chain of definitions, to a worker or to a class. -/
  defined : ∀ e, Relation.ReflTransGen doc.InstanceStep component e → ∀ i ∈ doc.instancesIn e,
    ∃ d, doc.Defines i d ∧ (doc.IsWorker d ∨ doc.hasKind [lit "Class"] d = true)

variable {doc} {depth i d e c : ℕ}

/-! ## Definitions -/

/-- Some depth is enough exactly where there is a definition at the end. -/
theorem exists_getDefinition_iff :
    (∃ depth, doc.getDefinition depth i = some d) ↔ doc.Defines i d := by
  constructor
  · rintro ⟨depth, h⟩
    induction depth generalizing i with
    | zero => cases h
    | succ depth ih =>
      rcases getDefinition_succ.mp h with ⟨hnil, rfl⟩ | ⟨j, hj, h⟩
      · exact ⟨.refl, hnil⟩
      · exact ⟨.head hj (ih h).1, (ih h).2⟩
  · rintro ⟨hchain, hend⟩
    induction hchain using Relation.ReflTransGen.head_induction_on with
    | refl => exact ⟨1, getDefinition_succ.mpr (.inl ⟨hend, rfl⟩)⟩
    | head hij _ ih =>
      obtain ⟨depth, h⟩ := ih
      exact ⟨depth + 1, getDefinition_succ.mpr (.inr ⟨_, hij, h⟩)⟩

theorem Defines.definedBy (h : doc.Defines i d) : doc.DefinedBy i d :=
  ⟨Relation.ReflTransGen.mono (fun _ _ hij => by simp [hij]) _ _ h.1, h.2⟩

/-- Where there is one chain, every chain leads to its end. -/
theorem Defines.eq_of_definedBy (h : doc.Defines i d) {d' : ℕ} (h' : doc.DefinedBy i d') :
    d = d' := by
  obtain ⟨hchain, hend⟩ := h
  obtain ⟨hchain', hend'⟩ := h'
  induction hchain using Relation.ReflTransGen.head_induction_on with
  | refl =>
    rcases Relation.ReflTransGen.cases_head hchain' with rfl | ⟨j, hj, -⟩
    · rfl
    · rw [hend] at hj
      cases hj
  | head hij _ ih =>
    rcases Relation.ReflTransGen.cases_head hchain' with rfl | ⟨j, hj, hchain'⟩
    · rw [hend'] at hij
      cases hij
    · rw [hij, List.mem_singleton] at hj
      exact ih (hj ▸ hchain')

/-- There is one at most. -/
theorem Defines.unique (h : doc.Defines i d) {d' : ℕ} (h' : doc.Defines i d') : d = d' :=
  h.eq_of_definedBy h'.definedBy

/-! ## The recursion collects -/

variable (doc) in
/-- The definitions of the instances in a component or class that are no workers. -/
def classesIn (depth entity : ℕ) : Option (List ℕ) :=
  ((doc.instancesIn entity).mapM fun i => (doc.getDefinition depth i).map fun d =>
    if doc.gotData d (lit "worker") then none else some d).map List.reduceOption

/-- The nodes that are left out lead nowhere. -/
theorem mapM_reduceOption {f : ℕ → Option (Option ℕ)} {g : ℕ → Option (List ℕ)} (is : List ℕ) :
    (is.mapM fun i => (f i).bind fun d =>
      match d with
      | none => some []
      | some d => (g d).map (d :: ·)).map List.flatten =
    ((is.mapM f).map List.reduceOption).bind fun ds =>
      (ds.mapM fun d => (g d).map (d :: ·)).map List.flatten := by
  induction is with
  | nil => rfl
  | cons i is ih =>
    rw [List.mapM_cons, List.mapM_cons]
    generalize hrest : is.mapM (fun i => (f i).bind _) = rest at ih ⊢
    cases f i with
    | none => rfl
    | some d =>
      cases hds : is.mapM f with
      | none =>
        rw [hds] at ih
        cases rest with
        | none => cases d with
          | none => rfl
          | some d => cases hg : g d <;> simp [hg]
        | some rest => cases ih
      | some ds =>
        cases d with
        | none => cases rest <;> simp_all
        | some d =>
          cases hg : g d with
          | none => cases rest <;> simp_all
          | some l =>
            cases rest with
            | none => simp_all
            | some rest =>
              obtain ⟨ls, hls, hflatten⟩ : ∃ ls, ds.reduceOption.mapM
                  (fun d => (g d).map (d :: ·)) = some ls ∧ ls.flatten = rest.flatten := by
                simpa [hds] using ih
              simp [hg, hls, hflatten]

/-- The template is the closure of the step from an entity to the classes inside it. -/
theorem getClassInstances_eq (depth entity : ℕ) :
    doc.getClassInstances depth entity = collect doc.classesIn depth entity := by
  induction depth generalizing entity with
  | zero => rfl
  | succ depth ih =>
    rw [collect, classesIn, ← mapM_reduceOption, getClassInstances]
    congr 2
    funext i
    rw [isClassInstanceWorker]
    cases doc.getDefinition depth i with
    | none => rfl
    | some d => cases h : doc.gotData d (lit "worker") <;> simp [h, ih]

/-! ## Instances that are defined -/

theorem isNode_of_mem_getTargets {j : ℕ} {edgeKind : Text} (h : j ∈ doc.getTargets i edgeKind) :
    doc.isNode j = true := by
  obtain ⟨e, -, h⟩ := List.mem_filterMap.mp h
  obtain ⟨id, -, h⟩ := Option.bind_eq_some_iff.mp h
  exact (XPath.Document.mem_select.mp (List.mem_of_find?_eq_some h)).2

theorem Defines.isNode (h : doc.Defines i d) (hi : doc.isNode i = true) : doc.isNode d = true := by
  rcases Relation.ReflTransGen.cases_tail h.1 with rfl | ⟨j, -, hj⟩
  · exact hi
  · exact isNode_of_mem_getTargets (by rw [hj]; exact List.mem_singleton_self d)

theorem isNode_of_mem_instancesIn (h : i ∈ doc.instancesIn e) : doc.isNode i = true := by
  have hlt : ∀ j ∈ doc.getDescendantNodes [e], j < doc.nodes.length := fun j hj =>
    isNode_lt_length (mem_getDescendantNodes.mp hj).1
  exact (mem_getDescendantNodes.mp ((mem_filterKind_iff hlt).mp h).1).1

theorem mono_classesIn : Closure.Mono doc.classesIn := by
  intro m n e bs hmn h
  obtain ⟨ds, hds, rfl⟩ := Option.map_eq_some_iff.mp h
  refine Option.map_eq_some_iff.mpr ⟨ds, mapM_mono (fun i o ho => ?_) hds, rfl⟩
  obtain ⟨d, hd, rfl⟩ := Option.map_eq_some_iff.mp ho
  exact Option.map_eq_some_iff.mpr ⟨d, getDefinition_mono hmn hd, rfl⟩

/-- The classes of the instances inside. -/
theorem mem_classesIn {bs : List ℕ} (h : doc.classesIn depth e = some bs) :
    d ∈ bs ↔ doc.InstanceStep e d := by
  obtain ⟨ds, hds, rfl⟩ := Option.map_eq_some_iff.mp h
  rw [List.reduceOption_mem_iff]
  constructor
  · intro hd
    obtain ⟨i, hi, hid⟩ := exists_source_of_mapM hds hd
    obtain ⟨d', hd', heq⟩ := Option.map_eq_some_iff.mp hid
    split at heq
    · cases heq
    · next hworker =>
      cases heq
      exact ⟨i, hi, exists_getDefinition_iff.mp ⟨depth, hd'⟩, hworker⟩
  · rintro ⟨i, hi, hdef, hworker⟩
    obtain ⟨o, ho, hio⟩ := exists_image_of_mapM hds hi
    obtain ⟨d', hd', rfl⟩ := Option.map_eq_some_iff.mp hio
    obtain rfl := hdef.unique (exists_getDefinition_iff.mp ⟨depth, hd'⟩)
    have hworker : ¬ doc.gotData d (lit "worker") = true := hworker
    rwa [if_neg hworker] at ho

/-- They are found if every instance has a definition. -/
theorem exists_classesIn_iff : (∃ depth bs, doc.classesIn depth e = some bs) ↔
    ∀ i ∈ doc.instancesIn e, ∃ d, doc.Defines i d := by
  constructor
  · rintro ⟨depth, bs, h⟩ i hi
    obtain ⟨ds, hds, -⟩ := Option.map_eq_some_iff.mp h
    obtain ⟨o, -, hio⟩ := exists_image_of_mapM hds hi
    obtain ⟨d, hd, -⟩ := Option.map_eq_some_iff.mp hio
    exact ⟨d, exists_getDefinition_iff.mp ⟨depth, hd⟩⟩
  · intro h
    obtain ⟨n, ds, hds⟩ : ∃ n ds, (doc.instancesIn e).mapM (fun i =>
        (doc.getDefinition n i).map fun d =>
          if doc.gotData d (lit "worker") then none else some d) = some ds := by
      refine exists_fuel_mapM (fun m n i o hmn ho => ?_) fun i hi => ?_
      · obtain ⟨d, hd, rfl⟩ := Option.map_eq_some_iff.mp ho
        exact Option.map_eq_some_iff.mpr ⟨d, getDefinition_mono hmn hd, rfl⟩
      · obtain ⟨d, hd⟩ := h i hi
        obtain ⟨n, hn⟩ := exists_getDefinition_iff.mpr hd
        exact ⟨n, _, Option.map_eq_some_iff.mpr ⟨d, hn, rfl⟩⟩
    exact ⟨n, _, Option.map_eq_some_iff.mpr ⟨ds, hds, rfl⟩⟩

theorem instanceStep_of_step (h : Closure.Step doc.classesIn e d) : doc.InstanceStep e d := by
  obtain ⟨depth, bs, hbs, hd⟩ := h
  exact (mem_classesIn hbs).mp hd

theorem step_iff (h : ∀ i ∈ doc.instancesIn e, ∃ d, doc.Defines i d) :
    Closure.Step doc.classesIn e d ↔ doc.InstanceStep e d := by
  refine ⟨instanceStep_of_step, fun hd => ?_⟩
  obtain ⟨depth, bs, hbs⟩ := exists_classesIn_iff.mpr h
  exact ⟨depth, bs, hbs, (mem_classesIn hbs).mpr hd⟩

/-- A document has finitely many nodes. -/
theorem finite_reachable (c : ℕ) :
    {e | Relation.ReflTransGen (Closure.Step doc.classesIn) c e}.Finite := by
  refine ((Set.finite_lt_nat doc.nodes.length).insert c).subset fun e he => ?_
  rcases Relation.ReflTransGen.cases_tail he with rfl | ⟨e', -, hstep⟩
  · exact Set.mem_insert _ _
  · obtain ⟨i, hi, hdef, -⟩ := instanceStep_of_step hstep
    exact Set.mem_insert_of_mem _ (isNode_lt_length (hdef.isNode (isNode_of_mem_instancesIn hi)))

/-! ## The end of the recursion -/

/-- The recursion ends exactly if no class on the way contains itself and every instance is defined. -/
theorem exists_getClassInstances_iff : (∃ depth classes,
      doc.getClassInstances depth c = some classes) ↔
    (∀ d, Relation.ReflTransGen doc.InstanceStep c d → ¬ Relation.TransGen doc.InstanceStep d d) ∧
      ∀ e, Relation.ReflTransGen doc.InstanceStep c e →
        ∀ i ∈ doc.instancesIn e, ∃ d, doc.Defines i d := by
  simp only [getClassInstances_eq]
  rw [Closure.exists_collect_iff mono_classesIn, Closure.acc_iff_of_finite (finite_reachable c)]
  simp only [exists_classesIn_iff]
  -- On both sides everything that the recursion reaches is defined, so the two steps agree there.
  suffices hcongr : (∀ e, Relation.ReflTransGen (Closure.Step doc.classesIn) c e →
      ∀ i ∈ doc.instancesIn e, ∃ d, doc.Defines i d) →
      ∀ e, Relation.ReflTransGen (Closure.Step doc.classesIn) c e →
        ∀ d, Closure.Step doc.classesIn e d ↔ doc.InstanceStep e d by
    constructor
    · rintro ⟨hcycle, hdef⟩
      have hreach := fun e => Closure.reflTransGen_congr (b := e) (hcongr hdef)
      refine ⟨fun d hd hdd => ?_, fun e he => hdef e ((hreach e).mpr he)⟩
      have hd := (hreach d).mpr hd
      exact hcycle d hd ((Closure.transGen_congr fun e he => hcongr hdef e (hd.trans he)).mpr hdd)
    · rintro ⟨hcycle, hdef⟩
      have hsub : ∀ e, Relation.ReflTransGen (Closure.Step doc.classesIn) c e →
          Relation.ReflTransGen doc.InstanceStep c e := fun e =>
        Relation.ReflTransGen.mono (fun _ _ => instanceStep_of_step) c e
      refine ⟨fun d hd hdd => hcycle d (hsub d hd) ?_, fun e he => hdef e (hsub e he)⟩
      exact Relation.TransGen.mono (fun _ _ => instanceStep_of_step) d d hdd
  exact fun hdef e he d => step_iff (hdef e he)

/-- It collects whatever is reachable. -/
theorem mem_getClassInstances {classes : List ℕ}
    (h : doc.getClassInstances depth c = some classes) :
    d ∈ classes ↔ Relation.TransGen doc.InstanceStep c d := by
  rw [getClassInstances_eq] at h
  rw [Closure.mem_collect_iff mono_classesIn h]
  refine Closure.transGen_congr fun e he d => step_iff (exists_classesIn_iff.mp ?_)
  exact (Closure.acc_of_collect mono_classesIn h).2 e he

/-- What is reached are classes where the instances that are met have classes. -/
theorem Meets.transGen_iff (h : doc.Meets c) :
    Relation.TransGen doc.InstanceStep c d ↔ doc.ReachesClass c d := by
  refine Closure.transGen_congr fun e he d => exists_congr fun i => ?_
  refine and_congr_right fun hi => ?_
  obtain ⟨d', hdef, hclass⟩ := h.defined e he i hi
  constructor
  · rintro ⟨hd, hworker⟩
    obtain rfl := hd.unique hdef
    exact ⟨hd.definedBy, hclass.resolve_left hworker, hworker⟩
  · rintro ⟨hd, -, hworker⟩
    obtain rfl := hdef.eq_of_definedBy hd
    exact ⟨hdef, hworker⟩

theorem Meets.exists_getClassInstances (h : doc.Meets c) :
    ∃ depth classes, doc.getClassInstances depth c = some classes := by
  refine exists_getClassInstances_iff.mpr ⟨h.acyclic, fun e he i hi => ?_⟩
  obtain ⟨d, hd, -⟩ := h.defined e he i hi
  exact ⟨d, hd⟩

/-- A recursion that ends, and that only classes are found by. -/
theorem meets_of_getClassInstances {classes : List ℕ}
    (h : doc.getClassInstances depth c = some classes)
    (hclass : ∀ d ∈ classes, doc.hasKind [lit "Class"] d = true) : doc.Meets c := by
  obtain ⟨hcycle, hdef⟩ := exists_getClassInstances_iff.mp ⟨depth, classes, h⟩
  refine ⟨hcycle, fun e he i hi => ?_⟩
  obtain ⟨d, hd⟩ := hdef e he i hi
  refine ⟨d, hd, ?_⟩
  by_cases hworker : doc.IsWorker d
  · exact .inl hworker
  · exact .inr (hclass d ((mem_getClassInstances h).mpr (.tail' he ⟨i, hi, hd, hworker⟩)))

theorem hasKind_of_reachesClass (h : doc.ReachesClass c d) :
    doc.hasKind [lit "Class"] d = true := by
  obtain ⟨e, -, i, -, -, hclass, -⟩ := Relation.TransGen.tail'_iff.mp h
  exact hclass

theorem collectsClasses_iff : doc.CollectsClasses c ↔ doc.Meets c := by
  constructor
  · rintro ⟨depth, classes, h, hmem⟩
    exact meets_of_getClassInstances h fun d hd => hasKind_of_reachesClass ((hmem d).mp hd)
  · intro h
    obtain ⟨depth, classes, hclasses⟩ := h.exists_getClassInstances
    exact ⟨depth, classes, hclasses, fun d =>
      (mem_getClassInstances hclasses).trans h.transGen_iff⟩

/-! ## The classes to build -/

theorem nodup_eraseDups (l : List ℕ) : l.eraseDups.Nodup := by
  induction h : l.length using Nat.strong_induction_on generalizing l with
  | _ n ih =>
    cases l with
    | nil => exact List.nodup_nil
    | cons a l =>
      rw [List.eraseDups_cons]
      refine List.nodup_cons.mpr ⟨fun hmem => ?_, ih _ ?_ _ rfl⟩
      · simpa using (List.mem_filter.mp (List.mem_eraseDups.mp hmem)).2
      · have := List.length_filter_le (fun b => !b == a) l
        rw [List.length_cons] at h
        omega

/-- More depth, the same classes. -/
theorem getClassInstances_mono {n : ℕ} {classes : List ℕ} (hle : depth ≤ n)
    (h : doc.getClassInstances depth c = some classes) :
    doc.getClassInstances n c = some classes := by
  rw [getClassInstances_eq] at h ⊢
  exact Closure.collect_mono mono_classesIn hle h

theorem getComponentsToBuild_mono {n : ℕ} {generateAll : Bool} {components : List ℕ}
    (hle : depth ≤ n) (h : doc.getComponentsToBuild depth generateAll = some components) :
    doc.getComponentsToBuild n generateAll = some components := by
  unfold getComponentsToBuild at h ⊢
  cases generateAll with
  | true => exact h
  | false =>
    obtain ⟨impls, himpls, rfl⟩ := Option.map_eq_some_iff.mp h
    obtain ⟨found, hfound, rfl⟩ := Option.map_eq_some_iff.mp himpls
    have hmono : doc.getDeployedComponentInstances.mapM (doc.getImpl n) = some found := by
      refine mapM_mono (fun i o ho => ?_) hfound
      obtain ⟨d, hd, ho⟩ := Option.bind_eq_some_iff.mp ho
      exact Option.bind_eq_some_iff.mpr ⟨d, getDefinition_mono hle hd, ho⟩
    simp [hmono]

theorem listsClassesOnce_iff {generateAll : Bool} : doc.ListsClassesOnce generateAll ↔
    ∃ depth components, doc.getComponentsToBuild depth generateAll = some components ∧
      ∀ component ∈ components, doc.Meets component := by
  constructor
  · rintro ⟨depth, components, classes, hcomponents, hclasses, -, hmem⟩
    refine ⟨depth, components, hcomponents, fun c hc => ?_⟩
    rw [getClassesToBuild, hcomponents, Option.bind_some] at hclasses
    obtain ⟨lists, hlists, rfl⟩ := Option.map_eq_some_iff.mp hclasses
    obtain ⟨l, hl, hcl⟩ := exists_image_of_mapM hlists hc
    refine meets_of_getClassInstances hcl fun d hd => ?_
    obtain ⟨c', -, hreach⟩ :=
      (hmem d).mp (List.mem_eraseDups.mpr (List.mem_flatten_of_mem hl hd))
    exact hasKind_of_reachesClass hreach
  · rintro ⟨m, components, hcomponents, hmeets⟩
    obtain ⟨n, lists, hlists⟩ : ∃ n lists,
        components.mapM (doc.getClassInstances n) = some lists :=
      exists_fuel_mapM (fun _ _ _ _ => getClassInstances_mono) fun c hc =>
        (hmeets c hc).exists_getClassInstances
    have hcomponents := getComponentsToBuild_mono (Nat.le_max_left m n) hcomponents
    have hlists := mapM_mono (fun _ _ => getClassInstances_mono (Nat.le_max_right m n)) hlists
    refine ⟨max m n, components, removeDuplicates lists.flatten, hcomponents, ?_,
      nodup_eraseDups _, fun d => ?_⟩
    · rw [getClassesToBuild, hcomponents, Option.bind_some, hlists, Option.map_some]
    · rw [removeDuplicates, List.mem_eraseDups, List.mem_flatten]
      constructor
      · rintro ⟨l, hl, hd⟩
        obtain ⟨c, hc, hcl⟩ := exists_source_of_mapM hlists hl
        exact ⟨c, hc, (hmeets c hc).transGen_iff.mp ((mem_getClassInstances hcl).mp hd)⟩
      · rintro ⟨c, hc, hreach⟩
        obtain ⟨l, hl, hcl⟩ := exists_image_of_mapM hlists hc
        exact ⟨l, hl, (mem_getClassInstances hcl).mpr ((hmeets c hc).transGen_iff.mpr hreach)⟩

/-- The classes of a component are collected, and the classes to build are listed once, exactly
where no class that is met has an instance of itself and all instances have a class. -/
theorem closure_iff (doc : Document) :
    (∀ component, doc.CollectsClasses component ↔ doc.Meets component) ∧
    ∀ generateAll, doc.ListsClassesOnce generateAll ↔
      ∃ depth components, doc.getComponentsToBuild depth generateAll = some components ∧
        ∀ component ∈ components, doc.Meets component :=
  ⟨fun _ => collectsClasses_iff, fun _ => listsClassesOnce_iff⟩

end Document

/-! ## A class with an instance of itself -/

/-- A component with an instance of a class that has an instance of itself. -/
def selfInstance : Document where
  nodes := [
    ⟨none, .element .graphml []⟩,
    ⟨some 0, .element .key [(.id, lit "d0"), (.attrName, lit "kind")]⟩,
    ⟨some 0, .element .graph []⟩,
    ⟨some 2, .element .node [(.id, lit "n0")]⟩,
    ⟨some 3, .element .data [(.key, lit "d0")]⟩,
    ⟨some 4, .text (lit "ComponentImpl")⟩,
    ⟨some 3, .element .graph []⟩,
    ⟨some 6, .element .node [(.id, lit "n1")]⟩,
    ⟨some 7, .element .data [(.key, lit "d0")]⟩,
    ⟨some 8, .text (lit "ClassInstance")⟩,
    ⟨some 2, .element .node [(.id, lit "n2")]⟩,
    ⟨some 10, .element .data [(.key, lit "d0")]⟩,
    ⟨some 11, .text (lit "Class")⟩,
    ⟨some 10, .element .graph []⟩,
    ⟨some 13, .element .node [(.id, lit "n3")]⟩,
    ⟨some 14, .element .data [(.key, lit "d0")]⟩,
    ⟨some 15, .text (lit "ClassInstance")⟩,
    ⟨some 2, .element .edge [(.source, lit "n1"), (.target, lit "n2")]⟩,
    ⟨some 17, .element .data [(.key, lit "d0")]⟩,
    ⟨some 18, .text (lit "Edge_Definition")⟩,
    ⟨some 2, .element .edge [(.source, lit "n3"), (.target, lit "n2")]⟩,
    ⟨some 20, .element .data [(.key, lit "d0")]⟩,
    ⟨some 21, .text (lit "Edge_Definition")⟩]
  parent_lt := by decide
  ids_nodup := by decide
  nodes_nested := by decide

theorem not_collectsClasses : ¬ ∀ (doc : Document) (component : ℕ),
    doc.getKind component = lit "ComponentImpl" → doc.CollectsClasses component := by
  intro h
  have hmeets := Document.collectsClasses_iff.mp (h selfInstance 3 (by decide))
  have htarget : ∀ i ∈ [7, 14], selfInstance.Defines i 10 := fun i hi =>
    ⟨.single (by revert i; decide), by decide⟩
  have hworker : ¬ selfInstance.IsWorker 10 := by unfold Document.IsWorker; decide
  have hfirst : selfInstance.InstanceStep 3 10 := ⟨7, by decide, htarget 7 (by decide), hworker⟩
  have hself : selfInstance.InstanceStep 10 10 := ⟨14, by decide, htarget 14 (by decide), hworker⟩
  exact hmeets.acyclic 10 (.single hfirst) (.single hself)

end Sem.ReGen.Gml
