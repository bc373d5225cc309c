import Mathlib.Data.List.Forall2
import Sem.Lib.Decimal
import Sem.Lib.Table
import Sem.Lib.Xml

/-!
# Paths of selected items

What is selected in a model filters the data of an experiment run by paths. The aggregation server
writes the index of the replica at every level into the path of an instance (`GetFullLocation`).
`getPath` writes the label of the parent and a wildcard, and the data is looked up by the path.

* `path_ne_getPath`: the path of a selected instance in an assembly is not that of a replica of it.
* `selects_iff`: when the data that are selected are those of the selected item.
-/

namespace Sem.Medea

open Xml (Text)

namespace Selection

/-! ## The model -/

/-- A component assembly, and how often it is there. -/
structure Assembly where
  label : Text
  replicationCount : ℕ
  deriving DecidableEq, Repr

/-- A component instance with the assemblies that it is in, the outermost one first. -/
structure ComponentInst where
  id : ℕ
  assemblies : List Assembly
  label : Text
  type : Text
  ports : List Text
  workers : List Text
  deriving DecidableEq, Repr

/-- A replica of a component instance, with its index in each assembly. -/
structure Replica where
  inst : ComponentInst
  indices : List ℕ
  below : List.Forall₂ (fun index assembly => index < assembly.replicationCount) indices
    inst.assemblies
  deriving DecidableEq

/-- The items whose selection filters the data by a path. -/
inductive Item
  | componentInst (inst : ComponentInst)
  | portInst (inst : ComponentInst) (label : Text)
  | workerInst (inst : ComponentInst) (label : Text)
  deriving DecidableEq, Repr

/-- `getPath` of a component instance; one that is in no assembly is in the
`AssemblyDefinitions`. -/
def ComponentInst.getPath (inst : ComponentInst) : Text :=
  match inst.assemblies.getLast? with
  | none => inst.label
  | some parent => parent.label ++ '.' :: '%' :: '/' :: inst.label

/-- The path of a replica, or of a part of one. -/
def getPath : Item → Text
  | .componentInst inst => inst.getPath
  | .portInst inst label => inst.getPath ++ '/' :: label
  | .workerInst inst label => inst.getPath ++ '/' :: label

/-! ## The paths of the aggregation server -/

/-- `AggServer::GetFullLocation`, which is not defined for lists of different lengths. -/
def getFullLocation : List Text → List ℕ → Text → Option Text
  | [], [], componentName => some componentName
  | location :: locations, index :: indices, componentName =>
    (getFullLocation locations indices componentName).map fun rest =>
      location ++ '.' :: (decimal index ++ '/' :: rest)
  | _, _, _ => none

/-- The path of a replica. -/
def Replica.path (r : Replica) : Text :=
  (getFullLocation (r.inst.assemblies.map Assembly.label) r.indices r.inst.label).getD []

/-! ## The data of a run -/

/-- `PortInstanceData` or `WorkerInstanceData` -/
structure PartData where
  owner : Replica
  name : Text
  path : Text
  deriving DecidableEq

/-- `ComponentInstanceData`, with its ports and workers by their labels. -/
structure ComponentInstanceData where
  owner : Replica
  path : Text
  portInstDataHash : Table Text PartData
  workerInstDataHash : Table Text PartData

/-- `ContainerInstanceData`, with its component instances by their paths. -/
structure ContainerInstanceData where
  compInstDataHash : Table Text ComponentInstanceData
  compNameHash : List (Text × Text)

/-- `addPortInstanceData` and `addWorkerInstanceData`, with the path that the server has given. -/
def addPartData (owner : Replica) (hash : Table Text PartData) (name : Text) :
    Table Text PartData :=
  let path := owner.path ++ '/' :: name
  if path ∈ hash then hash else hash.insert path ⟨owner, name, path⟩

namespace ComponentInstanceData

/-- `updateData` -/
def updateData (d : ComponentInstanceData) (r : Replica) : ComponentInstanceData :=
  { d with
    portInstDataHash := r.inst.ports.foldl (addPartData r) d.portInstDataHash
    workerInstDataHash := r.inst.workers.foldl (addPartData r) d.workerInstDataHash }

/-- The data of a replica that has not been seen before. -/
def construct (r : Replica) : ComponentInstanceData := updateData ⟨r, r.path, ∅, ∅⟩ r

/-- `getPortInstanceData` and `getWorkerInstanceData` of a hash. -/
def getPartData (hash : Table Text PartData) (paths : List Text) : List PartData :=
  if paths = [] then hash.values
  else paths.flatMap fun path => if path = [] then hash.values else (hash.lookup path).toList

end ComponentInstanceData

namespace ContainerInstanceData

/-- A container without component instances. -/
def empty : ContainerInstanceData := ⟨∅, []⟩

/-- `addComponentInstanceData`: data that are there are updated. -/
def addComponentInstanceData (c : ContainerInstanceData) (r : Replica) : ContainerInstanceData :=
  match c.compInstDataHash.lookup r.path with
  | none =>
    { compInstDataHash := c.compInstDataHash.insert r.path (.construct r)
      compNameHash := c.compNameHash ++ [(r.inst.type, r.path)] }
  | some d => { c with compInstDataHash := c.compInstDataHash.insert r.path (d.updateData r) }

/-- `getComponentInstanceData` of a path. -/
def getComponentInstanceData (c : ContainerInstanceData) (path : Text) :
    List ComponentInstanceData :=
  if path = [] then c.compInstDataHash.values else (c.compInstDataHash.lookup path).toList

/-- `getComponentInstanceData` of names and paths. -/
def getFilteredData (c : ContainerInstanceData) (compNames paths : List Text) :
    List ComponentInstanceData :=
  if compNames = [] ∧ paths = [] then c.getComponentInstanceData []
  else
    (paths ++ compNames.flatMap fun name =>
      (c.compNameHash.filter fun entry => entry.1 = name).map (·.2)).eraseDups.flatMap
        c.getComponentInstanceData

end ContainerInstanceData

/-- The containers after the component instances of all replies have been added to them. -/
def containers (received : List (List Replica)) : List ContainerInstanceData :=
  received.map fun replicas =>
    replicas.foldl ContainerInstanceData.addComponentInstanceData .empty

/-! ## What is selected -/

/-- What a selection can find. -/
inductive Datum
  | component (data : ComponentInstanceData)
  | port (data : PartData)
  | worker (data : PartData)

namespace Datum

/-- The path that the data have stored. -/
def path : Datum → Text
  | component data => data.path
  | port data => data.path
  | worker data => data.path

/-- The path was built for a replica of the item. -/
def IsOf : Datum → Item → Prop
  | component data, .componentInst inst => data.owner.inst = inst
  | port data, .portInst inst label => data.owner.inst = inst ∧ data.name = label
  | worker data, .workerInst inst label => data.owner.inst = inst ∧ data.name = label
  | _, _ => False

end Datum

/-- The data of the kind of the item that the given paths of components and of parts filter. -/
def filtered (cs : List ContainerInstanceData) (item : Item)
    (componentPaths partPaths : List Text) : List Datum :=
  let components := cs.flatMap fun c => c.getFilteredData [] componentPaths
  match item with
  | .componentInst _ => components.map .component
  | .portInst _ _ => (components.flatMap fun d =>
      ComponentInstanceData.getPartData d.portInstDataHash partPaths).map .port
  | .workerInst _ _ => (components.flatMap fun d =>
      ComponentInstanceData.getPartData d.workerInstDataHash partPaths).map .worker

/-- The data of the kind of the item. -/
def allData (cs : List ContainerInstanceData) (item : Item) : List Datum := filtered cs item [] []

/-- The data that `setupRequestFilters` selects for the item. -/
def selected (cs : List ContainerInstanceData) (item : Item) : List Datum :=
  match item with
  | .componentInst _ => filtered cs item [getPath item] []
  | .portInst _ _ => filtered cs item [] [getPath item]
  | .workerInst _ _ => filtered cs item [] [getPath item]

/-- The component instance that the item is, or is in. -/
def Item.inst : Item → ComponentInst
  | componentInst inst => inst
  | portInst inst _ => inst
  | workerInst inst _ => inst

/-- Selecting the item filters exactly its data. -/
def Selects (cs : List ContainerInstanceData) (item : Item) : Prop :=
  ∀ datum ∈ allData cs item, datum ∈ selected cs item ↔ datum.IsOf item

/-- An item that is in no assembly has its path to itself, and this path is not empty unless there
is nothing else. Of an item in an assembly there are no data, nor are there any with its path. -/
def Distinguished (cs : List ContainerInstanceData) (item : Item) : Prop :=
  if item.inst.assemblies = [] then
    ∀ datum ∈ allData cs item, getPath item = [] ∨ datum.path = getPath item → datum.IsOf item
  else ∀ datum ∈ allData cs item, ¬ datum.IsOf item ∧ datum.path ≠ getPath item

/-! ## Paths -/

section Paths

variable {r : Replica} {inst : ComponentInst}

/-- What an assembly adds to the path. -/
def level (index : ℕ) (assembly : Assembly) : Text :=
  assembly.label ++ '.' :: (decimal index ++ ['/'])

theorem getFullLocation_map (name : Text) {indices : List ℕ} {assemblies : List Assembly}
    (h : indices.length = assemblies.length) :
    getFullLocation (assemblies.map Assembly.label) indices name =
      some ((List.zipWith level indices assemblies).flatten ++ name) := by
  induction assemblies generalizing indices with
  | nil =>
    rw [List.length_eq_zero_iff.mp h]
    rfl
  | cons assembly assemblies ih =>
    cases indices with
    | nil => cases h
    | cons index indices =>
      rw [List.map_cons, getFullLocation, ih (Nat.succ.inj h)]
      simp [level]

theorem Replica.path_eq (r : Replica) :
    r.path = (List.zipWith level r.indices r.inst.assemblies).flatten ++ r.inst.label := by
  rw [Replica.path, getFullLocation_map _ r.below.length_eq, Option.getD_some]

/-- Outside of assemblies, the path is the one that is built for a selected instance. -/
theorem Replica.path_eq_getPath (h : r.inst.assemblies = []) : r.path = r.inst.getPath := by
  rw [r.path_eq, ComponentInst.getPath, h]
  simp

/-- An index is not a wildcard. -/
theorem level_ne (before label name : Text) (index : ℕ) :
    before ++ (label ++ '.' :: (decimal index ++ ['/'])) ++ name ≠
      label ++ '.' :: '%' :: '/' :: name := by
  intro h
  have hpos : 0 < (decimal index).length := List.length_pos_iff.mpr Nat.toDigits_ne_nil
  have hlength := congrArg List.length h
  simp only [List.length_append, List.length_cons, List.length_nil] at hlength
  obtain rfl : before = [] := List.length_eq_zero_iff.mp (by omega)
  rw [List.nil_append, List.append_assoc, List.append_cancel_left_eq, List.cons_append] at h
  cases hdecimal : decimal index with
  | nil => simp [hdecimal] at hpos
  | cons c digits =>
    rw [hdecimal] at h
    have hc : c = '%' := (List.cons.inj (List.cons.inj h).2).1
    have hmem : '%' ∈ decimal index := by simp [hdecimal, hc]
    exact notMem_decimal rfl index hmem

/-- In an assembly, the last level of the path has an index where the path that is built for a
selected instance has the wildcard. -/
theorem Replica.path_ne_getPath (h : r.inst.assemblies ≠ []) : r.path ≠ r.inst.getPath := by
  have hlength := r.below.length_eq
  obtain hnil | ⟨assemblies, parent, hassemblies⟩ := List.eq_nil_or_concat r.inst.assemblies
  · exact absurd hnil h
  obtain hnil | ⟨indices, index, hindices⟩ := List.eq_nil_or_concat r.indices
  · simp [hnil, hassemblies] at hlength
  rw [List.concat_eq_append] at hassemblies hindices
  have hlength' : indices.length = assemblies.length := by
    simpa [hassemblies, hindices] using hlength
  rw [r.path_eq, ComponentInst.getPath, hassemblies, hindices, List.getLast?_concat,
    List.zipWith_append hlength', List.flatten_append]
  simpa [level] using level_ne (List.zipWith level indices assemblies).flatten parent.label
    r.inst.label index

theorem ComponentInst.getPath_ne_nil (h : inst.assemblies ≠ []) : inst.getPath ≠ [] := by
  obtain hnil | ⟨assemblies, parent, hassemblies⟩ := List.eq_nil_or_concat inst.assemblies
  · exact absurd hnil h
  rw [List.concat_eq_append] at hassemblies
  rw [ComponentInst.getPath, hassemblies, List.getLast?_concat]
  simp

end Paths

/-! ## The hash tables -/

/-- The key of a part is its path, which the server has built for its owner. -/
def PartsKeyed (hash : Table Text PartData) : Prop :=
  hash.Entries fun path d => d.path = path ∧ path = d.owner.path ++ '/' :: d.name

theorem PartsKeyed.foldl {hash : Table Text PartData} (h : PartsKeyed hash) (owner : Replica)
    (names : List Text) : PartsKeyed (names.foldl (addPartData owner) hash) := by
  induction names generalizing hash with
  | nil => exact h
  | cons name names ih =>
    refine ih ?_
    simp only [addPartData]
    split
    · exact h
    · exact Table.Entries.insert h ⟨rfl, rfl⟩

/-- The data of a component instance, with its path as the key. -/
structure ComponentKeyed (path : Text) (d : ComponentInstanceData) : Prop where
  path_eq : d.path = path
  owner : d.owner.path = path
  ports : PartsKeyed d.portInstDataHash
  workers : PartsKeyed d.workerInstDataHash

theorem ComponentKeyed.updateData {path : Text} {d : ComponentInstanceData}
    (h : ComponentKeyed path d) (r : Replica) : ComponentKeyed path (d.updateData r) :=
  ⟨h.path_eq, h.owner, h.ports.foldl r _, h.workers.foldl r _⟩

theorem ComponentKeyed.construct (r : Replica) : ComponentKeyed r.path (.construct r) :=
  have h : ComponentKeyed r.path ⟨r, r.path, ∅, ∅⟩ :=
    ⟨rfl, rfl, Table.Entries.empty, Table.Entries.empty⟩
  h.updateData r

/-- The data of a container stand under their own paths. -/
def ContainerKeyed (c : ContainerInstanceData) : Prop := c.compInstDataHash.Entries ComponentKeyed

theorem ContainerKeyed.addComponentInstanceData {c : ContainerInstanceData} (h : ContainerKeyed c)
    (r : Replica) : ContainerKeyed (c.addComponentInstanceData r) := by
  unfold ContainerInstanceData.addComponentInstanceData
  cases hlookup : c.compInstDataHash.lookup r.path with
  | none => exact Table.Entries.insert h (.construct r)
  | some d => exact Table.Entries.insert h ((h _ _ hlookup).updateData r)

theorem containerKeyed_of_mem {received : List (List Replica)} {c : ContainerInstanceData}
    (hc : c ∈ containers received) : ContainerKeyed c := by
  obtain ⟨replicas, -, rfl⟩ := List.mem_map.mp hc
  suffices h : ∀ c, ContainerKeyed c →
      ContainerKeyed (replicas.foldl ContainerInstanceData.addComponentInstanceData c) from
    h .empty Table.Entries.empty
  clear hc
  induction replicas with
  | nil => exact fun _ h => h
  | cons r replicas ih => exact fun c h => ih _ (h.addComponentInstanceData r)

/-! ## What the paths select -/

section Lookups

variable {c : ContainerInstanceData} {d : ComponentInstanceData} {path : Text}

theorem getFilteredData_nil : c.getFilteredData [] [] = c.compInstDataHash.values := by
  simp [ContainerInstanceData.getFilteredData, ContainerInstanceData.getComponentInstanceData]

theorem mem_getFilteredData_iff (h : ContainerKeyed c) : d ∈ c.getFilteredData [] [path] ↔
    d ∈ c.compInstDataHash.values ∧ (path = [] ∨ d.path = path) := by
  have hlist : c.getFilteredData [] [path] = c.getComponentInstanceData path := by
    simp [ContainerInstanceData.getFilteredData, List.eraseDups_cons]
  rw [hlist, ContainerInstanceData.getComponentInstanceData]
  by_cases hnil : path = []
  · simp [hnil]
  · rw [if_neg hnil, Option.mem_toList,
      Table.lookup_eq_some_iff ComponentInstanceData.path fun k v hk => (h k v hk).path_eq]
    simp [hnil]

theorem mem_getPartData_iff {hash : Table Text PartData} (h : PartsKeyed hash) {d : PartData} :
    d ∈ ComponentInstanceData.getPartData hash [path] ↔
      d ∈ hash.values ∧ (path = [] ∨ d.path = path) := by
  have hlist : ComponentInstanceData.getPartData hash [path] =
      if path = [] then hash.values else (hash.lookup path).toList := by
    simp [ComponentInstanceData.getPartData]
  rw [hlist]
  by_cases hnil : path = []
  · simp [hnil]
  · rw [if_neg hnil, Option.mem_toList,
      Table.lookup_eq_some_iff PartData.path fun k v hk => (h k v hk).1]
    simp [hnil]

end Lookups

section Selected

variable {received : List (List Replica)} {item : Item} {datum : Datum}

theorem mem_components {d : ComponentInstanceData} :
    d ∈ ((containers received).flatMap fun c => c.getFilteredData [] []) ↔
      ∃ c ∈ containers received, d ∈ c.compInstDataHash.values := by
  simp [getFilteredData_nil]

theorem componentKeyed_of_mem {d : ComponentInstanceData}
    (h : d ∈ (containers received).flatMap fun c => c.getFilteredData [] []) :
    ComponentKeyed d.path d := by
  obtain ⟨c, hc, hd⟩ := mem_components.mp h
  obtain ⟨path, hlookup⟩ := Table.mem_values.mp hd
  have hkeyed := containerKeyed_of_mem hc path d hlookup
  rwa [hkeyed.path_eq]

theorem mem_flatMap_getPartData {components : List ComponentInstanceData}
    {hash : ComponentInstanceData → Table Text PartData}
    (h : ∀ d ∈ components, PartsKeyed (hash d)) {path : Text} {part : PartData} :
    part ∈ components.flatMap (fun d => ComponentInstanceData.getPartData (hash d) [path]) ↔
      part ∈ components.flatMap (fun d => ComponentInstanceData.getPartData (hash d) []) ∧
        (path = [] ∨ part.path = path) := by
  simp only [List.mem_flatMap]
  constructor
  · rintro ⟨d, hd, hpart⟩
    obtain ⟨hvalues, hpath⟩ := (mem_getPartData_iff (h d hd)).mp hpart
    exact ⟨⟨d, hd, by simpa [ComponentInstanceData.getPartData] using hvalues⟩, hpath⟩
  · rintro ⟨⟨d, hd, hvalues⟩, hpath⟩
    refine ⟨d, hd, (mem_getPartData_iff (h d hd)).mpr ⟨?_, hpath⟩⟩
    simpa [ComponentInstanceData.getPartData] using hvalues

theorem path_of_mem_parts {components : List ComponentInstanceData}
    {hash : ComponentInstanceData → Table Text PartData}
    (h : ∀ d ∈ components, PartsKeyed (hash d)) {part : PartData}
    (hpart : part ∈ components.flatMap fun d => ComponentInstanceData.getPartData (hash d) []) :
    part.path = part.owner.path ++ '/' :: part.name := by
  obtain ⟨d, hd, hvalues⟩ := List.mem_flatMap.mp hpart
  obtain ⟨path, hlookup⟩ := Table.mem_values.mp
    (by simpa [ComponentInstanceData.getPartData] using hvalues : part ∈ (hash d).values)
  obtain ⟨rfl, hpath⟩ := h d hd path part hlookup
  exact hpath

theorem portsKeyed : ∀ d ∈ (containers received).flatMap fun c => c.getFilteredData [] [],
    PartsKeyed d.portInstDataHash :=
  fun _ hd => (componentKeyed_of_mem hd).ports

theorem workersKeyed : ∀ d ∈ (containers received).flatMap fun c => c.getFilteredData [] [],
    PartsKeyed d.workerInstDataHash :=
  fun _ hd => (componentKeyed_of_mem hd).workers

/-- The parts of all components are filtered by their own paths. -/
theorem mem_map_parts_iff {components : List ComponentInstanceData}
    {hash : ComponentInstanceData → Table Text PartData}
    (h : ∀ d ∈ components, PartsKeyed (hash d)) {path : Text} {make : PartData → Datum}
    (hmake : ∀ part, (make part).path = part.path) :
    datum ∈ (components.flatMap fun d =>
        ComponentInstanceData.getPartData (hash d) [path]).map make ↔
      datum ∈ (components.flatMap fun d => ComponentInstanceData.getPartData (hash d) []).map make ∧
        (path = [] ∨ datum.path = path) := by
  simp only [List.mem_map, mem_flatMap_getPartData h]
  constructor
  · rintro ⟨part, ⟨hpart, hpath⟩, rfl⟩
    exact ⟨⟨part, hpart, rfl⟩, by rwa [hmake]⟩
  · rintro ⟨⟨part, hpart, rfl⟩, hpath⟩
    exact ⟨part, ⟨hpart, by rwa [hmake] at hpath⟩, rfl⟩

/-- A datum is selected by its path, or by the empty path. -/
theorem mem_selected_iff : datum ∈ selected (containers received) item ↔
    datum ∈ allData (containers received) item ∧
      (getPath item = [] ∨ datum.path = getPath item) := by
  cases item with
  | componentInst inst =>
    simp only [selected, allData, filtered, List.mem_map, List.mem_flatMap]
    constructor
    · rintro ⟨d, ⟨c, hc, hd⟩, rfl⟩
      obtain ⟨hvalues, hpath⟩ := (mem_getFilteredData_iff (containerKeyed_of_mem hc)).mp hd
      exact ⟨⟨d, ⟨c, hc, by rwa [getFilteredData_nil]⟩, rfl⟩, hpath⟩
    · rintro ⟨⟨d, ⟨c, hc, hd⟩, rfl⟩, hpath⟩
      rw [getFilteredData_nil] at hd
      exact ⟨d, ⟨c, hc, (mem_getFilteredData_iff (containerKeyed_of_mem hc)).mpr ⟨hd, hpath⟩⟩, rfl⟩
  | portInst inst label => exact mem_map_parts_iff portsKeyed fun _ => rfl
  | workerInst inst label => exact mem_map_parts_iff workersKeyed fun _ => rfl

/-- The path of a datum was built for its owner. -/
theorem path_of_isOf (h : datum ∈ allData (containers received) item) (hof : datum.IsOf item) :
    ∃ r : Replica, r.inst = item.inst ∧
      (r.path = item.inst.getPath ↔ datum.path = getPath item) := by
  cases item with
  | componentInst inst =>
    obtain ⟨d, hd, rfl⟩ := List.mem_map.mp h
    refine ⟨d.owner, hof, ?_⟩
    rw [(componentKeyed_of_mem hd).owner]
    rfl
  | portInst inst label =>
    obtain ⟨part, hpart, rfl⟩ := List.mem_map.mp h
    refine ⟨part.owner, hof.1, ?_⟩
    rw [Datum.path, path_of_mem_parts portsKeyed hpart, hof.2]
    exact (List.append_left_inj _).symm
  | workerInst inst label =>
    obtain ⟨part, hpart, rfl⟩ := List.mem_map.mp h
    refine ⟨part.owner, hof.1, ?_⟩
    rw [Datum.path, path_of_mem_parts workersKeyed hpart, hof.2]
    exact (List.append_left_inj _).symm

theorem getPath_ne_nil (h : item.inst.assemblies ≠ []) : getPath item ≠ [] := by
  cases item with
  | componentInst inst => exact ComponentInst.getPath_ne_nil h
  | portInst inst label => simp [getPath]
  | workerInst inst label => simp [getPath]

end Selected

/-- **Selecting an item filters exactly its data** if and only if it is in no assembly and has its
path to itself, or there are no data of it. -/
theorem selects_iff (received : List (List Replica)) (item : Item) :
    Selects (containers received) item ↔ Distinguished (containers received) item := by
  unfold Distinguished
  by_cases hnone : item.inst.assemblies = []
  · rw [if_pos hnone]
    refine forall₂_congr fun datum hmem => ?_
    rw [mem_selected_iff, and_iff_right hmem]
    refine ⟨fun h => h.mp, fun h => ⟨h, fun hof => .inr ?_⟩⟩
    obtain ⟨r, hr, hpath⟩ := path_of_isOf hmem hof
    exact hpath.mp (hr ▸ r.path_eq_getPath (hr ▸ hnone))
  · rw [if_neg hnone]
    refine forall₂_congr fun datum hmem => ?_
    rw [mem_selected_iff, and_iff_right hmem, or_iff_right (getPath_ne_nil hnone)]
    constructor
    · intro h
      have hnot : ¬ datum.IsOf item := fun hof => by
        obtain ⟨r, hr, hpath⟩ := path_of_isOf hmem hof
        exact r.path_ne_getPath (hr ▸ hnone) (hr ▸ hpath.mpr (h.mpr hof))
      exact ⟨hnot, fun hpath => hnot (h.mp hpath)⟩
    · rintro ⟨hnot, hpath⟩
      exact iff_of_false hpath hnot

/-- A component instance in an assembly, whose data is stored under the path `A.0/x`. -/
theorem not_selects : ¬ ∀ received item, Selects (containers received) item := by
  let inst : ComponentInst := ⟨1, [⟨"A".toList, 1⟩], "x".toList, "X".toList, [], []⟩
  let r : Replica := ⟨inst, [0], by decide⟩
  intro h
  have hall : allData (containers [[r]]) (.componentInst inst) = [.component (.construct r)] := rfl
  have hselected : selected (containers [[r]]) (.componentInst inst) = [] := rfl
  have hmem := (h [[r]] (.componentInst inst) (.component (.construct r))
    (by rw [hall]; exact List.mem_singleton.mpr rfl)).mpr rfl
  rw [hselected] at hmem
  cases hmem

end Selection

end Sem.Medea
