import Sem.Medea.GraphMLCursor
import Sem.Medea.GraphmlTokens

/-!
# Reading a printed document

`parseGraphML` of a printed document builds a tree of `TempEntity`s. `layNodes` says what that tree
is for a list of nodes, entity by entity in the order of construction, and `layEdge` what the
entity of an edge is; the run lemmas say that the loop builds them.

* `runs_keys`, `runs_datas`: the declared keys are found again, and data go to the entity around them.
* `buildsNodes`: reading printed nodes builds `layNodes` below the cursor.
* `runs_edges`: reading printed edges builds their entities below the root.
-/

namespace Sem.Medea

open Xml (Text Token Attributes contentTokens)
open GraphmlPrinter

/-! ## Runs of the loop -/

/-- Some iterations of the loop. -/
def Runs (env : ImportEnv) : ImportConfig → ImportConfig → Prop :=
  Relation.ReflTransGen fun c c' => importStep env c = some c'

variable {env : ImportEnv} {flags : ExportFlags} {s : ImportState} {rest : List Token}

theorem Runs.refl (c : ImportConfig) : Runs env c c := Relation.ReflTransGen.refl

theorem Runs.trans {c c' c'' : ImportConfig} (h : Runs env c c') (h' : Runs env c' c'') :
    Runs env c c'' :=
  Relation.ReflTransGen.trans h h'

theorem Runs.one {c c' : ImportConfig} (h : importStep env c = some c') : Runs env c c' :=
  Relation.ReflTransGen.single h

/-- An iteration reads at least one token. -/
theorem importStep_length {c c' : ImportConfig} (h : importStep env c = some c') :
    c'.rest.length < c.rest.length := by
  obtain ⟨tokens, s⟩ := c
  cases tokens with
  | nil => cases h
  | cons t ts =>
    have hone : c'.rest = ts → c'.rest.length < (t :: ts).length := by
      rintro rfl
      exact Nat.lt_succ_self _
    cases t with
    | startElement name attrs =>
      cases hk : tagKind name with
      | data =>
        simp only [importStep, hk] at h
        obtain ⟨r, hr, rfl⟩ := Option.map_eq_some_iff.mp h
        unfold ImportState.startData at hr
        split at hr
        · obtain ⟨r', hread, rfl⟩ := Option.map_eq_some_iff.mp hr
          exact Nat.lt_succ_of_lt (Xml.readElementText_length hread)
        · obtain rfl := Option.some.inj hr
          exact hone rfl
      | _ =>
        simp only [importStep, hk, Option.some.injEq] at h
        exact hone (h ▸ rfl)
    | endElement name =>
      simp only [importStep] at h
      obtain ⟨s', -, rfl⟩ := Option.map_eq_some_iff.mp h
      exact hone rfl
    | _ =>
      simp only [importStep, Option.some.injEq] at h
      exact hone (h ▸ rfl)

/-- Enough fuel reaches the end of a run. -/
theorem importLoop_of_runs {c : ImportConfig} {s : ImportState} {fuel : Nat}
    (h : Runs env c ⟨[], s⟩) (hfuel : c.rest.length ≤ fuel) : importLoop env fuel c = some s := by
  induction h using Relation.ReflTransGen.head_induction_on generalizing fuel with
  | refl => cases fuel <;> rfl
  | @head c c' hstep _ ih =>
    have hlt := importStep_length hstep
    obtain ⟨fuel, rfl⟩ : ∃ k, fuel = k + 1 := ⟨fuel - 1, by omega⟩
    have hne : c.rest ≠ [] := by
      intro hnil
      simp [hnil] at hlt
    rw [importLoop, if_neg hne, hstep, Option.bind_some]
    exact ih (by omega)

theorem runs_content (cs : Text) : Runs env ⟨contentTokens cs ++ rest, s⟩ ⟨rest, s⟩ := by
  induction cs with
  | nil => exact Runs.refl _
  | cons c cs ih => exact (Runs.one rfl).trans ih

/-- A start tag of a kind that the import does not know. -/
theorem runs_otherStart {name : Text} {attrs : Attributes} (h : tagKind name = .none) :
    Runs env ⟨.startElement name attrs :: rest, s⟩ ⟨rest, s⟩ :=
  Runs.one (by simp only [importStep, h])

theorem runs_otherEnd {name : Text} (h : tagKind name ≠ .node ∧ tagKind name ≠ .edge) :
    Runs env ⟨.endElement name :: rest, s⟩ ⟨rest, s⟩ := by
  refine Runs.one ?_
  simp only [importStep, ImportState.endElement]
  split
  · exact absurd ‹_› h.1
  · exact absurd ‹_› h.2
  · rfl

theorem runs_startKey {attrs : Attributes} :
    Runs env ⟨.startElement "key".toList attrs :: rest, s⟩ ⟨rest, s.startKey attrs⟩ :=
  Runs.one rfl

theorem runs_startData {attrs : Attributes} {rest' : List Token} {s' : ImportState}
    (h : ImportState.startData env s attrs rest = some (rest', s')) :
    Runs env ⟨.startElement "data".toList attrs :: rest, s⟩ ⟨rest', s'⟩ := by
  refine Runs.one ?_
  show (ImportState.startData env s attrs rest).map _ = _
  rw [h]
  rfl

theorem runs_startNode {attrs : Attributes} :
    Runs env ⟨.startElement "node".toList attrs :: rest, s⟩
      ⟨rest, s.startEntity env .node attrs⟩ :=
  Runs.one rfl

theorem runs_startEdge {attrs : Attributes} :
    Runs env ⟨.startElement "edge".toList attrs :: rest, s⟩
      ⟨rest, s.startEntity env .edge attrs⟩ :=
  Runs.one rfl

/-- The end tag of an entity, with the cursor at `p`. -/
theorem runs_endEntity {name : Text} (hname : tagKind name = .node ∨ tagKind name = .edge) {p : Nat}
    (hcurrent : s.current = some p) :
    Runs env ⟨.endElement name :: rest, s⟩ ⟨rest, { s with current := s.parentOf p }⟩ := by
  refine Runs.one ?_
  rcases hname with h | h <;> simp [importStep, h, ImportState.endElement, hcurrent]

/-! ## Keys -/

theorem runs_key {key : Key} (depth : Nat) (hexport : exportKey flags key = true)
    (hnew : getKeyID flags key ∉ s.keyHash) :
    Runs env ⟨keyTokens flags depth key ++ rest, s⟩
      ⟨rest, { s with keyHash := s.keyHash.insert (getKeyID flags key) key.name }⟩ := by
  have hstart : s.startKey [("attr.name".toList, key.name),
      ("attr.type".toList, getGraphMLTypeName key.type), ("id".toList, getKeyID flags key)] =
      { s with keyHash := s.keyHash.insert (getKeyID flags key) key.name } :=
    if_neg hnew
  rw [keyTokens, if_pos hexport, List.append_assoc, List.append_assoc]
  refine (runs_content _).trans (runs_startKey.trans ?_)
  rw [hstart]
  exact (runs_otherEnd (by decide)).trans (runs_content _)

/-- The keys that a document declares, as the import sees them. -/
def declareKeys (flags : ExportFlags) (keys : List Key) (hash : Table Text Text) :
    Table Text Text :=
  keys.foldl (fun t k => if exportKey flags k then t.insert (getKeyID flags k) k.name else t) hash

theorem runs_keys {keys : List Key} (depth : Nat)
    (hids : ((keys.filter (exportKey flags ·)).map (getKeyID flags)).Nodup)
    (hnew : ∀ k ∈ keys, exportKey flags k = true → getKeyID flags k ∉ s.keyHash) :
    Runs env ⟨keys.flatMap (keyTokens flags depth) ++ rest, s⟩
      ⟨rest, { s with keyHash := declareKeys flags keys s.keyHash }⟩ := by
  induction keys generalizing s with
  | nil => exact Runs.refl _
  | cons k keys ih =>
    rw [List.flatMap_cons, List.append_assoc, declareKeys, List.foldl_cons]
    cases hk : exportKey flags k with
    | false =>
      rw [List.filter_cons_of_neg (by simp [hk])] at hids
      rw [keyTokens, if_neg (by simp [hk]), List.nil_append, if_neg (by simp)]
      exact ih hids fun k' hk' => hnew k' (List.mem_cons_of_mem _ hk')
    | true =>
      rw [List.filter_cons_of_pos hk, List.map_cons, List.nodup_cons] at hids
      rw [if_pos rfl]
      refine (runs_key depth hk (hnew k (by simp) hk)).trans (ih hids.2 ?_)
      intro k' hk' hexport hm
      rcases (AList.mem_insert _).mp hm with heq | hm
      · exact hids.1 (List.mem_map.mpr ⟨k', List.mem_filter.mpr ⟨hk', hexport⟩, heq⟩)
      · exact hnew k' (List.mem_cons_of_mem _ hk') hexport hm

/-- A declared key is found under its id. -/
theorem lookup_declareKeys {keys : List Key} {hash : Table Text Text}
    (hids : ((keys.filter (exportKey flags ·)).map (getKeyID flags)).Nodup) {k : Key} (hk : k ∈ keys)
    (hexport : exportKey flags k = true) :
    (declareKeys flags keys hash).lookup (getKeyID flags k) = some k.name := by
  have hother : ∀ {keys : List Key} {hash : Table Text Text} {id : Text},
      id ∉ (keys.filter (exportKey flags ·)).map (getKeyID flags) →
      (declareKeys flags keys hash).lookup id = hash.lookup id := by
    intro keys
    induction keys with
    | nil => exact fun _ => rfl
    | cons k keys ih =>
      intro hash id hid
      rw [declareKeys, List.foldl_cons]
      cases hk : exportKey flags k with
      | false =>
        rw [List.filter_cons_of_neg (by simp [hk])] at hid
        exact ih hid
      | true =>
        rw [List.filter_cons_of_pos hk, List.map_cons, List.mem_cons, not_or] at hid
        exact (ih hid.2).trans (AList.lookup_insert_ne hid.1)
  induction keys generalizing hash with
  | nil => cases hk
  | cons k' keys ih =>
    rw [declareKeys, List.foldl_cons]
    rcases List.mem_cons.mp hk with rfl | hk
    · rw [List.filter_cons_of_pos hexport, List.map_cons, List.nodup_cons] at hids
      rw [if_pos hexport]
      exact (hother hids.1).trans (AList.lookup_insert _)
    · cases hk' : exportKey flags k' with
      | false =>
        rw [List.filter_cons_of_neg (by simp [hk'])] at hids
        exact ih hids hk
      | true =>
        rw [List.filter_cons_of_pos hk', List.map_cons, List.nodup_cons] at hids
        exact ih hids.2 hk

/-! ## Data -/

/-- What the import needs of a datum: its key is declared, and the values it rewrites (`uuid` and
`medea_version`) are the ones it writes. -/
structure Importable (env : ImportEnv) (flags : ExportFlags) (keyHash : Table Text Text)
    (d : Data) : Prop where
  key : exportKey flags d.key = true → keyHash.lookup (getKeyID flags d.key) = some d.key.name
  uuid : exportKey flags d.key = true → d.key.name = KeyName.uuid →
    env.getUUIDOfValue (exportedValue d) = exportedValue d
  version : exportKey flags d.key = true → d.key.name = KeyName.medeaVersion →
    ImportState.importedVersion env (exportedValue d) = some (exportedValue d)

/-- What a piece of a document leaves as it was, and the ids that it adds. -/
structure Kept (s s' : ImportState) (ids : List Text) : Prop where
  current : s'.current = s.current
  keyHash : s'.keyHash = s.keyHash
  errorCount : s'.errorCount = s.errorCount
  entityHash : ∀ id, id ∈ s'.entityHash ↔ id ∈ s.entityHash ∨ id ∈ ids

theorem Kept.refl (s : ImportState) : Kept s s [] := ⟨rfl, rfl, rfl, by simp⟩

theorem Kept.trans {s s' s'' : ImportState} {ids ids' : List Text} (h : Kept s s' ids)
    (h' : Kept s' s'' ids') : Kept s s'' (ids ++ ids') where
  current := h'.current.trans h.current
  keyHash := h'.keyHash.trans h.keyHash
  errorCount := h'.errorCount.trans h.errorCount
  entityHash id := by rw [h'.entityHash, h.entityHash, List.mem_append, or_assoc]

theorem modify_append_cons {α : Type*} (pre : List α) (e : α) (post : List α) (f : α → α) :
    (pre ++ e :: post).modify pre.length f = pre ++ f e :: post := by
  induction pre with
  | nil => rfl
  | cons x pre ih => exact congrArg (x :: ·) ih

/-- The value of an importable datum goes to the entity as it is. -/
theorem attachData_importable (s : ImportState) {keyHash : Table Text Text} {d : Data}
    (h : Importable env flags keyHash d) (hexport : exportKey flags d.key = true) (p : Nat) :
    ∃ s', ImportState.attachData env s p d.key.name (exportedValue d) = s' ∧ Kept s s' [] ∧
      s'.entities = s.entities.modify p (·.addData d.key.name (exportedValue d)) := by
  refine ⟨_, rfl, ?_⟩
  unfold ImportState.attachData
  split
  · rename_i hu
    rw [h.uuid hexport hu]
    exact ⟨⟨rfl, rfl, rfl, by simp [ImportState.modifyEntity]⟩, rfl⟩
  · split
    · rename_i hv
      dsimp only
      rw [h.version hexport hv]
      exact ⟨⟨rfl, rfl, rfl, by simp [ImportState.modifyEntity]⟩, rfl⟩
    · exact ⟨⟨rfl, rfl, rfl, by simp [ImportState.modifyEntity]⟩, rfl⟩

/-- The data of an entity after its data elements. -/
def addDatas (flags : ExportFlags) (datas : List Data) (table : Table Text Text) :
    Table Text Text :=
  datas.foldl (fun t d => if exportKey flags d.key then t.insert d.key.name (exportedValue d) else t)
    table

theorem runs_data {d : Data} (depth : Nat) (rest : List Token) {pre : List TempEntity} {e : TempEntity}
    (h : Importable env flags s.keyHash d) (hentities : s.entities = pre ++ [e])
    (hcurrent : s.current = some pre.length) :
    ∃ s', Runs env ⟨dataTokens flags depth d ++ rest, s⟩ ⟨rest, s'⟩ ∧ Kept s s' [] ∧
      s'.entities = pre ++ [{ e with data := addDatas flags [d] e.data }] := by
  cases hexport : exportKey flags d.key with
  | false =>
    refine ⟨s, ?_, Kept.refl s, ?_⟩
    · rw [dataTokens, if_neg (by simp [hexport])]
      exact Runs.refl _
    · simp [addDatas, hexport, hentities]
  | true =>
    obtain ⟨s', hs', hkept, hent⟩ := attachData_importable s h hexport pre.length
    refine ⟨s', ?_, hkept, ?_⟩
    · rw [dataTokens, if_pos hexport, List.append_assoc, List.append_assoc]
      refine (runs_content _).trans ?_
      have hread := Xml.readElementText_content (exportedValue d) "data".toList
        (contentTokens ['\n'] ++ rest)
      have hstart : ImportState.startData env s [("key".toList, getKeyID flags d.key)]
          (contentTokens (exportedValue d) ++
            .endElement "data".toList :: (contentTokens ['\n'] ++ rest)) =
          some (contentTokens ['\n'] ++ rest, s') := by
        have hkey : s.keyHash.lookup (getXMLAttribute [("key".toList, getKeyID flags d.key)]
            "key".toList) = some d.key.name := h.key hexport
        rw [ImportState.startData_known hcurrent hkey, hread]
        exact congrArg (fun s => some (_, s)) hs'
      rw [List.cons_append, List.append_assoc, List.singleton_append]
      exact (runs_startData hstart).trans (runs_content _)
    · rw [hent, hentities, modify_append_cons]
      simp [addDatas, hexport, TempEntity.addData]

theorem Importable.of_kept {d : Data} {s' : ImportState} {ids : List Text}
    (h : Importable env flags s.keyHash d) (hk : Kept s s' ids) :
    Importable env flags s'.keyHash d :=
  hk.keyHash ▸ h

theorem runs_datas {datas : List Data} (depth : Nat) (rest : List Token) {pre : List TempEntity} {e : TempEntity}
    (h : ∀ d ∈ datas, Importable env flags s.keyHash d) (hentities : s.entities = pre ++ [e])
    (hcurrent : s.current = some pre.length) :
    ∃ s', Runs env ⟨datas.flatMap (dataTokens flags depth) ++ rest, s⟩ ⟨rest, s'⟩ ∧ Kept s s' [] ∧
      s'.entities = pre ++ [{ e with data := addDatas flags datas e.data }] := by
  induction datas generalizing s e with
  | nil => exact ⟨s, Runs.refl _, Kept.refl s, hentities⟩
  | cons d datas ih =>
    obtain ⟨s₁, hrun₁, hkept₁, hent₁⟩ :=
      runs_data depth (datas.flatMap (dataTokens flags depth) ++ rest) (h d (by simp)) hentities
        hcurrent
    obtain ⟨s₂, hrun₂, hkept₂, hent₂⟩ :=
      ih (fun d' hd' => (h d' (by simp [hd'])).of_kept hkept₁) hent₁
        (hkept₁.current.trans hcurrent)
    refine ⟨s₂, ?_, hkept₁.trans hkept₂, hent₂⟩
    rw [List.flatMap_cons, List.append_assoc]
    exact hrun₁.trans hrun₂

/-! ## The tree of a document -/

/-- The data table of an entity. -/
def dataTable (flags : ExportFlags) (datas : List Data) : Table Text Text :=
  addDatas flags (sortedData datas) ∅

/-- The numbers of the children, when the first is `next`. -/
def childIndices (next : Nat) : List Node → List Nat
  | [] => []
  | n :: ns => next :: childIndices (next + n.all.length) ns

mutual

/-- The entities of a node and its descendants, in the order of their construction: the node is the
entity number `next`, its parent is number `parent`. -/
def layNode (flags : ExportFlags) (parent next : Nat) : Node → List TempEntity
  | .mk id datas children =>
    { kind := .node
      parent := some parent
      children := childIndices (next + 1) children
      idStr := decimal id
      data := dataTable flags datas } :: layNodes flags next (next + 1) children

/-- The entities of some nodes, one after another. -/
def layNodes (flags : ExportFlags) (parent next : Nat) : List Node → List TempEntity
  | [] => []
  | n :: ns => layNode flags parent next n ++ layNodes flags parent (next + n.all.length) ns

end

mutual

theorem length_layNode (parent next : Nat) :
    ∀ n : Node, (layNode flags parent next n).length = n.all.length
  | .mk id datas children => by
    rw [layNode, Node.all, List.length_cons, List.length_cons, length_layNodes]

theorem length_layNodes (parent next : Nat) :
    ∀ ns : List Node, (layNodes flags parent next ns).length = (Node.allOf ns).length
  | [] => rfl
  | n :: ns => by
    rw [layNodes, Node.allOf, List.length_append, List.length_append, length_layNode,
      length_layNodes]

end

/-- The entity of an edge. -/
def layEdge (flags : ExportFlags) (edge : Edge) : TempEntity where
  kind := .edge
  parent := some 0
  idStr := decimal edge.id
  sourceIdStr := decimal edge.source
  targetIdStr := decimal edge.target
  data := dataTable flags edge.datas

/-! ## Nodes -/

/-- A start tag with a new id, when ids are not made into UUIDs. -/
theorem startEntity_new (hgen : env.generateUuidFromId = false) {kind : GraphMLKind}
    {attrs : Attributes} (hnew : getXMLAttribute attrs "id".toList ∉ s.entityHash) :
    s.startEntity env kind attrs =
      (s.newEntity kind (getXMLAttribute attrs "id".toList)).acceptEntity kind s.entities.length
        (getXMLAttribute attrs "id".toList) attrs := by
  unfold ImportState.startEntity
  simp only [ImportState.seedUuid, hgen, Bool.false_eq_true, if_false]
  exact if_neg hnew

theorem entities_newEntity {kind : GraphMLKind} {id : Text} {pre : List TempEntity}
    {e : TempEntity} {post : List TempEntity} (hentities : s.entities = pre ++ e :: post)
    (hcurrent : s.current = some pre.length) :
    (s.newEntity kind id).entities =
      pre ++ { e with children := e.children ++ [s.entities.length] } :: post ++
        [{ kind, parent := some pre.length, idStr := id }] := by
  simp only [ImportState.newEntity, hcurrent]
  rw [hentities, modify_append_cons]

/-- The state after the start tag of a node with a new id. -/
def enterNode (s : ImportState) (id : Text) : ImportState :=
  (s.newEntity .node id).acceptEntity .node s.entities.length id [("id".toList, id)]

theorem mem_insert_entityHash {t : Table Text Nat} {id i : Text} {n : Nat} :
    i ∈ t.insert id n ↔ i ∈ t ∨ i ∈ [id] := by
  rw [AList.mem_insert, List.mem_singleton, or_comm]

/-- The cursor's parent, which an end tag goes back to. -/
theorem parentOf_eq_of_entities {pre post : List TempEntity} {e : TempEntity}
    (h : s.entities = pre ++ e :: post) : s.parentOf pre.length = e.parent := by
  simp [ImportState.parentOf, h]

/-- The ids of nodes as a document writes them. -/
def nodeIdTexts (ns : List Node) : List Text := ns.map fun n => decimal n.id

theorem not_mem_of_kept {s' : ImportState} {ids ids' : List Text} (hk : Kept s s' ids)
    (hnd : (ids ++ ids').Nodup) (hnew : ∀ id ∈ ids ++ ids', id ∉ s.entityHash) :
    ∀ id ∈ ids', id ∉ s'.entityHash := by
  intro id hid hm
  rcases (hk.entityHash id).mp hm with hm | hm
  · exact hnew id (List.mem_append_right _ hid) hm
  · exact List.disjoint_of_nodup_append hnd hm hid

/-- The `graph` element of a node with children. -/
def graphTokens (flags : ExportFlags) (depth id : Nat) (children : List Node) : List Token :=
  contentTokens (tabs (depth + 1)) ++
    .startElement "graph".toList [("id".toList, 'g' :: decimal id)] :: contentTokens ['\n'] ++
    nodesTokens flags (depth + 2) children ++
    contentTokens (tabs (depth + 1)) ++ [.endElement "graph".toList] ++ contentTokens ['\n']

/-- Reading the printed nodes `ns` below the cursor builds `layNodes`. -/
def BuildsNodes (env : ImportEnv) (flags : ExportFlags) (depth : Nat) (ns : List Node) : Prop :=
  ∀ (rest : List Token) (s : ImportState) (pre post : List TempEntity) (e : TempEntity),
    (nodeIdTexts (Node.allOf ns)).Nodup → (∀ id ∈ nodeIdTexts (Node.allOf ns), id ∉ s.entityHash) →
    (∀ m ∈ Node.allOf ns, ∀ d ∈ m.datas, Importable env flags s.keyHash d) →
    s.entities = pre ++ e :: post → s.current = some pre.length →
    ∃ s', Runs env ⟨nodesTokens flags depth ns ++ rest, s⟩ ⟨rest, s'⟩ ∧
      Kept s s' (nodeIdTexts (Node.allOf ns)) ∧
      s'.entities = pre ++ { e with children := e.children ++ childIndices s.entities.length ns } ::
        post ++ layNodes flags pre.length s.entities.length ns

/-- Reading the printed node `n` below the cursor builds `layNode`. -/
def BuildsNode (env : ImportEnv) (flags : ExportFlags) (depth : Nat) (n : Node) : Prop :=
  ∀ (rest : List Token) (s : ImportState) (pre post : List TempEntity) (e : TempEntity),
    (nodeIdTexts n.all).Nodup → (∀ id ∈ nodeIdTexts n.all, id ∉ s.entityHash) →
    (∀ m ∈ n.all, ∀ d ∈ m.datas, Importable env flags s.keyHash d) →
    s.entities = pre ++ e :: post → s.current = some pre.length →
    ∃ s', Runs env ⟨nodeTokens flags depth n ++ rest, s⟩ ⟨rest, s'⟩ ∧
      Kept s s' (nodeIdTexts n.all) ∧
      s'.entities = pre ++ { e with children := e.children ++ [s.entities.length] } :: post ++
        layNode flags pre.length s.entities.length n

theorem BuildsNodes.nil (depth : Nat) : BuildsNodes env flags depth [] := by
  intro rest s pre post e _ _ _ hentities _
  refine ⟨s, Runs.refl _, Kept.refl s, ?_⟩
  simp [childIndices, layNodes, hentities]

theorem BuildsNodes.cons {depth : Nat} {n : Node} {ns : List Node}
    (hn : BuildsNode env flags depth n) (hns : BuildsNodes env flags depth ns) :
    BuildsNodes env flags depth (n :: ns) := by
  intro rest s pre post e hnd hnew himp hentities hcurrent
  have hsplit : nodeIdTexts (Node.allOf (n :: ns)) =
      nodeIdTexts n.all ++ nodeIdTexts (Node.allOf ns) := List.map_append ..
  rw [hsplit] at hnd hnew ⊢
  obtain ⟨s₁, hrun₁, hkept₁, hent₁⟩ := hn (nodesTokens flags depth ns ++ rest) s pre post e
    hnd.of_append_left (fun id hid => hnew id (List.mem_append_left _ hid))
    (fun m hm => himp m (List.mem_append_left _ hm)) hentities hcurrent
  have hlen : s₁.entities.length = s.entities.length + n.all.length := by
    rw [hent₁, hentities]
    simp only [List.length_append, List.length_cons, length_layNode]
  rw [List.append_assoc, List.cons_append] at hent₁
  obtain ⟨s₂, hrun₂, hkept₂, hent₂⟩ := hns rest s₁ pre _ _
    hnd.of_append_right (not_mem_of_kept hkept₁ hnd hnew)
    (fun m hm d hd => (himp m (List.mem_append_right _ hm) d hd).of_kept hkept₁) hent₁
    (hkept₁.current.trans hcurrent)
  refine ⟨s₂, ?_, hkept₁.trans hkept₂, ?_⟩
  · rw [nodesTokens, List.append_assoc]
    exact hrun₁.trans hrun₂
  · rw [hent₂, hlen]
    simp [childIndices, layNodes]

/-- The `graph` element is there when there are children. -/
theorem BuildsNodes.graph {depth id : Nat} {children : List Node}
    (h : BuildsNodes env flags (depth + 2) children) (rest : List Token) (s : ImportState)
    (pre : List TempEntity) (e : TempEntity) (hnd : (nodeIdTexts (Node.allOf children)).Nodup)
    (hnew : ∀ i ∈ nodeIdTexts (Node.allOf children), i ∉ s.entityHash)
    (himp : ∀ m ∈ Node.allOf children, ∀ d ∈ m.datas, Importable env flags s.keyHash d)
    (hentities : s.entities = pre ++ [e]) (hcurrent : s.current = some pre.length) :
    ∃ s', Runs env ⟨(if children.isEmpty then [] else graphTokens flags depth id children) ++ rest, s⟩
        ⟨rest, s'⟩ ∧ Kept s s' (nodeIdTexts (Node.allOf children)) ∧
      s'.entities = pre ++ { e with children := e.children ++ childIndices s.entities.length children } ::
        layNodes flags pre.length s.entities.length children := by
  cases children with
  | nil =>
    refine ⟨s, Runs.refl _, Kept.refl s, ?_⟩
    simp [childIndices, layNodes, hentities]
  | cons n ns =>
    obtain ⟨s', hrun, hkept, hent⟩ := h (contentTokens (tabs (depth + 1)) ++
      ([.endElement "graph".toList] ++ (contentTokens ['\n'] ++ rest))) s pre [] e hnd hnew himp
      hentities hcurrent
    refine ⟨s', ?_, hkept, by simpa using hent⟩
    rw [if_neg (by simp), graphTokens]
    simp only [List.append_assoc, List.cons_append]
    refine (runs_content _).trans ((runs_otherStart (by decide)).trans ((runs_content _).trans ?_))
    exact hrun.trans ((runs_content _).trans ((runs_otherEnd (by decide)).trans (runs_content _)))

/-- **A node**: its start tag moves the cursor to a new entity, its data and children go there, and
its end tag moves the cursor back. -/
theorem BuildsNode.mk (hgen : env.generateUuidFromId = false) {depth id : Nat} {datas : List Data}
    {children : List Node} (h : BuildsNodes env flags (depth + 2) children) :
    BuildsNode env flags depth (.mk id datas children) := by
  intro rest s pre post e hnd hnew himp hentities hcurrent
  have hsplit : nodeIdTexts (Node.mk id datas children).all =
      [decimal id] ++ nodeIdTexts (Node.allOf children) := rfl
  rw [hsplit] at hnd hnew ⊢
  have hidnew : decimal id ∉ s.entityHash := hnew _ (by simp)
  -- the entities before the new one
  obtain ⟨pre₁, hpre₁⟩ : ∃ pre₁, pre₁ =
    pre ++ { e with children := e.children ++ [s.entities.length] } :: post := ⟨_, rfl⟩
  have hlen : pre₁.length = s.entities.length := by
    rw [hpre₁, hentities]; simp
  obtain ⟨s₁, hs₁⟩ : ∃ s₁, s₁ = enterNode s (decimal id) := ⟨_, rfl⟩
  have hstart : s.startEntity env .node [("id".toList, decimal id)] = s₁ :=
    (startEntity_new hgen hidnew).trans hs₁.symm
  have hent₁ : s₁.entities =
      pre₁ ++ [{ kind := .node, parent := some pre.length, idStr := decimal id }] := by
    rw [hs₁, hpre₁]
    exact entities_newEntity hentities hcurrent
  have hcurrent₁ : s₁.current = some pre₁.length := by rw [hs₁, hlen]; rfl
  have hkeys₁ : s₁.keyHash = s.keyHash := by rw [hs₁]; rfl
  have herror₁ : s₁.errorCount = s.errorCount := by rw [hs₁]; rfl
  have hids₁ : ∀ i, i ∈ s₁.entityHash ↔ i ∈ s.entityHash ∨ i ∈ [decimal id] := by
    rw [hs₁]
    exact fun i => mem_insert_entityHash
  -- the tokens after the children
  obtain ⟨after, hafter⟩ : ∃ after, after = contentTokens (tabs depth) ++
    (Token.endElement "node".toList :: (contentTokens ['\n'] ++ rest)) := ⟨_, rfl⟩
  obtain ⟨s₂, hrun₂, hkept₂, hent₂⟩ := runs_datas (depth + 1)
    ((if children.isEmpty then [] else graphTokens flags depth id children) ++ after)
    (fun d hd => hkeys₁ ▸ himp (.mk id datas children) (by simp [Node.all]) d
      (mem_sortedData.mp hd)) hent₁ hcurrent₁
  have hnew₂ : ∀ i ∈ nodeIdTexts (Node.allOf children), i ∉ s₂.entityHash := by
    intro i hi hm
    rcases (hkept₂.entityHash i).mp hm with hm | hm
    · rcases (hids₁ i).mp hm with hm | hm
      · exact hnew i (List.mem_append_right _ hi) hm
      · exact List.disjoint_of_nodup_append hnd hm hi
    · cases hm
  have hcurrent₂ := hkept₂.current.trans hcurrent₁
  obtain ⟨s₃, hrun₃, hkept₃, hent₃⟩ := h.graph after s₂ pre₁ _ hnd.of_append_right hnew₂
    (fun m hm d hd => (hkept₂.keyHash.trans hkeys₁) ▸ himp m (List.mem_cons_of_mem _ hm) d hd)
    hent₂ hcurrent₂
  have hcurrent₃ := hkept₃.current.trans hcurrent₂
  refine ⟨{ s₃ with current := s₃.parentOf pre₁.length }, ?_, ?_, ?_⟩
  · have htokens : nodeTokens flags depth (.mk id datas children) ++ rest =
        contentTokens (tabs depth) ++ (.startElement "node".toList [("id".toList, decimal id)] ::
          (contentTokens ['\n'] ++ (datasTokens flags (depth + 1) datas ++
            ((if children.isEmpty then [] else graphTokens flags depth id children) ++ after)))) := by
      simp only [nodeTokens, graphTokens, hafter, List.append_assoc, List.cons_append,
        List.nil_append]
    rw [htokens]
    refine (runs_content _).trans (runs_startNode.trans ?_)
    rw [hstart]
    refine (runs_content _).trans (hrun₂.trans (hrun₃.trans ?_))
    rw [hafter]
    exact (runs_content _).trans ((runs_endEntity (by decide) hcurrent₃).trans (runs_content _))
  · refine ⟨?_, ?_, ?_, fun i => ?_⟩
    · exact (parentOf_eq_of_entities hent₃).trans hcurrent.symm
    · exact hkept₃.keyHash.trans (hkept₂.keyHash.trans hkeys₁)
    · exact hkept₃.errorCount.trans (hkept₂.errorCount.trans herror₁)
    · show i ∈ s₃.entityHash ↔ _
      rw [hkept₃.entityHash, hkept₂.entityHash, hids₁, List.mem_append]
      simp only [List.not_mem_nil, or_false, or_assoc]
  · show s₃.entities = _
    have hlen₂ : s₂.entities.length = s.entities.length + 1 := by
      rw [hent₂, List.length_append, hlen, List.length_singleton]
    rw [hent₃, hlen₂, hlen, hpre₁, layNode]
    rfl

mutual

theorem buildsNode (hgen : env.generateUuidFromId = false) (depth : Nat) :
    ∀ n : Node, BuildsNode env flags depth n
  | .mk _ _ children => .mk hgen (buildsNodes hgen (depth + 2) children)

/-- **The loop builds the entities of the printed nodes** below the cursor. -/
theorem buildsNodes (hgen : env.generateUuidFromId = false) (depth : Nat) :
    ∀ ns : List Node, BuildsNodes env flags depth ns
  | [] => .nil depth
  | n :: ns => .cons (buildsNode hgen depth n) (buildsNodes hgen depth ns)

end

/-! ## Edges -/

/-- The ids of edges as a document writes them. -/
def edgeIdTexts (edges : List Edge) : List Text := edges.map fun e => decimal e.id

/-- The attributes of a printed edge. -/
def edgeAttributes (edge : Edge) : Attributes :=
  [("id".toList, decimal edge.id), ("source".toList, decimal edge.source),
    ("target".toList, decimal edge.target)]

/-- **An edge** below the root: its start tag moves the cursor to a new entity with source and
target, its data go there, and its end tag moves the cursor back. -/
theorem runs_edge (hgen : env.generateUuidFromId = false) (depth : Nat) {edge : Edge}
    (rest : List Token) {e : TempEntity} {post : List TempEntity}
    (hnew : decimal edge.id ∉ s.entityHash)
    (himp : ∀ d ∈ edge.datas, Importable env flags s.keyHash d) (hentities : s.entities = e :: post)
    (hcurrent : s.current = some 0) :
    ∃ s', Runs env ⟨edgeTokens flags depth edge ++ rest, s⟩ ⟨rest, s'⟩ ∧
      Kept s s' [decimal edge.id] ∧
      s'.entities = { e with children := e.children ++ [s.entities.length] } :: post ++
        [layEdge flags edge] := by
  have hnew' : getXMLAttribute (edgeAttributes edge) "id".toList ∉ s.entityHash := hnew
  obtain ⟨pre₁, hpre₁⟩ : ∃ pre₁, pre₁ =
    { e with children := e.children ++ [s.entities.length] } :: post := ⟨_, rfl⟩
  have hlen : pre₁.length = s.entities.length := by
    rw [hpre₁, hentities]; simp
  obtain ⟨s₁, hs₁⟩ : ∃ s₁, s₁ = s.startEntity env .edge (edgeAttributes edge) := ⟨_, rfl⟩
  have hstart := hs₁.trans (startEntity_new hgen hnew')
  have hent₁ : s₁.entities = pre₁ ++ [{ layEdge flags edge with data := ∅ }] := by
    have hnewEntity : (s.newEntity .edge (decimal edge.id)).entities = pre₁ ++
        [{ kind := .edge, parent := some 0, idStr := decimal edge.id }] := by
      rw [hpre₁]
      exact entities_newEntity (List.nil_append _ ▸ hentities : s.entities = [] ++ e :: post) hcurrent
    rw [hstart]
    show ((s.newEntity .edge (decimal edge.id)).entities.modify s.entities.length _) = _
    rw [hnewEntity, ← hlen, modify_append_cons]
    rfl
  have hcurrent₁ : s₁.current = some pre₁.length := by rw [hstart, hlen]; rfl
  have hkeys₁ : s₁.keyHash = s.keyHash := by rw [hstart]; rfl
  have herror₁ : s₁.errorCount = s.errorCount := by rw [hstart]; rfl
  have hids₁ : ∀ i, i ∈ s₁.entityHash ↔ i ∈ s.entityHash ∨ i ∈ [decimal edge.id] := by
    rw [hstart]
    exact fun i => mem_insert_entityHash
  obtain ⟨after, hafter⟩ : ∃ after, after = contentTokens (tabs depth) ++
    (Token.endElement "edge".toList :: (contentTokens ['\n'] ++ rest)) := ⟨_, rfl⟩
  obtain ⟨s₂, hrun₂, hkept₂, hent₂⟩ := runs_datas (depth + 1) after
    (fun d hd => hkeys₁ ▸ himp d (mem_sortedData.mp hd)) hent₁ hcurrent₁
  have hcurrent₂ := hkept₂.current.trans hcurrent₁
  refine ⟨{ s₂ with current := s₂.parentOf pre₁.length }, ?_, ?_, ?_⟩
  · have htokens : edgeTokens flags depth edge ++ rest = contentTokens (tabs depth) ++
        (.startElement "edge".toList (edgeAttributes edge) :: (contentTokens ['\n'] ++
          (datasTokens flags (depth + 1) edge.datas ++ after))) := by
      simp only [edgeTokens, edgeAttributes, hafter, List.append_assoc, List.cons_append,
        List.nil_append]
    rw [htokens]
    refine (runs_content _).trans (runs_startEdge.trans ?_)
    rw [← hs₁]
    refine (runs_content _).trans (hrun₂.trans ?_)
    rw [hafter]
    exact (runs_content _).trans ((runs_endEntity (by decide) hcurrent₂).trans (runs_content _))
  · refine ⟨?_, hkept₂.keyHash.trans hkeys₁, hkept₂.errorCount.trans herror₁, fun i => ?_⟩
    · exact (parentOf_eq_of_entities hent₂).trans hcurrent.symm
    · show i ∈ s₂.entityHash ↔ _
      rw [hkept₂.entityHash, hids₁]
      simp
  · show s₂.entities = _
    rw [hent₂, hpre₁]
    rfl

/-- **The loop builds the entities of the printed edges** below the root. -/
theorem runs_edges (hgen : env.generateUuidFromId = false) (depth : Nat) {edges : List Edge}
    (rest : List Token) {e : TempEntity} {post : List TempEntity} (hnd : (edgeIdTexts edges).Nodup)
    (hnew : ∀ id ∈ edgeIdTexts edges, id ∉ s.entityHash)
    (himp : ∀ edge ∈ edges, ∀ d ∈ edge.datas, Importable env flags s.keyHash d)
    (hentities : s.entities = e :: post) (hcurrent : s.current = some 0) :
    ∃ s', Runs env ⟨edges.flatMap (edgeTokens flags depth) ++ rest, s⟩ ⟨rest, s'⟩ ∧
      Kept s s' (edgeIdTexts edges) ∧
      s'.entities = { e with
          children := e.children ++ List.range' s.entities.length edges.length } :: post ++
        edges.map (layEdge flags) := by
  induction edges generalizing s e post with
  | nil =>
    refine ⟨s, Runs.refl _, Kept.refl s, ?_⟩
    simp [hentities]
  | cons edge edges ih =>
    have hsplit : edgeIdTexts (edge :: edges) = [decimal edge.id] ++ edgeIdTexts edges := rfl
    rw [hsplit] at hnd hnew ⊢
    obtain ⟨s₁, hrun₁, hkept₁, hent₁⟩ := runs_edge hgen depth
      (edges.flatMap (edgeTokens flags depth) ++ rest) (hnew _ (by simp)) (himp edge (by simp))
      hentities hcurrent
    have hlen : s₁.entities.length = s.entities.length + 1 := by
      rw [hent₁, hentities]; simp
    rw [List.cons_append] at hent₁
    obtain ⟨s₂, hrun₂, hkept₂, hent₂⟩ := ih hnd.of_append_right (not_mem_of_kept hkept₁ hnd hnew)
      (fun e' he' d hd => (himp e' (by simp [he']) d hd).of_kept hkept₁) hent₁
      (hkept₁.current.trans hcurrent)
    refine ⟨s₂, ?_, hkept₁.trans hkept₂, ?_⟩
    · rw [List.flatMap_cons, List.append_assoc]
      exact hrun₁.trans hrun₂
    · rw [hent₂, hlen]
      simp [List.range'_succ]

end Sem.Medea
