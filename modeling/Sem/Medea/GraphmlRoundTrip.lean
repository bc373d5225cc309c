import Sem.Medea.GraphmlReading

/-!
# Export, then import

`RoundTrip` says that reading a printed document gives back what was exported: the key names, and a
tree of entities with the ids, the nesting, the sibling order, the data and the edges of the
selection. An edge's kind is its `kind` datum. Key names are written as they are, so that this needs
names that stand for themselves between double quotes, and it needs nothing else.

* `runs_document`: what the loop builds from a printed document.
* `cleanKey_of_declaredNames`: a key name is read back only if it stands for itself.
* `roundTrip_iff`: a document reads back exactly when all its key names do.
-/

namespace Sem.Medea

open Xml (Text Token Attributes Reads CleanValue contentTokens)
open GraphmlPrinter

variable {env : ImportEnv} {flags : ExportFlags} {model : List Edge} {selection : List Selected}

/-! ## What is given back -/

/-- The data of an entity are the exported ones, with the values they are written with. -/
def HasData (flags : ExportFlags) (table : Table Text Text) (datas : List Data) : Prop :=
  ∀ name value, table.lookup name = some value ↔
    ∃ d ∈ datas, exportKey flags d.key = true ∧ d.key.name = name ∧ exportedValue d = value

mutual

/-- Entity number `p` stands for the node, with everything below it. -/
def RepresentsNode (flags : ExportFlags) (entities : List TempEntity) (parent p : Nat) :
    Node → Prop
  | .mk id datas children => ∃ e, entities[p]? = some e ∧ e.kind = .node ∧
      e.parent = some parent ∧ e.idStr = decimal id ∧ HasData flags e.data datas ∧
      RepresentsNodes flags entities p e.children children

/-- The entities with the numbers `ps` stand for the nodes, in this order. -/
def RepresentsNodes (flags : ExportFlags) (entities : List TempEntity) (parent : Nat) (ps : List Nat) :
    List Node → Prop
  | [] => ps = []
  | n :: ns => ∃ p ps', ps = p :: ps' ∧ RepresentsNode flags entities parent p n ∧
      RepresentsNodes flags entities parent ps' ns

end

/-- Entity number `p` stands for the edge. -/
def RepresentsEdge (flags : ExportFlags) (entities : List TempEntity) (p : Nat) (edge : Edge) : Prop :=
  ∃ e, entities[p]? = some e ∧ e.kind = .edge ∧ e.parent = some 0 ∧ e.children = [] ∧
    e.idStr = decimal edge.id ∧ e.sourceIdStr = decimal edge.source ∧
    e.targetIdStr = decimal edge.target ∧ HasData flags e.data edge.datas

/-- The name of the key that a tag declares. -/
def declaredName : Token → List Text
  | .startElement name attrs =>
    if tagKind name = .key then [getXMLAttribute attrs "attr.name".toList] else []
  | _ => []

/-- The names of the keys that a document declares. -/
def declaredNames (tokens : List Token) : List Text := tokens.flatMap declaredName

/-- Reading the printed document gives back what was exported. -/
structure RoundTrip (env : ImportEnv) (flags : ExportFlags) (model : List Edge)
    (selection : List Selected) : Prop where
  keys : (Xml.scan (toGraphml flags model selection)).map declaredNames =
    some (((keyList model selection).filter (exportKey flags ·)).map (·.name))
  entities : ∃ s root nodes edges, parseGraphML env (toGraphml flags model selection) = some s ∧
    s.errorCount = 0 ∧ s.current = some 0 ∧ s.entities[0]? = some root ∧
    root.children = nodes ++ edges ∧
    s.entities.length = 1 + (allNodes selection).length + (edgeList flags model selection).length ∧
    RepresentsNodes flags s.entities 0 nodes (topNodes selection) ∧
    List.Forall₂ (RepresentsEdge flags s.entities) edges (edgeList flags model selection)

/-- The data of the exported entities, one list for each. -/
def dataLists (model : List Edge) (selection : List Selected) : List (List Data) :=
  (allNodes selection).map (·.datas) ++ (collectEdges model selection).map (·.datas)

/-- The import leaves the datum's value as it is: it rewrites UUIDs and versions. -/
structure KeptValue (env : ImportEnv) (flags : ExportFlags) (d : Data) : Prop where
  uuid : exportKey flags d.key = true → d.key.name = KeyName.uuid →
    env.getUUIDOfValue (exportedValue d) = exportedValue d
  version : exportKey flags d.key = true → d.key.name = KeyName.medeaVersion →
    ImportState.importedVersion env (exportedValue d) = some (exportedValue d)

/-- A selection of a model: ids are unique, a key is known by its id and by its name, an entity has
one datum for a key. The values have characters that XML keeps, and the import takes ids and values
as they are. -/
structure Exportable (env : ImportEnv) (flags : ExportFlags) (model : List Edge)
    (selection : List Selected) : Prop where
  takesIds : env.generateUuidFromId = false
  ids : ((allNodes selection).map (·.id) ++ (edgeList flags model selection).map (·.id)).Nodup
  keyIds : ∀ k ∈ collectKeys model selection, ∀ k' ∈ collectKeys model selection,
    k.id = k'.id → k = k'
  keyNames : ∀ k ∈ collectKeys model selection, ∀ k' ∈ collectKeys model selection,
    k.name = k'.name → k = k'
  datas : ∀ datas ∈ dataLists model selection, (datas.map (·.key)).Nodup
  values : ∀ datas ∈ dataLists model selection, ∀ d ∈ datas, CleanData flags d ∧
    KeptValue env flags d

/-! ## The built tree stands for the selection -/

theorem lookup_addDatas {datas : List Data} (hnd : (datas.map (·.key.name)).Nodup)
    (table : Table Text Text) (name value : Text) :
    (addDatas flags datas table).lookup name = some value ↔
      (∃ d ∈ datas, exportKey flags d.key = true ∧ d.key.name = name ∧ exportedValue d = value) ∨
      (table.lookup name = some value ∧
        ∀ d ∈ datas, exportKey flags d.key = true → d.key.name ≠ name) := by
  induction datas generalizing table with
  | nil => simp [addDatas]
  | cons d datas ih =>
    rw [List.map_cons, List.nodup_cons] at hnd
    rw [addDatas, List.foldl_cons, ← addDatas, ih hnd.2]
    cases hexport : exportKey flags d.key with
    | false => simp [hexport]
    | true =>
      have hother : ∀ d' ∈ datas, d'.key.name ≠ d.key.name := fun d' hd' heq =>
        hnd.1 (List.mem_map.mpr ⟨d', hd', heq⟩)
      by_cases hname : d.key.name = name
      · subst hname
        simp [hexport]
        grind
      · simp [hexport, Ne.symm hname, hname]

theorem hasData_dataTable {datas : List Data} (hnd : (datas.map (·.key.name)).Nodup) :
    HasData flags (dataTable flags datas) datas := by
  intro name value
  have hsorted : ((sortedData datas).map (·.key.name)).Nodup :=
    ((List.perm_insertionSort _ datas).map _).nodup_iff.mpr hnd
  rw [dataTable, lookup_addDatas hsorted]
  simp only [mem_sortedData, Table.lookup_empty, reduceCtorEq, false_and, or_false]

mutual

theorem representsNode (flags : ExportFlags) (parent : Nat) :
    ∀ (n : Node) (pre post : List TempEntity),
      (∀ m ∈ n.all, (m.datas.map (·.key.name)).Nodup) →
      RepresentsNode flags (pre ++ layNode flags parent pre.length n ++ post) parent pre.length n
  | .mk id datas children, pre, post, h => by
    obtain ⟨e, hlay, hkind, hparent, hchildren, hid, hdata⟩ : ∃ e : TempEntity,
        layNode flags parent pre.length (.mk id datas children) =
          e :: layNodes flags pre.length (pre.length + 1) children ∧ e.kind = .node ∧
        e.parent = some parent ∧ e.children = childIndices (pre.length + 1) children ∧
        e.idStr = decimal id ∧ e.data = dataTable flags datas :=
      ⟨_, layNode.eq_1 .., rfl, rfl, rfl, rfl, rfl⟩
    have hrest := representsNodes flags pre.length children (pre ++ [e]) post fun m hm =>
      h m (List.mem_cons_of_mem _ hm)
    rw [List.length_append, List.length_singleton] at hrest
    rw [hlay, RepresentsNode]
    refine ⟨e, by simp, hkind, hparent, hid, ?_, ?_⟩
    · rw [hdata]
      exact hasData_dataTable (h (.mk id datas children) (by simp [Node.all]))
    · rw [hchildren]
      simpa using hrest

/-- **The entities that are laid out for nodes stand for them.** -/
theorem representsNodes (flags : ExportFlags) (parent : Nat) :
    ∀ (ns : List Node) (pre post : List TempEntity),
      (∀ m ∈ Node.allOf ns, (m.datas.map (·.key.name)).Nodup) →
      RepresentsNodes flags (pre ++ layNodes flags parent pre.length ns ++ post) parent
        (childIndices pre.length ns) ns
  | [], _, _, _ => rfl
  | n :: ns, pre, post, h => by
    have hn := representsNode flags parent n pre
      (layNodes flags parent (pre.length + n.all.length) ns ++ post) fun m hm =>
        h m (List.mem_append_left _ hm)
    have hns := representsNodes flags parent ns (pre ++ layNode flags parent pre.length n) post
      fun m hm => h m (List.mem_append_right _ hm)
    rw [List.length_append, length_layNode] at hns
    rw [childIndices, RepresentsNodes, layNodes]
    refine ⟨_, _, rfl, ?_, ?_⟩
    · simpa only [List.append_assoc] using hn
    · simpa only [List.append_assoc] using hns

end

theorem representsEdges (flags : ExportFlags) (edges : List Edge) (pre : List TempEntity)
    (h : ∀ e ∈ edges, (e.datas.map (·.key.name)).Nodup) :
    List.Forall₂ (RepresentsEdge flags (pre ++ edges.map (layEdge flags)))
      (List.range' pre.length edges.length) edges := by
  induction edges generalizing pre with
  | nil => exact .nil
  | cons edge edges ih =>
    have hrest := ih (pre ++ [layEdge flags edge]) fun e he => h e (by simp [he])
    rw [List.length_append, List.length_singleton] at hrest
    rw [List.length_cons, List.range'_succ]
    refine .cons ⟨layEdge flags edge, by simp, rfl, rfl, rfl, rfl, rfl, rfl, ?_⟩ ?_
    · exact hasData_dataTable (h edge (by simp))
    · simpa using hrest

/-! ## The run over a printed document -/

theorem mem_dataLists_of_node {n : Node} (hn : n ∈ allNodes selection) :
    n.datas ∈ dataLists model selection :=
  List.mem_append_left _ (List.mem_map_of_mem hn)

theorem mem_dataLists_of_edge {e : Edge} (he : e ∈ edgeList flags model selection) :
    e.datas ∈ dataLists model selection :=
  List.mem_append_right _ (List.mem_map_of_mem (mem_edgeList.mp he).1)

theorem key_mem_of_dataLists {datas : List Data} (hdatas : datas ∈ dataLists model selection)
    {d : Data} (hd : d ∈ datas) : d.key ∈ collectKeys model selection := by
  rcases List.mem_append.mp hdatas with hm | hm
  · obtain ⟨n, hn, rfl⟩ := List.mem_map.mp hm
    exact key_mem_of_node model hn hd
  · obtain ⟨e, he, rfl⟩ := List.mem_map.mp hm
    exact key_mem_of_edge he hd

theorem Exportable.datas_nodup (h : Exportable env flags model selection) {datas : List Data}
    (hdatas : datas ∈ dataLists model selection) : (datas.map (·.key.name)).Nodup := by
  have hnames : (datas.map (·.key.name)) = (datas.map (·.key)).map (·.name) := by simp
  rw [hnames]
  refine List.Nodup.map_on (fun k hk k' hk' heq => ?_) (h.datas datas hdatas)
  obtain ⟨d, hd, rfl⟩ := List.mem_map.mp hk
  obtain ⟨d', hd', rfl⟩ := List.mem_map.mp hk'
  exact h.keyNames _ (key_mem_of_dataLists hdatas hd) _ (key_mem_of_dataLists hdatas hd') heq

/-- Exported keys have different ids in a document. -/
theorem Exportable.keyIds_nodup (h : Exportable env flags model selection) :
    (((keyList model selection).filter (exportKey flags ·)).map (getKeyID flags)).Nodup := by
  have hnd : (keyList model selection).Nodup :=
    (List.perm_insertionSort _ _).nodup_iff.mpr (List.nodup_dedup _)
  refine List.Nodup.map_on (fun k hk k' hk' heq => ?_) (hnd.filter _)
  have hk := mem_keyList.mp (List.mem_filter.mp hk).1
  have hk' := mem_keyList.mp (List.mem_filter.mp hk').1
  unfold getKeyID at heq
  split at heq
  · exact h.keyNames k hk k' hk' heq
  · exact h.keyIds k hk k' hk' (decimal_injective heq)

/-- The keys as the document declares them. -/
def documentKeys (flags : ExportFlags) (model : List Edge) (selection : List Selected) :
    Table Text Text :=
  declareKeys flags (keyList model selection) ∅

theorem Exportable.importable (h : Exportable env flags model selection) {datas : List Data}
    (hdatas : datas ∈ dataLists model selection) {d : Data} (hd : d ∈ datas) :
    Importable env flags (documentKeys flags model selection) d where
  key hexport := lookup_declareKeys h.keyIds_nodup
    (mem_keyList.mpr (key_mem_of_dataLists hdatas hd)) hexport
  uuid := (h.values datas hdatas d hd).2.uuid
  version := (h.values datas hdatas d hd).2.version

theorem Exportable.ids_nodup (h : Exportable env flags model selection) :
    (nodeIdTexts (allNodes selection) ++ edgeIdTexts (edgeList flags model selection)).Nodup := by
  have := h.ids.map (fun m n heq => decimal_injective heq)
  simpa [nodeIdTexts, edgeIdTexts, Function.comp_def] using this

/-- **The loop builds the nodes and the edges of a printed document below the root.** -/
theorem runs_document (h : Exportable env flags model selection) :
    ∃ s, Runs env ⟨documentTokens flags model selection, { modelImportVersion := env.version }⟩ ⟨[], s⟩ ∧
      s.errorCount = 0 ∧ s.current = some 0 ∧
      s.entities = { kind := .node
                     children := childIndices 1 (topNodes selection) ++
                       List.range' (1 + (allNodes selection).length)
                         (edgeList flags model selection).length } ::
        layNodes flags 0 1 (topNodes selection) ++
        (edgeList flags model selection).map (layEdge flags) := by
  obtain ⟨s₀, hs₀⟩ : ∃ s₀ : ImportState, s₀ = { modelImportVersion := env.version } := ⟨_, rfl⟩
  obtain ⟨s₁, hs₁⟩ : ∃ s₁ : ImportState,
      s₁ = { s₀ with keyHash := documentKeys flags model selection } := ⟨_, rfl⟩
  have hkeys₁ : s₁.keyHash = documentKeys flags model selection := by rw [hs₁]
  have hent₁ : s₁.entities = [] ++ { kind := .node } :: [] := by rw [hs₁, hs₀]; rfl
  have hcurrent₁ : s₁.current = some 0 := by rw [hs₁, hs₀]
  have hids₁ : ∀ id, id ∉ s₁.entityHash := by
    intro id
    rw [hs₁, hs₀]
    exact AList.notMem_empty id
  have hnd := h.ids_nodup
  -- what stands after the nodes, and after the edges
  obtain ⟨close, hclose⟩ : ∃ close, close = contentTokens (tabs 1) ++
    ([.endElement "graph".toList] ++ (contentTokens ['\n'] ++ [.endElement "graphml".toList])) :=
    ⟨_, rfl⟩
  have hnodes : BuildsNodes env flags 2 (topNodes selection) := buildsNodes h.takesIds 2 _
  obtain ⟨s₂, hrun₂, hkept₂, hent₂⟩ := hnodes
    ((edgeList flags model selection).flatMap (edgeTokens flags 2) ++ close) s₁ [] [] _
    hnd.of_append_left (fun id _ => hids₁ id)
    (fun m hm d hd => hkeys₁ ▸ h.importable (mem_dataLists_of_node hm) hd) hent₁ hcurrent₁
  have hlen₁ : s₁.entities.length = 1 := by rw [hent₁]; rfl
  rw [hlen₁] at hent₂
  have hcurrent₂ := hkept₂.current.trans hcurrent₁
  have hkeys₂ := hkept₂.keyHash.trans hkeys₁
  have hedges : ∀ e ∈ edgeList flags model selection, ∀ d ∈ e.datas,
      Importable env flags s₂.keyHash d :=
    fun e he d hd => hkeys₂ ▸ h.importable (mem_dataLists_of_edge he) hd
  obtain ⟨s₃, hrun₃, hkept₃, hent₃⟩ := runs_edges h.takesIds 2 close
    hnd.of_append_right (not_mem_of_kept hkept₂ hnd fun id _ => hids₁ id)
    hedges hent₂ hcurrent₂
  have hlen₂ : s₂.entities.length = 1 + (allNodes selection).length := by
    rw [hent₂]
    simp [length_layNodes, allNodes, Nat.add_comm]
  refine ⟨s₃, ?_, ?_, hkept₃.current.trans hcurrent₂, ?_⟩
  · have hkeys : ∀ rest, Runs env ⟨(keyList model selection).flatMap (keyTokens flags 1) ++ rest, s₀⟩
        ⟨rest, s₁⟩ := by
      have hempty : s₀.keyHash = ∅ := by rw [hs₀]
      intro rest
      rw [hs₁, documentKeys, ← hempty]
      exact runs_keys 1 h.keyIds_nodup fun k _ _ => hempty ▸ AList.notMem_empty _
    rw [← hs₀]
    simp only [documentTokens, List.append_assoc, List.cons_append, List.nil_append]
    refine (Runs.one rfl).trans ((runs_content _).trans ((runs_otherStart (by decide)).trans
      ((runs_content _).trans ?_)))
    rw [hclose] at hrun₂ hrun₃
    simp only [List.cons_append, List.nil_append] at hrun₂ hrun₃
    refine (hkeys _).trans ((runs_content _).trans ((runs_otherStart (by decide)).trans
      ((runs_content _).trans (hrun₂.trans (hrun₃.trans ((runs_content _).trans ?_))))))
    exact (runs_otherEnd (by decide)).trans ((runs_content _).trans (runs_otherEnd (by decide)))
  · rw [hkept₃.errorCount, hkept₂.errorCount, hs₁, hs₀]
  · rw [hent₃, hlen₂]
    simp

/-! ## Key names -/

@[simp] theorem declaredNames_nil : declaredNames [] = [] := rfl

theorem declaredNames_append (ts ts' : List Token) :
    declaredNames (ts ++ ts') = declaredNames ts ++ declaredNames ts' :=
  List.flatMap_append

theorem declaredNames_key_tag {name : Text} (h : tagKind name = .key) (attrs : Attributes)
    (ts : List Token) : declaredNames (.startElement name attrs :: ts) =
      getXMLAttribute attrs "attr.name".toList :: declaredNames ts := by
  rw [declaredNames, List.flatMap_cons, declaredName, if_pos h, ← declaredNames]
  rfl

theorem declaredNames_other {name : Text} (h : tagKind name ≠ .key) (attrs : Attributes)
    (ts : List Token) : declaredNames (.startElement name attrs :: ts) = declaredNames ts := by
  rw [declaredNames, List.flatMap_cons, declaredName, if_neg h, ← declaredNames]
  rfl

@[simp] theorem declaredNames_endElement {name : Text} {ts : List Token} :
    declaredNames (.endElement name :: ts) = declaredNames ts := rfl

@[simp] theorem declaredNames_content (cs : Text) : declaredNames (contentTokens cs) = [] := by
  induction cs with
  | nil => rfl
  | cons c cs ih => exact ih

theorem declaredNames_key (depth : Nat) (key : Key) :
    declaredNames (keyTokens flags depth key) =
      if exportKey flags key then [key.name] else [] := by
  unfold keyTokens
  split
  · rw [declaredNames_append, declaredNames_append, declaredNames_content, declaredNames_content,
      declaredNames_key_tag (by decide)]
    rfl
  · rfl

theorem declaredNames_keys (depth : Nat) (keys : List Key) :
    declaredNames (keys.flatMap (keyTokens flags depth)) =
      (keys.filter (exportKey flags ·)).map (·.name) := by
  induction keys with
  | nil => rfl
  | cons k keys ih =>
    rw [List.flatMap_cons, declaredNames_append, declaredNames_key, ih]
    cases hk : exportKey flags k <;> simp [hk]

theorem declaredNames_datas (depth : Nat) (datas : List Data) :
    declaredNames (datasTokens flags depth datas) = [] := by
  unfold datasTokens
  induction sortedData datas with
  | nil => rfl
  | cons d ds ih =>
    rw [List.flatMap_cons, declaredNames_append, ih, List.append_nil, dataTokens]
    split
    · have hdata : tagKind "data".toList ≠ .key := by decide
      simp only [declaredNames_append, declaredNames_other hdata, declaredNames_content,
        declaredNames_endElement, declaredNames_nil, List.append_nil]
    · rfl

mutual

theorem declaredNames_node (depth : Nat) : ∀ n : Node, declaredNames (nodeTokens flags depth n) = []
  | .mk id datas children => by
    have hnode : tagKind "node".toList ≠ .key := by decide
    have hgraph : tagKind "graph".toList ≠ .key := by decide
    unfold nodeTokens
    split <;> simp only [declaredNames_append, declaredNames_other hnode, declaredNames_other hgraph,
      declaredNames_datas, declaredNames_content, declaredNames_nodes (depth + 2) children,
      declaredNames_endElement, declaredNames_nil, List.append_nil]

theorem declaredNames_nodes (depth : Nat) :
    ∀ ns : List Node, declaredNames (nodesTokens flags depth ns) = []
  | [] => rfl
  | n :: ns => by
    rw [nodesTokens, declaredNames_append, declaredNames_node depth n, declaredNames_nodes depth ns]
    rfl

end

theorem declaredNames_edges (depth : Nat) (edges : List Edge) :
    declaredNames (edges.flatMap (edgeTokens flags depth)) = [] := by
  have hedge : tagKind "edge".toList ≠ .key := by decide
  induction edges with
  | nil => rfl
  | cons e edges ih =>
    rw [List.flatMap_cons, declaredNames_append, ih, List.append_nil, edgeTokens]
    simp only [declaredNames_append, declaredNames_other hedge, declaredNames_datas,
      declaredNames_content, declaredNames_endElement, declaredNames_nil, List.append_nil]

/-- The text before the first key. -/
theorem reads_header : Reads (xmlDeclaration ++ graphmlTag)
    (.processingInstruction xmlVersion :: contentTokens ['\n'] ++
      .startElement "graphml".toList graphmlAttributes :: contentTokens ['\n']) :=
  reads_xmlDeclaration.append reads_graphmlTag

theorem declaredNames_document :
    declaredNames (documentTokens flags model selection) =
      ((keyList model selection).filter (exportKey flags ·)).map (·.name) := by
  have hgraphml : tagKind "graphml".toList ≠ .key := by decide
  have hgraph : tagKind "graph".toList ≠ .key := by decide
  have hversion : ∀ ts, declaredNames (.processingInstruction xmlVersion :: ts) =
      declaredNames ts := fun _ => rfl
  simp only [documentTokens, List.append_assoc, List.cons_append, List.nil_append, hversion,
    declaredNames_append, declaredNames_content, declaredNames_other hgraphml, declaredNames_keys,
    declaredNames_other hgraph, declaredNames_nodes, declaredNames_edges, declaredNames_endElement,
    declaredNames_nil, List.append_nil]

/-- **Key names that are read back stand for themselves.** A name that does not is read as another
one, or it stops the reader, before anything that comes after it can be read as it. -/
theorem cleanKey_of_declaredNames {keys : List Key} {depth fuel : Nat} {rest : Text}
    {ts : List Token}
    (hscan : Xml.scanItems fuel (keys.flatMap (keyToGraphml flags depth) ++ rest) = some ts)
    (hnames : (keys.filter (exportKey flags ·)).map (·.name) <+: declaredNames ts) :
    ∀ k ∈ keys, CleanKey flags k := by
  induction keys generalizing fuel ts with
  | nil => exact fun _ hk => nomatch hk
  | cons k keys ih =>
    rw [List.flatMap_cons, List.append_assoc] at hscan
    have hclean : CleanKey flags k := by
      intro hexport
      obtain ⟨after, hafter⟩ : ∃ after, keyToGraphml flags depth k ++
          (keys.flatMap (keyToGraphml flags depth) ++ rest) = tabs depth ++
            ('<' :: "key".toList ++ ' ' :: "attr.name".toList ++ '=' :: '"' :: k.name ++
              '"' :: after) := by
        refine ⟨" attr.type=\"".toList ++ (getGraphMLTypeName k.type ++ ("\"".toList ++
          (" id=\"".toList ++ (getKeyID flags k ++ ("\"/>\n".toList ++
            (keys.flatMap (keyToGraphml flags depth) ++ rest)))))), ?_⟩
        rw [keyToGraphml, if_pos hexport]
        simp only [List.append_assoc, List.cons_append]
        rfl
      rw [hafter] at hscan
      obtain ⟨fuel, ts, rfl, hscan⟩ := (reads_tabs depth).unscan hscan
      cases fuel with
      | zero => cases hscan
      | succ fuel =>
        obtain ⟨⟨item, rest'⟩, hitem, hmore⟩ := Option.bind_eq_some_iff.mp hscan
        obtain ⟨ts', -, rfl⟩ := Option.map_eq_some_iff.mp hmore
        obtain ⟨v, attrs, item', rfl, hv⟩ := Xml.scanItem_startTag_value (by decide) (by decide) hitem
        rw [List.filter_cons_of_pos hexport, List.map_cons, declaredNames_append,
          declaredNames_content, List.nil_append, List.cons_append,
          declaredNames_key_tag (by decide)] at hnames
        exact hv (List.cons_prefix_cons.mp hnames).1.symm
    obtain ⟨fuel, ts, rfl, hrest⟩ := (reads_key depth hclean).unscan hscan
    rw [declaredNames_append, declaredNames_key] at hnames
    have htail : (keys.filter (exportKey flags ·)).map (·.name) <+: declaredNames ts := by
      cases hexport : exportKey flags k with
      | false => simpa [hexport] using hnames
      | true => simpa [hexport] using hnames
    intro k' hk'
    rcases List.mem_cons.mp hk' with rfl | hk'
    · exact hclean
    · exact ih hrest htail k' hk'

/-- Clean key names are enough. -/
theorem Exportable.cleanSelection (h : Exportable env flags model selection)
    (hkeys : ∀ k ∈ collectKeys model selection, CleanKey flags k) :
    CleanSelection flags model selection where
  keys := hkeys
  nodes n hn d hd := (h.values n.datas (mem_dataLists_of_node hn) d hd).1
  edges e he d hd :=
    (h.values e.datas (List.mem_append_right _ (List.mem_map_of_mem he)) d hd).1

/-- **A printed document reads back exactly when its key names do.** -/
theorem roundTrip_iff (env : ImportEnv) (flags : ExportFlags) (model : List Edge)
    (selection : List Selected) (h : Exportable env flags model selection) :
    RoundTrip env flags model selection ↔
      ∀ k ∈ collectKeys model selection, exportKey flags k = true → CleanValue k.name := by
  constructor
  · intro hround k hk
    obtain ⟨ts, hscan, hnames⟩ := Option.map_eq_some_iff.mp hround.keys
    have htext : toGraphml flags model selection = (xmlDeclaration ++ graphmlTag) ++
        ((keyList model selection).flatMap (keyToGraphml flags 1) ++
          ("\n\t<graph edgedefault=\"directed\" id=\"g0\">\n".toList ++
            (nodesToGraphml flags 2 (topNodes selection) ++
              ((edgeList flags model selection).flatMap (edgeToGraphml flags 2) ++
                ("\t</graph>\n".toList ++ "</graphml>".toList))))) := by
      simp only [toGraphml, List.append_assoc]
    rw [htext] at hscan
    obtain ⟨fuel, ts', rfl, hkeys⟩ := reads_header.unscan hscan
    have hheader : declaredNames (.processingInstruction xmlVersion :: contentTokens ['\n'] ++
        .startElement "graphml".toList graphmlAttributes :: contentTokens ['\n']) = [] := by decide
    rw [declaredNames_append, hheader, List.nil_append] at hnames
    exact cleanKey_of_declaredNames hkeys (hnames ▸ List.prefix_rfl) k (mem_keyList.mpr hk)
  · intro hkeys
    have hscan := (reads_toGraphml (h.cleanSelection hkeys)).scan
    refine ⟨?_, ?_⟩
    · rw [hscan]
      exact congrArg some declaredNames_document
    · obtain ⟨s, hrun, herror, hcurrent, hent⟩ := runs_document h
      have hparse : parseGraphML env (toGraphml flags model selection) = some s := by
        rw [parseGraphML, hscan, Option.bind_some, if_pos wellNested_documentTokens]
        exact importLoop_of_runs hrun (Nat.le_refl _)
      refine ⟨s, _, _, _, hparse, herror, hcurrent, by rw [hent]; rfl, rfl, ?_, ?_, ?_⟩
      · rw [hent]
        simp [length_layNodes, allNodes, Nat.add_comm, Nat.add_left_comm]
      · rw [hent]
        exact representsNodes flags 0 (topNodes selection) [_] _ fun m hm =>
          h.datas_nodup (mem_dataLists_of_node hm)
      · have hedges (root : TempEntity) := representsEdges flags (edgeList flags model selection)
          (root :: layNodes flags 0 1 (topNodes selection))
          fun e he => h.datas_nodup (mem_dataLists_of_edge he)
        simp only [List.length_cons, length_layNodes, Nat.add_comm _ 1] at hedges
        rw [hent]
        exact hedges _

/-! ## Two nodes and an edge -/

/-- A key called `name`, its datum on two nodes, one inside the other, and an edge between them. -/
def labelled (name : Text) (value : Text) : List Selected :=
  [.node (.mk 1 [⟨⟨7, name, .string⟩, value⟩] [.mk 2 [⟨⟨7, name, .string⟩, value⟩] []]),
    .edge ⟨3, 1, 2, .assembly, [⟨⟨8, "kind".toList, .string⟩, "EDGE_ASSEMBLY".toList⟩]⟩]

/-- A selection without data that the import rewrites. -/
theorem exportable_plain {selection : List Selected}
    (hids : ((allNodes selection).map (·.id) ++ (edgeList {} [] selection).map (·.id)).Nodup)
    (hkeys : ∀ k ∈ collectKeys [] selection, ∀ k' ∈ collectKeys [] selection,
      (k.id = k'.id → k = k') ∧ (k.name = k'.name → k = k'))
    (hdatas : ∀ datas ∈ dataLists [] selection, (datas.map (·.key)).Nodup)
    (hvalues : ∀ datas ∈ dataLists [] selection, ∀ d ∈ datas,
      (∀ c ∈ d.value, Xml.isXmlChar c = true ∧ c ≠ '\r') ∧ d.key.name ≠ KeyName.uuid ∧
        d.key.name ≠ KeyName.medeaVersion) :
    Exportable plainImport {} [] selection where
  takesIds := rfl
  ids := hids
  keyIds k hk k' hk' := (hkeys k hk k' hk').1
  keyNames k hk k' hk' := (hkeys k hk k' hk').2
  datas := hdatas
  values datas hd d hm := by
    obtain ⟨hclean, huuid, hversion⟩ := hvalues datas hd d hm
    exact ⟨fun _ => hclean, fun _ h => absurd h huuid, fun _ h => absurd h hversion⟩

theorem roundTrip_label :
    RoundTrip plainImport {} [] (labelled "label".toList "R & D".toList) :=
  (roundTrip_iff plainImport {} [] (labelled "label".toList "R & D".toList)
    (exportable_plain (by decide) (by decide) (by decide) (by decide))).mpr (by decide)

/-- **A key called `R&D`**: its declaration is no well-formed XML, and the document is refused. -/
theorem ampersand_stops_reader :
    Exportable plainImport {} [] (labelled "R&D".toList "on".toList) ∧
      parseGraphML plainImport (toGraphml {} [] (labelled "R&D".toList "on".toList)) = none ∧
      ¬ RoundTrip plainImport {} [] (labelled "R&D".toList "on".toList) := by
  have hparse : parseGraphML plainImport (toGraphml {} [] (labelled "R&D".toList "on".toList)) =
      none := by decide +kernel
  refine ⟨exportable_plain (by decide) (by decide) (by decide) (by decide), hparse, fun h => ?_⟩
  obtain ⟨s, -, -, -, hsome, -⟩ := h.entities
  rw [hparse] at hsome
  cases hsome

end Sem.Medea
