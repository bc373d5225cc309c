import Sem.Medea.GraphmlPrinter

/-!
# The tokens of a printed document

An XML reader sees the text that `GraphmlPrinter` writes as the tokens below, provided that the key
names stand for themselves inside double quotes and the values have characters that XML keeps.
Every printing function has a token function beside it and a lemma that the one reads as the other.

* `sanitizeString_eq`: the five replacements of `SanitizeString` escape a text.
* `reads_toGraphml`: a printed document reads as `documentTokens`.
-/

namespace Sem.Medea

open Lib (replaceChar replaceChar_append replaceChar_of_ne)
open Xml (Text Token Attributes Reads CleanName CleanValue CleanAttributes contentTokens renderTag)

/-! ## Values -/

theorem sanitizeString_append (s t : Text) :
    sanitizeString (s ++ t) = sanitizeString s ++ sanitizeString t := by
  simp only [sanitizeString, replaceChar_append]

theorem sanitizeString_char (c : Char) : sanitizeString [c] = Xml.escapeChar c := by
  by_cases h₁ : c = '&'
  · subst h₁; decide
  by_cases h₂ : c = '>'
  · subst h₂; decide
  by_cases h₃ : c = '<'
  · subst h₃; decide
  by_cases h₄ : c = '"'
  · subst h₄; decide
  by_cases h₅ : c = '\''
  · subst h₅; decide
  simp only [sanitizeString, Xml.escapeChar, replaceChar_of_ne h₁, replaceChar_of_ne h₂,
    replaceChar_of_ne h₃, replaceChar_of_ne h₄, replaceChar_of_ne h₅, if_neg h₁, if_neg h₂,
    if_neg h₃, if_neg h₄, if_neg h₅]

/-- **`SanitizeString` escapes**: no replacement touches what an earlier one wrote. -/
theorem sanitizeString_eq (s : Text) : sanitizeString s = Xml.escape s := by
  induction s with
  | nil => rfl
  | cons c s ih =>
    rw [← List.singleton_append, sanitizeString_append, sanitizeString_char, ih]
    rfl

/-- What a datum's value reads as: the line ends of `processes_to_log` are written as commas. -/
def exportedValue (data : Data) : Text :=
  if data.key.name = KeyName.processesToLog then
    data.value.map fun c => if c = '\n' then ',' else c
  else data.value

/-- A line break becomes a comma, before or after escaping. -/
theorem replaceChar_escape (s : Text) :
    replaceChar '\n' ",".toList (Xml.escape s) =
      Xml.escape (s.map fun c => if c = '\n' then ',' else c) := by
  induction s with
  | nil => rfl
  | cons c s ih =>
    rw [Xml.escape, List.flatMap_cons, replaceChar_append, List.map_cons, Xml.escape,
      List.flatMap_cons]
    congr 1
    by_cases h : c = '\n'
    · subst h; decide
    · rw [if_neg h]
      unfold Xml.escapeChar
      split_ifs
      all_goals first | rfl | exact replaceChar_of_ne h _

/-- What is printed for a datum is its exported value, escaped. -/
theorem dataString_eq (data : Data) :
    GraphmlPrinter.dataString data = Xml.escape (exportedValue data) := by
  unfold GraphmlPrinter.dataString exportedValue
  split
  · rw [sanitizeString_eq, replaceChar_escape]
  · exact sanitizeString_eq _

theorem decimal_clean (n : Nat) : CleanValue (decimal n) := by
  intro c hc
  obtain ⟨hlo, hhi⟩ := toNat_of_mem_decimal hc
  refine ⟨?_, ?_, ?_, ?_, ?_, ?_, ?_⟩
  · have h₁ : 0x20 ≤ c.toNat := by omega
    have h₂ : c.toNat ≤ 0xD7FF := by omega
    simp [Xml.isXmlChar, h₁, h₂]
  all_goals
    rintro rfl
    revert hlo hhi
    decide

namespace GraphmlPrinter

variable {flags : ExportFlags}

/-! ## Tags -/

theorem reads_tabs (depth : Nat) : Reads (tabs depth) (contentTokens (tabs depth)) := by
  refine Reads.plain fun c hc => ?_
  obtain rfl := List.eq_of_mem_replicate hc
  decide

theorem reads_newline : Reads ['\n'] (contentTokens ['\n']) :=
  Reads.plain (by decide)

/-- What a reader reports of the line of a key. -/
def keyTokens (flags : ExportFlags) (depth : Nat) (key : Key) : List Token :=
  if exportKey flags key then
    contentTokens (tabs depth) ++
      [.startElement "key".toList [("attr.name".toList, key.name),
        ("attr.type".toList, getGraphMLTypeName key.type), ("id".toList, getKeyID flags key)],
        .endElement "key".toList] ++
      contentTokens ['\n']
  else []

/-- What a reader reports of the line of a datum. -/
def dataTokens (flags : ExportFlags) (depth : Nat) (data : Data) : List Token :=
  if exportKey flags data.key then
    contentTokens (tabs depth) ++
      .startElement "data".toList [("key".toList, getKeyID flags data.key)] ::
        (contentTokens (exportedValue data) ++ [.endElement "data".toList]) ++
      contentTokens ['\n']
  else []

/-- What a reader reports of the lines of some data. -/
def datasTokens (flags : ExportFlags) (depth : Nat) (datas : List Data) : List Token :=
  (sortedData datas).flatMap (dataTokens flags depth)

mutual

/-- What a reader reports of a node. -/
def nodeTokens (flags : ExportFlags) (depth : Nat) : Node → List Token
  | .mk id datas children =>
    contentTokens (tabs depth) ++
      .startElement "node".toList [("id".toList, decimal id)] :: contentTokens ['\n'] ++
      datasTokens flags (depth + 1) datas ++
      (if children.isEmpty then [] else
        contentTokens (tabs (depth + 1)) ++
          .startElement "graph".toList [("id".toList, 'g' :: decimal id)] ::
            contentTokens ['\n'] ++
          nodesTokens flags (depth + 2) children ++
          contentTokens (tabs (depth + 1)) ++ [.endElement "graph".toList] ++
          contentTokens ['\n']) ++
      contentTokens (tabs depth) ++ [.endElement "node".toList] ++ contentTokens ['\n']

/-- What a reader reports of some nodes. -/
def nodesTokens (flags : ExportFlags) (depth : Nat) : List Node → List Token
  | [] => []
  | n :: ns => nodeTokens flags depth n ++ nodesTokens flags depth ns

end

/-- What a reader reports of an edge. -/
def edgeTokens (flags : ExportFlags) (depth : Nat) (edge : Edge) : List Token :=
  contentTokens (tabs depth) ++
    .startElement "edge".toList [("id".toList, decimal edge.id),
      ("source".toList, decimal edge.source), ("target".toList, decimal edge.target)] ::
      contentTokens ['\n'] ++
    datasTokens flags (depth + 1) edge.datas ++
    contentTokens (tabs depth) ++ [.endElement "edge".toList] ++ contentTokens ['\n']

/-- The attributes of the root element. -/
def graphmlAttributes : Attributes :=
  [("xmlns".toList, graphmlNamespace), ("xmlns:xsi".toList, schemaNamespace),
    ("xsi:schemaLocation".toList, graphmlNamespace)]

/-- What a reader reports of an export. -/
def documentTokens (flags : ExportFlags) (model : List Edge) (selection : List Selected) :
    List Token :=
  .processingInstruction xmlVersion :: contentTokens ['\n'] ++
    .startElement "graphml".toList graphmlAttributes :: contentTokens ['\n'] ++
    (keyList model selection).flatMap (keyTokens flags 1) ++
    contentTokens "\n\t".toList ++
    .startElement "graph".toList
      [("edgedefault".toList, "directed".toList), ("id".toList, "g0".toList)] ::
      contentTokens ['\n'] ++
    nodesTokens flags 2 (topNodes selection) ++
    (edgeList flags model selection).flatMap (edgeTokens flags 2) ++
    contentTokens (tabs 1) ++ [.endElement "graph".toList] ++ contentTokens ['\n'] ++
    [.endElement "graphml".toList]

/-! ## Printed texts read as their tokens -/

/-- The name of an exported key stands for itself in a document. -/
def CleanKey (flags : ExportFlags) (key : Key) : Prop :=
  exportKey flags key = true → CleanValue key.name

/-- The value of an exported datum has characters that XML keeps. -/
def CleanData (flags : ExportFlags) (data : Data) : Prop :=
  exportKey flags data.key = true → ∀ c ∈ data.value, Xml.isXmlChar c = true ∧ c ≠ '\r'

theorem getKeyID_clean (flags : ExportFlags) {key : Key} (h : CleanValue key.name) : CleanValue (getKeyID flags key) := by
  unfold getKeyID
  split
  · exact h
  · exact decimal_clean _

theorem getGraphMLTypeName_clean (type : KeyType) : CleanValue (getGraphMLTypeName type) := by
  cases type <;> decide

/-- Attribute lists with given names. -/
theorem cleanAttributes_of {attrs : Attributes} (hnames : ∀ name ∈ attrs.map (·.1), CleanName name)
    (hnodup : (attrs.map (·.1)).Nodup) (hvalues : ∀ attr ∈ attrs, CleanValue attr.2) :
    CleanAttributes attrs where
  names _ ha := hnames _ (List.mem_map_of_mem ha)
  values := hvalues
  nodup := hnodup

/-- The line of a key is read as its tokens. -/
theorem reads_key {key : Key} (depth : Nat) (h : CleanKey flags key) :
    Reads (keyToGraphml flags depth key) (keyTokens flags depth key) := by
  unfold keyToGraphml keyTokens
  split
  · rename_i hexport
    have hname := h hexport
    have htext : tabs depth ++ "<key".toList ++ " attr.name=\"".toList ++ key.name ++ "\"".toList ++
        " attr.type=\"".toList ++ getGraphMLTypeName key.type ++ "\"".toList ++
        " id=\"".toList ++ getKeyID flags key ++ "\"/>\n".toList =
      tabs depth ++ renderTag "key".toList [("attr.name".toList, key.name),
        ("attr.type".toList, getGraphMLTypeName key.type), ("id".toList, getKeyID flags key)]
        ['/', '>'] ++ ['\n'] := by
      simp [renderTag, Xml.renderAttribute]
    rw [htext]
    refine ((reads_tabs depth).append (Reads.emptyTag (by decide) ?_)).append reads_newline
    refine cleanAttributes_of ?_ ?_ ?_
    · show ∀ name ∈ ["attr.name".toList, "attr.type".toList, "id".toList], CleanName name
      decide
    · show ["attr.name".toList, "attr.type".toList, "id".toList].Nodup
      decide
    · simp only [List.forall_mem_cons]
      exact ⟨hname, getGraphMLTypeName_clean _, getKeyID_clean flags hname, by simp⟩
  · exact Reads.nil

theorem cleanAttributes_singleton {name value : Text} (hname : CleanName name)
    (hvalue : CleanValue value) : CleanAttributes [(name, value)] :=
  cleanAttributes_of (by simpa using hname) (by simp) (by simpa using hvalue)

theorem exportedValue_clean {data : Data} (h : ∀ c ∈ data.value, Xml.isXmlChar c = true ∧ c ≠ '\r') :
    ∀ c ∈ exportedValue data, Xml.isXmlChar c = true ∧ c ≠ '\r' := by
  unfold exportedValue
  split
  · intro c hc
    obtain ⟨d, hd, rfl⟩ := List.mem_map.mp hc
    split
    · decide
    · exact h d hd
  · exact h

/-- So is the line of a datum. -/
theorem reads_data {data : Data} (depth : Nat) (hkey : CleanKey flags data.key)
    (hdata : CleanData flags data) :
    Reads (dataToGraphml flags depth data) (dataTokens flags depth data) := by
  unfold dataToGraphml dataTokens
  split
  · rename_i hexport
    have htext : tabs depth ++ "<data key=\"".toList ++ getKeyID flags data.key ++ "\">".toList ++
        dataString data ++ "</data>\n".toList =
      tabs depth ++ (renderTag "data".toList [("key".toList, getKeyID flags data.key)] ['>'] ++
        (Xml.escape (exportedValue data) ++ ('<' :: '/' :: "data".toList ++ ['>']))) ++ ['\n'] := by
      rw [dataString_eq]
      simp [renderTag, Xml.renderAttribute]
    rw [htext]
    have hattrs := cleanAttributes_singleton (by decide : CleanName "key".toList)
      (getKeyID_clean flags (hkey hexport))
    exact ((reads_tabs depth).append ((Reads.startTag (by decide) hattrs).append
      ((Reads.escape (exportedValue_clean (hdata hexport))).append
        (Reads.endTag (by decide))))).append reads_newline
  · exact Reads.nil

theorem mem_sortedData {datas : List Data} {d : Data} : d ∈ sortedData datas ↔ d ∈ datas :=
  (List.perm_insertionSort _ datas).mem_iff

/-- And all the data of an entity. -/
theorem reads_datas {datas : List Data} (depth : Nat)
    (h : ∀ d ∈ datas, CleanKey flags d.key ∧ CleanData flags d) :
    Reads (datasToGraphml flags depth datas) (datasTokens flags depth datas) := by
  refine Reads.flatMap fun d hd => ?_
  have hd := h d (mem_sortedData.mp hd)
  exact reads_data depth hd.1 hd.2

theorem tabs_succ (depth : Nat) : tabs (depth + 1) = tabs depth ++ ['\t'] := by
  simp [tabs, List.replicate_succ']

/-- A tag line: an indented tag and a line end. -/
theorem reads_line {tag : Text} {tokens : List Token} (depth : Nat) (h : Reads tag tokens) :
    Reads (tabs depth ++ tag ++ ['\n']) (contentTokens (tabs depth) ++ tokens ++
      contentTokens ['\n']) :=
  ((reads_tabs depth).append h).append reads_newline

theorem reads_idLine {name value : Text} (depth : Nat) (hname : CleanName name)
    (hvalue : CleanValue value) :
    Reads (tabs depth ++ ("<".toList ++ name ++ " id=\"".toList ++ value ++ "\">\n".toList))
      (contentTokens (tabs depth) ++ .startElement name [("id".toList, value)] ::
        contentTokens ['\n']) := by
  have h := reads_line depth (Reads.startTag hname
    (cleanAttributes_singleton (by decide : CleanName "id".toList) hvalue))
  simpa [renderTag, Xml.renderAttribute] using h

theorem reads_closeLine {name : Text} (depth : Nat) (hname : CleanName name) :
    Reads (tabs depth ++ ("</".toList ++ name ++ ">\n".toList))
      (contentTokens (tabs depth) ++ [.endElement name] ++ contentTokens ['\n']) := by
  have h := reads_line depth (Reads.endTag hname)
  simpa using h

theorem graphId_clean (id : Nat) : CleanValue ('g' :: decimal id) :=
  List.forall_mem_cons.mpr ⟨by decide, decimal_clean id⟩

mutual

theorem reads_node (depth : Nat) :
    ∀ n : Node, (∀ m ∈ n.all, ∀ d ∈ m.datas, CleanKey flags d.key ∧ CleanData flags d) →
      Reads (nodeToGraphml flags depth n) (nodeTokens flags depth n)
  | .mk id datas children, h => by
    have hopen := reads_idLine depth (by decide : CleanName "node".toList) (decimal_clean id)
    have hdatas := reads_datas (depth + 1) (h (.mk id datas children) (by simp [Node.all]))
    have hgraph := reads_idLine (depth + 1) (by decide : CleanName "graph".toList) (graphId_clean id)
    have hchildren := reads_nodes (depth + 2) children fun m hm => h m (by simp [Node.all, hm])
    have hgraph' := reads_closeLine (depth + 1) (by decide : CleanName "graph".toList)
    have hclose := reads_closeLine depth (by decide : CleanName "node".toList)
    unfold nodeToGraphml nodeTokens
    split
    · simpa using (hopen.append hdatas).append hclose
    · have hinner := (hopen.append hdatas).append (((hgraph.append hchildren).append hgraph').append
        hclose)
      simpa [tabs_succ] using hinner

/-- The same for a list of nodes. -/
theorem reads_nodes (depth : Nat) :
    ∀ ns : List Node,
      (∀ m ∈ Node.allOf ns, ∀ d ∈ m.datas, CleanKey flags d.key ∧ CleanData flags d) →
      Reads (nodesToGraphml flags depth ns) (nodesTokens flags depth ns)
  | [], _ => Reads.nil
  | n :: ns, h =>
    (reads_node depth n fun m hm => h m (by simp [Node.allOf, hm])).append
      (reads_nodes depth ns fun m hm => h m (by simp [Node.allOf, hm]))

end

/-- The lines of an edge are read as its tokens. -/
theorem reads_edge {edge : Edge} (depth : Nat)
    (h : ∀ d ∈ edge.datas, CleanKey flags d.key ∧ CleanData flags d) :
    Reads (edgeToGraphml flags depth edge) (edgeTokens flags depth edge) := by
  have hattrs : CleanAttributes [("id".toList, decimal edge.id),
      ("source".toList, decimal edge.source), ("target".toList, decimal edge.target)] := by
    refine cleanAttributes_of ?_ ?_ ?_
    · show ∀ name ∈ ["id".toList, "source".toList, "target".toList], CleanName name
      decide
    · show ["id".toList, "source".toList, "target".toList].Nodup
      decide
    · simp only [List.forall_mem_cons]
      exact ⟨decimal_clean _, decimal_clean _, decimal_clean _, by simp⟩
  have hopen := reads_line depth (Reads.startTag (by decide : CleanName "edge".toList) hattrs)
  have hdatas := reads_datas (depth + 1) h
  have hclose := reads_closeLine depth (by decide : CleanName "edge".toList)
  unfold edgeToGraphml edgeTokens
  simpa [renderTag, Xml.renderAttribute] using (hopen.append hdatas).append hclose

/-- The keys of a selection, and the data of what is written, have a text of their own. -/
structure CleanSelection (flags : ExportFlags) (model : List Edge) (selection : List Selected) :
    Prop where
  keys : ∀ k ∈ collectKeys model selection, CleanKey flags k
  nodes : ∀ n ∈ allNodes selection, ∀ d ∈ n.datas, CleanData flags d
  edges : ∀ e ∈ collectEdges model selection, ∀ d ∈ e.datas, CleanData flags d

variable {model : List Edge} {selection : List Selected}

/-- Every key of an exported node is declared. -/
theorem key_mem_of_node (model : List Edge) {n : Node} {d : Data} (hn : n ∈ allNodes selection) (hd : d ∈ n.datas) :
    d.key ∈ collectKeys model selection :=
  List.mem_dedup.mpr (List.mem_append_left _
    (List.mem_flatMap.mpr ⟨n, hn, List.mem_map_of_mem hd⟩))

/-- So is every key of an exported edge. -/
theorem key_mem_of_edge {e : Edge} {d : Data} (he : e ∈ collectEdges model selection)
    (hd : d ∈ e.datas) : d.key ∈ collectKeys model selection :=
  List.mem_dedup.mpr (List.mem_append_right _
    (List.mem_flatMap.mpr ⟨e, he, List.mem_map_of_mem hd⟩))

theorem mem_keyList {k : Key} : k ∈ keyList model selection ↔ k ∈ collectKeys model selection :=
  (List.perm_insertionSort _ _).mem_iff

theorem mem_edgeList {e : Edge} : e ∈ edgeList flags model selection ↔
    e ∈ collectEdges model selection ∧ exportEdge flags selection e = true := by
  rw [edgeList, List.mem_filter, (List.perm_insertionSort _ _).mem_iff]

theorem reads_xmlDeclaration :
    Reads xmlDeclaration (.processingInstruction xmlVersion :: contentTokens ['\n']) := by
  have h := (Reads.processingInstruction (by decide : '?' ∉ xmlVersion)).append reads_newline
  simpa [xmlDeclaration] using h

theorem reads_graphmlTag : Reads graphmlTag
    (.startElement "graphml".toList graphmlAttributes :: contentTokens ['\n']) := by
  have hattrs : CleanAttributes graphmlAttributes := by
    refine cleanAttributes_of ?_ ?_ ?_
    · show ∀ name ∈ ["xmlns".toList, "xmlns:xsi".toList, "xsi:schemaLocation".toList],
        CleanName name
      decide
    · show ["xmlns".toList, "xmlns:xsi".toList, "xsi:schemaLocation".toList].Nodup
      decide
    · show ∀ attr ∈ graphmlAttributes, CleanValue attr.2
      decide
  have htext : graphmlTag = renderTag "graphml".toList graphmlAttributes ['>'] ++ ['\n'] := rfl
  rw [htext]
  exact (Reads.startTag (by decide) hattrs).append reads_newline

/-- **A printed document reads as its tokens.** -/
theorem reads_toGraphml (h : CleanSelection flags model selection) :
    Reads (toGraphml flags model selection) (documentTokens flags model selection) := by
  have hkeys : Reads ((keyList model selection).flatMap (keyToGraphml flags 1))
      ((keyList model selection).flatMap (keyTokens flags 1)) :=
    Reads.flatMap fun k hk => reads_key 1 (h.keys k (mem_keyList.mp hk))
  have hgraph : Reads "\n\t<graph edgedefault=\"directed\" id=\"g0\">\n".toList
      (contentTokens "\n\t".toList ++ .startElement "graph".toList
        [("edgedefault".toList, "directed".toList), ("id".toList, "g0".toList)] ::
          contentTokens ['\n']) := by
    have hattrs : CleanAttributes
        [("edgedefault".toList, "directed".toList), ("id".toList, "g0".toList)] :=
      cleanAttributes_of (by decide) (by decide) (by decide)
    exact ((Reads.plain (by decide : ∀ c ∈ "\n\t".toList, Xml.isPlain c)).append
      (Reads.startTag (by decide : CleanName "graph".toList) hattrs)).append reads_newline
  have hnodes := reads_nodes 2 (topNodes selection) fun n hn d hd =>
    ⟨h.keys d.key (key_mem_of_node model hn hd), h.nodes n hn d hd⟩
  have hedges : Reads ((edgeList flags model selection).flatMap (edgeToGraphml flags 2))
      ((edgeList flags model selection).flatMap (edgeTokens flags 2)) :=
    Reads.flatMap fun e he => reads_edge 2 fun d hd =>
      ⟨h.keys d.key (key_mem_of_edge (mem_edgeList.mp he).1 hd), h.edges e (mem_edgeList.mp he).1 d hd⟩
  have hclose := (reads_closeLine 1 (by decide : CleanName "graph".toList)).append
    (Reads.endTag (by decide : CleanName "graphml".toList))
  have hall := ((((((reads_xmlDeclaration.append reads_graphmlTag).append hkeys).append
    hgraph).append hnodes).append hedges).append hclose)
  have htext : "\t</graph>\n".toList ++ "</graphml>".toList =
      tabs 1 ++ ("</".toList ++ "graph".toList ++ ">\n".toList) ++
        ('<' :: '/' :: "graphml".toList ++ ['>']) := rfl
  rw [toGraphml, List.append_assoc, htext]
  simpa only [documentTokens, List.append_assoc, List.cons_append, List.nil_append] using hall

/-! ## Printed tags match -/

open Xml (WellNested wellNested_flatMap)

variable {opened : List Text} {rest : List Token}

@[simp] theorem wellNested_content (cs : Text) :
    WellNested (fun _ => false) opened (contentTokens cs ++ rest) ↔
      WellNested (fun _ => false) opened rest :=
  Xml.wellNested_of_not_isTag fun t ht => by
    obtain ⟨c, -, rfl⟩ := List.mem_map.mp ht
    rfl

@[simp] theorem wellNested_key (depth : Nat) (key : Key) :
    WellNested (fun _ => false) opened (keyTokens flags depth key ++ rest) ↔
      WellNested (fun _ => false) opened rest := by
  unfold keyTokens
  split <;> simp

@[simp] theorem wellNested_data (depth : Nat) (data : Data) :
    WellNested (fun _ => false) opened (dataTokens flags depth data ++ rest) ↔
      WellNested (fun _ => false) opened rest := by
  unfold dataTokens
  split <;> simp

@[simp] theorem wellNested_datas (depth : Nat) (datas : List Data) :
    WellNested (fun _ => false) opened (datasTokens flags depth datas ++ rest) ↔
      WellNested (fun _ => false) opened rest :=
  wellNested_flatMap fun d _ _ => wellNested_data depth d

mutual

theorem wellNested_node (depth : Nat) : ∀ (n : Node) (opened : List Text) (rest : List Token),
    WellNested (fun _ => false) opened (nodeTokens flags depth n ++ rest) ↔
      WellNested (fun _ => false) opened rest
  | .mk id datas children, opened, rest => by
    unfold nodeTokens
    split <;> simp [wellNested_nodes (depth + 2) children]

theorem wellNested_nodes (depth : Nat) : ∀ (ns : List Node) (opened : List Text) (rest : List Token),
    WellNested (fun _ => false) opened (nodesTokens flags depth ns ++ rest) ↔
      WellNested (fun _ => false) opened rest
  | [], _, _ => Iff.rfl
  | n :: ns, opened, rest => by
    rw [nodesTokens, List.append_assoc, wellNested_node depth n, wellNested_nodes depth ns]

end

theorem wellNested_edge (depth : Nat) (edge : Edge) :
    WellNested (fun _ => false) opened (edgeTokens flags depth edge ++ rest) ↔
      WellNested (fun _ => false) opened rest := by
  simp [edgeTokens]

/-- **The tags of a printed document match.** -/
theorem wellNested_documentTokens :
    WellNested (fun _ => false) [] (documentTokens flags model selection) := by
  have hkeys : ∀ opened rest, WellNested (fun _ => false) opened
      ((keyList model selection).flatMap (keyTokens flags 1) ++ rest) ↔
        WellNested (fun _ => false) opened rest :=
    fun _ _ => wellNested_flatMap fun k _ _ => wellNested_key 1 k
  have hedges : ∀ opened rest, WellNested (fun _ => false) opened
      ((edgeList flags model selection).flatMap (edgeTokens flags 2) ++ rest) ↔
        WellNested (fun _ => false) opened rest :=
    fun _ _ => wellNested_flatMap fun e _ _ => wellNested_edge 2 e
  simp only [documentTokens, List.append_assoc, List.cons_append, List.nil_append,
    Xml.wellNested_processingInstruction, wellNested_content, Xml.wellNested_startElement, Xml.wellNested_endElement, hkeys, hedges,
    wellNested_nodes]
  rfl

end GraphmlPrinter

end Sem.Medea
