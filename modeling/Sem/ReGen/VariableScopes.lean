import Sem.Lib.Fuel
import Sem.ReGen.NodeIdentity

/-!
# Variables with the same name in a scope (`cdit:test_variables`)

The scope of a variable is what lies strictly between it and its component, so the variables of the
component itself are in no scope.

* `testVariable_iff`: a variable is reported exactly for the clashes that there are, unless the only
  one is with a variable of the component itself.
* `not_clashes_of_parentKind`: a variable deeper down has no such clash.
* `exists_testVariable`: the test comes to an end where every node has an index.
-/

namespace Sem.ReGen.Gml

open Xml (Text)

namespace Document

variable (lc : LowerCase) (doc : Document)

/-! ## Names of variables -/

/-- `graphml:get_parent_kind`. -/
def getParentKind (entity : ℕ) : Text := ((doc.getParentNode entity).map doc.getKind).getD []

/-- The kinds of an entity and of what it is in. -/
def ancestorKinds (node : ℕ) : List Text :=
  doc.getKind node :: (doc.getAncestorNodes node).map doc.getKind

/-- The letter that tells where a variable is. -/
def scopeLetter (node : ℕ) : Text :=
  if doc.getParentKind node = lit "Class" ∨ doc.getParentKind node = lit "ComponentImpl" then
    lit "g"
  else if lit "InputParameterGroup" ∈ doc.ancestorKinds node ∨
    lit "InputParameterGroupInstance" ∈ doc.ancestorKinds node then lit "p"
  else if doc.getKind node = lit "AggregateInstance" ∧
    doc.getParentKind node = lit "SubscriberPortImpl" then lit "p"
  else lit "m"

/-- `cdit:get_variable_label`: a suffix where the scope has no name of its own. -/
def getVariableLabel (label : Text) (node : ℕ) : Text :=
  let idSuffix :=
    if lit "InputParameterGroupInstance" ∈ doc.ancestorKinds node ∧
      lit "CallbackFunctionInstance" ∈ doc.ancestorKinds node then []
    else if lit "InputParameterGroupInstance" ∈ doc.ancestorKinds node ∨
      lit "PublisherPortImpl" ∈ doc.ancestorKinds node ∨
      lit "RequesterPortImpl" ∈ doc.ancestorKinds node ∨
      lit "ReturnParameterGroupInstance" ∈ doc.ancestorKinds node ∨
      doc.getKind node = lit "Setter" ∨ doc.getKind node = lit "BooleanExpression" then
      doc.getId node
    else []
  joinList [doc.scopeLetter node, label.map fun c => if c = ' ' then '_' else c, idSuffix] '_'

/-- The name of the variable of an entity, which some have not. A call is named after the parent of
the function, so the parents are followed to a depth. -/
def getVariableName : ℕ → ℕ → Option (Option Text)
  | 0, _ => none
  | depth + 1, entity =>
    let kind := doc.getKind entity
    if kind = lit "FunctionCall" then
      (doc.getTargets entity (lit "Edge_Definition")).head?.bind fun functionDef =>
        (doc.getParentNode functionDef).bind fun functionDefParent =>
          if doc.isDescendantOf entity functionDefParent then some none
          else getVariableName depth functionDefParent
    else if kind = lit "VoidType" then some none
    else if kind = lit "Setter" ∨ kind = lit "BooleanExpression" then
      some (some (doc.getVariableLabel (lc.lower kind) entity))
    else some (some (doc.getVariableLabel (lc.lower (doc.getLabel entity)) entity))

/-! ## The test -/

/-- The result of `cdit:test_variables` for a variable of a component. -/
def testVariable (depth component variable_ : ℕ) : Option Result := do
  let label ← doc.getVariableName lc depth variable_
  let inScope ← doc.getChildNodesOfKind (doc.getAncestorNodesUntil variable_ component)
    [lit "Variable"]
  let labels ← (inScope.filter (· ≠ variable_)).mapM (doc.getVariableName lc depth)
  let duplicateCount := labels.countP fun l => label.isSome ∧ l = label
  some ⟨doc.getId variable_, duplicateCount = 0, joinList [lit "Variable with generated label",
    wrapQuote (label.getD []), lit "is not unique with scope"] ' ', false⟩

/-- `cdit:test_requires_children`, for one entity. -/
def testRequiresChildren (entity : ℕ) : Option Result :=
  (doc.getChildNodes [entity]).map fun children =>
    ⟨doc.getId entity, 0 < children.length, joinList [doc.getKind entity,
      wrapQuote (doc.getLabel entity), lit "requires at least one child entity"] ' ', false⟩

/-- `cdit:test_variables`, or an error. -/
def testVariables (depth : ℕ) (components : List ℕ) : Option (List Result) := do
  let children ← (doc.getDescendantNodesOfKind components [lit "Variable"]).mapM
    doc.testRequiresChildren
  let results ← components.mapM fun component =>
    (doc.getDescendantNodesOfKind [component] [lit "Variable"]).mapM
      (doc.testVariable lc depth component)
  some (children ++ results.flatten)

/-! ## Clashes -/

/-- Two variables have one name in the generated code. -/
def SameName (depth v w : ℕ) : Prop :=
  ∃ name, doc.getVariableName lc depth v = some (some name) ∧
    doc.getVariableName lc depth w = some (some name)

/-- Another variable that is a child of the container has the name of this one. -/
def Clashes (depth v container : ℕ) : Prop :=
  ∃ w, w ≠ v ∧ doc.isNode w = true ∧ doc.hasKind [lit "Variable"] w = true ∧
    doc.getParentNode w = some container ∧ doc.SameName lc depth v w

/-- There is a clash in a container of the variable, up to the component itself. -/
def ClashesWithin (depth component v : ℕ) : Prop :=
  ∃ container ∈ component :: doc.ancestorsBetween v component, doc.Clashes lc depth v container

variable {lc doc} {depth component i v w : ℕ} {r : Result} {kinds : List Text}

/-- Data of a kind is text of its own. -/
theorem ownText_of_hasKind (hkinds : [] ∉ kinds) (h : doc.hasKind kinds i = true) :
    doc.OwnText i := by
  rw [hasKind, Bool.not_eq_true', List.isEmpty_eq_false_iff_exists_mem] at h
  obtain ⟨d, hd⟩ := h
  obtain ⟨hdata, p, hp, hparent⟩ := XPath.Document.mem_childStep.mp hd
  obtain rfl := List.mem_singleton.mp hp
  rw [isDataOfKind, Bool.and_eq_true, Bool.and_eq_true, List.any_eq_true] at hdata
  obtain ⟨⟨hname, -⟩, t, ht, htext⟩ := hdata
  obtain ⟨hist, q, hq, htd⟩ := XPath.Document.mem_childStep.mp ht
  obtain rfl := List.mem_singleton.mp hq
  have hqp : p ∈ doc.ancestors q := XPath.Document.mem_ancestors_of_parent hparent (.inl rfl)
  refine ⟨t, XPath.Document.mem_ancestors_of_parent htd (.inr hqp), ?_, fun e he => ?_⟩
  · rintro hnil
    exact hkinds (hnil ▸ of_decide_eq_true htext)
  · obtain ⟨hnode, hin⟩ := mem_getDescendantNodes.mp he
    have hlt := XPath.Document.lt_of_mem_ancestors hin
    constructor
    · rintro rfl
      unfold isNode XPath.Document.isElement at hnode
      unfold XPath.Document.isText at hist
      split at hnode <;> simp_all
    · intro hanc
      rcases XPath.Document.eq_or_mem_ancestors_of_parent htd hanc with rfl | hanc
      · exact absurd (name_eq hnode hname) (by decide)
      rcases XPath.Document.eq_or_mem_ancestors_of_parent hparent hanc with rfl | hanc
      · exact Nat.lt_irrefl _ hlt
      · exact Nat.lt_asymm hlt (XPath.Document.lt_of_mem_ancestors hanc)

/-- A variable is reported for a clash strictly inside the component. -/
theorem result_eq_false_iff (h : doc.testVariable lc depth component v = some r) :
    r.result = false ↔
      ∃ c ∈ doc.getAncestorNodesUntil v component, doc.Clashes lc depth v c := by
  obtain ⟨label, hlabel, h⟩ := Option.bind_eq_some_iff.mp h
  obtain ⟨inScope, hscope, h⟩ := Option.bind_eq_some_iff.mp h
  obtain ⟨labels, hlabels, h⟩ := Option.bind_eq_some_iff.mp h
  have hcontainers : ∀ c ∈ doc.getAncestorNodesUntil v component, doc.isNode c = true :=
    fun c hc => isNode_of_mem_getAncestorNodes (List.mem_of_mem_filter hc)
  have hmem : ∀ w, w ∈ inScope.filter (· ≠ v) ↔ w ≠ v ∧ doc.hasKind [lit "Variable"] w = true ∧
      doc.isNode w = true ∧
      ∃ c ∈ doc.getAncestorNodesUntil v component, doc.getParentNode w = some c := by
    intro w
    rw [List.mem_filter, mem_getChildNodesOfKind hscope, mem_childrenOf_iff hcontainers,
      decide_eq_true_iff]
    tauto
  rw [← Option.some.inj h, decide_eq_false_iff_not, List.countP_eq_zero]
  push Not
  constructor
  · rintro ⟨l, hl, heq⟩
    obtain ⟨hsome, rfl⟩ := of_decide_eq_true heq
    obtain ⟨name, rfl⟩ := Option.isSome_iff_exists.mp hsome
    obtain ⟨w, hw, hname⟩ := exists_source_of_mapM hlabels hl
    obtain ⟨hne, hkind, hnode, c, hc, hparent⟩ := (hmem w).mp hw
    exact ⟨c, hc, w, hne, hnode, hkind, hparent, name, hlabel, hname⟩
  · rintro ⟨c, hc, w, hne, hnode, hkind, hparent, name, hv, hw⟩
    obtain ⟨l, hl, hwl⟩ :=
      exists_image_of_mapM hlabels ((hmem w).mpr ⟨hne, hkind, hnode, c, hc, hparent⟩)
    obtain rfl := Option.some.inj (hlabel.symm.trans hv)
    exact ⟨l, hl, decide_eq_true ⟨rfl, Option.some.inj (hwl.symm.trans hw)⟩⟩

/-! ## Names of variables of a component -/

theorem mem_valueOf {c : Char} {s : Text} {texts : List Text} (hc : c ∈ s) (hs : s ∈ texts) :
    c ∈ valueOf texts := by
  induction texts with
  | nil => cases hs
  | cons t texts ih =>
    rw [valueOf] at ih ⊢
    cases texts with
    | nil =>
      obtain rfl := List.mem_singleton.mp hs
      simpa using hc
    | cons t' texts =>
      rw [List.intercalate_cons_cons, List.append_assoc, List.mem_append]
      rcases List.mem_cons.mp hs with rfl | hs
      · exact .inl hc
      · exact .inr (List.mem_append_right _ (ih hs))

/-- The kind of a variable is no other kind that names are made for. -/
theorem mem_getKind_of_hasKind (h : doc.hasKind [lit "Variable"] v = true) :
    'b' ∈ doc.getKind v := by
  rw [hasKind, Bool.not_eq_true', List.isEmpty_eq_false_iff_exists_mem] at h
  obtain ⟨d, hd⟩ := h
  obtain ⟨hdata, hin⟩ := XPath.Document.mem_childStep.mp hd
  rw [isDataOfKind, Bool.and_eq_true, List.any_eq_true] at hdata
  obtain ⟨hname, t, ht, htext⟩ := hdata
  have htext : doc.textOf t = lit "Variable" := List.mem_singleton.mp (of_decide_eq_true htext)
  obtain ⟨hist, q, hq, htd⟩ := XPath.Document.mem_childStep.mp ht
  obtain rfl := List.mem_singleton.mp hq
  have hstep : q ∈ doc.dataStep [v] (lit "kind") := XPath.Document.mem_childStep.mpr ⟨hname, hin⟩
  have htexts : t ∈ doc.childStep (doc.dataStep [v] (lit "kind")) doc.isText :=
    XPath.Document.mem_childStep.mpr ⟨hist, q, hstep, htd⟩
  have hb : 'b' ∈ doc.textOf t := by
    rw [htext]
    decide
  exact mem_valueOf hb (List.mem_map_of_mem htexts)

theorem getVariableName_of_hasKind (h : doc.hasKind [lit "Variable"] v = true) :
    doc.getVariableName lc (depth + 1) v =
      some (some (doc.getVariableLabel (lc.lower (doc.getLabel v)) v)) := by
  have hb := mem_getKind_of_hasKind h
  have hne : ∀ kind : Text, 'b' ∉ kind → doc.getKind v ≠ kind := fun kind hkind heq =>
    hkind (heq ▸ hb)
  rw [getVariableName]
  simp only [hne (lit "FunctionCall") (by decide), hne (lit "VoidType") (by decide),
    hne (lit "Setter") (by decide), hne (lit "BooleanExpression") (by decide), or_self, if_false]

theorem scopeLetter_eq (v : ℕ) : doc.scopeLetter v = lit "g" ∧
      (doc.getParentKind v = lit "Class" ∨ doc.getParentKind v = lit "ComponentImpl") ∨
    doc.scopeLetter v = lit "p" ∨ doc.scopeLetter v = lit "m" := by
  rw [scopeLetter]
  split_ifs with hg
  · exact .inl ⟨rfl, hg⟩
  · exact .inr (.inl rfl)
  · exact .inr (.inl rfl)
  · exact .inr (.inr rfl)

theorem head?_getVariableLabel (label : Text) :
    (doc.getVariableLabel label v).head? = (doc.scopeLetter v).head? := by
  obtain ⟨c, hc⟩ : ∃ c, doc.scopeLetter v = [c] := by
    rcases doc.scopeLetter_eq v with ⟨h, -⟩ | h | h <;> exact ⟨_, h⟩
  rw [getVariableLabel, hc]
  generalize label.map _ = l
  unfold joinList trimList
  rw [List.filter_cons_of_pos (by simp)]
  cases List.filter _ _ <;> simp [List.intercalate_cons_cons]

/-- The variables of a class or component have names of their own, with another first letter. -/
theorem not_clashes_of_parentKind (hcomponent :
      doc.getKind component = lit "Class" ∨ doc.getKind component = lit "ComponentImpl")
    (hv : doc.hasKind [lit "Variable"] v = true) (hclass : doc.getParentKind v ≠ lit "Class")
    (himpl : doc.getParentKind v ≠ lit "ComponentImpl") : ¬ doc.Clashes lc depth v component := by
  rintro ⟨w, -, -, hw, hparent, name, hvname, hwname⟩
  cases depth with
  | zero => cases hvname
  | succ depth =>
    rw [getVariableName_of_hasKind hv] at hvname
    rw [getVariableName_of_hasKind hw] at hwname
    have hsame := (Option.some.inj hvname).trans (Option.some.inj hwname).symm
    have hhead : (doc.scopeLetter v).head? = (doc.scopeLetter w).head? := by
      rw [← head?_getVariableLabel, Option.some.inj hsame, head?_getVariableLabel]
    have hg : doc.scopeLetter w = lit "g" := by
      rw [scopeLetter, if_pos]
      simpa [getParentKind, hparent] using hcomponent
    rcases doc.scopeLetter_eq v with ⟨-, h | h⟩ | h | h
    · exact hclass h
    · exact himpl h
    · rw [h, hg] at hhead
      exact absurd hhead (by decide)
    · rw [h, hg] at hhead
      exact absurd hhead (by decide)

/-- Where every node has an index, the test of a variable comes to an end. -/
theorem exists_testVariable (hindex : ∀ i, doc.isNode i = true → (doc.getIndex i).isSome)
    (hv : doc.hasKind [lit "Variable"] v = true) (component : ℕ) :
    ∃ r, doc.testVariable lc (depth + 1) component v = some r := by
  have hall : (doc.childrenOf (doc.getAncestorNodesUntil v component)).all
      (fun i => (doc.getIndex i).isSome) = true :=
    List.all_eq_true.mpr fun i hi => hindex i (XPath.Document.mem_childStep.mp hi).1
  obtain ⟨labels, hlabels⟩ : ∃ labels, (((doc.childrenOf
      (doc.getAncestorNodesUntil v component)).filter (doc.hasKind [lit "Variable"])).filter
      (· ≠ v)).mapM (doc.getVariableName lc (depth + 1)) = some labels :=
    exists_mapM_of_forall fun w hw => ⟨_, getVariableName_of_hasKind
      (List.mem_filter.mp (List.mem_of_mem_filter hw)).2⟩
  refine ⟨_, Option.bind_eq_some_iff.mpr ⟨_, getVariableName_of_hasKind hv,
    Option.bind_eq_some_iff.mpr ⟨_, ?_, Option.bind_eq_some_iff.mpr ⟨labels, hlabels, rfl⟩⟩⟩⟩
  rw [getChildNodesOfKind_eq, if_pos hall]

/-- The result of each variable is among those of the test. -/
theorem mem_testVariables {components : List ℕ} {results : List Result}
    (h : doc.testVariables lc depth components = some results) (hcomponent : component ∈ components)
    (hv : v ∈ doc.getDescendantNodesOfKind [component] [lit "Variable"]) :
    ∃ r ∈ results, doc.testVariable lc depth component v = some r := by
  obtain ⟨children, -, h⟩ := Option.bind_eq_some_iff.mp h
  obtain ⟨lists, hlists, h⟩ := Option.bind_eq_some_iff.mp h
  obtain ⟨list, hlist, hresults⟩ := exists_image_of_mapM hlists hcomponent
  obtain ⟨r, hr, hresult⟩ := exists_image_of_mapM hresults hv
  rw [← Option.some.inj h]
  exact ⟨r, List.mem_append_right _ (List.mem_flatten_of_mem hlist hr), hresult⟩

/-! ## Reports -/

/-- The report of a variable is right exactly where a clash with a variable of the component itself
comes with one further inside. -/
theorem testVariable_iff (hnode : doc.isNode component = true)
    (hcomponent : doc.hasKind [lit "ComponentImpl", lit "Class"] component = true)
    (hv : v ∈ doc.getDescendantNodesOfKind [component] [lit "Variable"])
    (h : doc.testVariable lc depth component v = some r) :
    (r.result = false ↔ doc.ClashesWithin lc depth component v) ↔
      (doc.Clashes lc depth v component →
        ∃ c ∈ doc.ancestorsBetween v component, doc.Clashes lc depth v c) := by
  have hdescendant := ((mem_filterKind_iff fun i hi =>
    isNode_lt_length (mem_getDescendantNodes.mp hi).1).mp hv).1
  obtain ⟨hvnode, hin⟩ := mem_getDescendantNodes.mp hdescendant
  have htop := mem_getAncestorNodes_of_isNode hvnode hnode hin
  rw [result_eq_false_iff h,
    getAncestorNodesUntil_eq_of_ownText htop (ownText_of_hasKind (by decide) hcomponent),
    ClashesWithin]
  simp only [List.mem_cons, exists_eq_or_imp]
  tauto

end Document

/-! ## Two variables of a component -/

/-- A component with two variables of the same label, in upper and in lower case. -/
def twoVariables : Document where
  nodes := [
    ⟨none, .element .graphml []⟩,
    ⟨some 0, .element .key [(.id, lit "d0"), (.attrName, lit "kind")]⟩,
    ⟨some 0, .element .key [(.id, lit "d1"), (.attrName, lit "index")]⟩,
    ⟨some 0, .element .key [(.id, lit "d2"), (.attrName, lit "label")]⟩,
    ⟨some 0, .element .graph []⟩,
    ⟨some 4, .element .node [(.id, lit "n0")]⟩,
    ⟨some 5, .element .data [(.key, lit "d0")]⟩,
    ⟨some 6, .text (lit "ComponentImpl")⟩,
    ⟨some 5, .element .graph []⟩,
    ⟨some 8, .element .node [(.id, lit "n1")]⟩,
    ⟨some 9, .element .data [(.key, lit "d0")]⟩,
    ⟨some 10, .text (lit "Variable")⟩,
    ⟨some 9, .element .data [(.key, lit "d1")]⟩,
    ⟨some 12, .text (lit "0")⟩,
    ⟨some 9, .element .data [(.key, lit "d2")]⟩,
    ⟨some 14, .text (lit "X")⟩,
    ⟨some 8, .element .node [(.id, lit "n2")]⟩,
    ⟨some 16, .element .data [(.key, lit "d0")]⟩,
    ⟨some 17, .text (lit "Variable")⟩,
    ⟨some 16, .element .data [(.key, lit "d1")]⟩,
    ⟨some 19, .text (lit "1")⟩,
    ⟨some 16, .element .data [(.key, lit "d2")]⟩,
    ⟨some 21, .text (lit "x")⟩]
  parent_lt := by decide
  ids_nodup := by decide
  nodes_nested := by decide

/-- A loop with a variable, and in it a loop with a variable of the same label in lower case. -/
def nestedVariables : Document where
  nodes := [
    ⟨none, .element .graphml []⟩,
    ⟨some 0, .element .key [(.id, lit "d0"), (.attrName, lit "kind")]⟩,
    ⟨some 0, .element .key [(.id, lit "d1"), (.attrName, lit "index")]⟩,
    ⟨some 0, .element .key [(.id, lit "d2"), (.attrName, lit "label")]⟩,
    ⟨some 0, .element .graph []⟩,
    ⟨some 4, .element .node [(.id, lit "n0")]⟩,
    ⟨some 5, .element .data [(.key, lit "d0")]⟩,
    ⟨some 6, .text (lit "ComponentImpl")⟩,
    ⟨some 5, .element .graph []⟩,
    ⟨some 8, .element .node [(.id, lit "n1")]⟩,
    ⟨some 9, .element .data [(.key, lit "d0")]⟩,
    ⟨some 10, .text (lit "WhileLoop")⟩,
    ⟨some 9, .element .data [(.key, lit "d1")]⟩,
    ⟨some 12, .text (lit "0")⟩,
    ⟨some 9, .element .graph []⟩,
    ⟨some 14, .element .node [(.id, lit "n2")]⟩,
    ⟨some 15, .element .data [(.key, lit "d0")]⟩,
    ⟨some 16, .text (lit "Variable")⟩,
    ⟨some 15, .element .data [(.key, lit "d1")]⟩,
    ⟨some 18, .text (lit "0")⟩,
    ⟨some 15, .element .data [(.key, lit "d2")]⟩,
    ⟨some 20, .text (lit "X")⟩,
    ⟨some 14, .element .node [(.id, lit "n3")]⟩,
    ⟨some 22, .element .data [(.key, lit "d0")]⟩,
    ⟨some 23, .text (lit "ForLoop")⟩,
    ⟨some 22, .element .data [(.key, lit "d1")]⟩,
    ⟨some 25, .text (lit "1")⟩,
    ⟨some 22, .element .graph []⟩,
    ⟨some 27, .element .node [(.id, lit "n4")]⟩,
    ⟨some 28, .element .data [(.key, lit "d0")]⟩,
    ⟨some 29, .text (lit "Variable")⟩,
    ⟨some 28, .element .data [(.key, lit "d1")]⟩,
    ⟨some 31, .text (lit "0")⟩,
    ⟨some 28, .element .data [(.key, lit "d2")]⟩,
    ⟨some 33, .text (lit "x")⟩]
  parent_lt := by decide +kernel
  ids_nodup := by decide +kernel
  nodes_nested := by decide +kernel

/-- The inner variable is reported for the one around it, and that one is not reported. -/
theorem testVariable_iff_nestedVariables :
    (∃ r, nestedVariables.testVariable asciiLower 1 5 28 = some r ∧ r.result = false ∧
      nestedVariables.ClashesWithin asciiLower 1 5 28) ∧
    ∃ r, nestedVariables.testVariable asciiLower 1 5 15 = some r ∧ r.result = true ∧
      ¬ nestedVariables.ClashesWithin asciiLower 1 5 15 := by
  have hinner : nestedVariables.testVariable asciiLower 1 5 28 = some ⟨lit "n4", false,
      lit "Variable with generated label 'm_x' is not unique with scope", false⟩ := by
    decide +kernel
  have houter : nestedVariables.testVariable asciiLower 1 5 15 = some ⟨lit "n2", true,
      lit "Variable with generated label 'm_x' is not unique with scope", false⟩ := by
    decide +kernel
  have hclash : nestedVariables.Clashes asciiLower 1 28 9 :=
    ⟨15, by decide, by decide +kernel, by decide +kernel, by decide +kernel, lit "m_x",
      by decide +kernel, by decide +kernel⟩
  refine ⟨⟨_, hinner, rfl, ?_⟩, _, houter, rfl, fun hwithin => ?_⟩
  · exact ((Document.testVariable_iff (by decide +kernel) (by decide +kernel)
      (by decide +kernel) hinner).mpr fun _ => ⟨9, by decide +kernel, hclash⟩).mp rfl
  · have hfalse := ((Document.testVariable_iff (by decide +kernel) (by decide +kernel)
      (by decide +kernel) houter).mpr fun hclashes => absurd hclashes
        (Document.not_clashes_of_parentKind (.inr (by decide +kernel)) (by decide +kernel)
          (by decide +kernel) (by decide +kernel))).mpr hwithin
    cases hfalse

theorem not_testVariable : ¬ ∀ (lc : LowerCase) (doc : Document) (depth component v : ℕ)
    (r : Result), doc.isNode component = true →
      doc.hasKind [lit "ComponentImpl", lit "Class"] component = true →
      v ∈ doc.getDescendantNodesOfKind [component] [lit "Variable"] →
      doc.testVariable lc depth component v = some r →
      (r.result = false ↔ doc.ClashesWithin lc depth component v) := by
  intro h
  have hreport := h asciiLower twoVariables 1 5 9 _ (by decide) (by decide) (by decide) rfl
  refine absurd (hreport.mpr ⟨5, List.mem_cons_self, 16, by decide, by decide, by decide, by decide,
    lit "g_x", by decide, by decide⟩) ?_
  decide

end Sem.ReGen.Gml
