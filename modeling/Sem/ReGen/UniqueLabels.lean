import Sem.Lib.Decimal
import Sem.Lib.Substrings
import Sem.Lib.XPathRegexSyntax
import Sem.ReGen.GmlFunctions

/-!
# Uniqueness by regular expressions (`o:string_in_list_count`)

Texts of a list that are equal to another one are counted by a pattern that is made of it, for which
`o:escape_regex` puts a backslash before some characters.

* `escapeRegex_eq`: the replacements, one after the other, do not get into each other's way.
* `countsEqual_of_plain`: the count is right for texts without the characters that are left out.
* `plain_of_countsEqual`: without backslashes it is right for no other text.
* `Document.testUniqueLabels_of_plain`: the validator reports exactly the labels that come twice.
-/

namespace Sem.ReGen.Gml

open Lib (replaceChar)
open Xml (Text)
open XPath (CharTable)
open XPath.Syntax (sameText escapeChar IsPlain metacharacters Escaped IsEscapes)

/-- `o:escape_regex`. With the flag `q` of `fn:replace` no character of the pattern or of the
replacement has a meaning of its own. -/
def escapeRegex (str : Text) : Text :=
  let a := replaceChar '$' (lit "\\$") str
  let b := replaceChar '^' (lit "\\^") a
  let c := replaceChar '.' (lit "\\.") b
  let d := replaceChar '(' (lit "\\(") c
  replaceChar ')' (lit "\\)") d

/-- `o:string_in_list_count`, or an error. -/
def countInList (u : CharTable) (str : Text) (stringList : List Text) (caseInsensitive : Bool) :
    Option ℕ :=
  let escapedStr := '^' :: (escapeRegex str ++ ['$'])
  (stringList.mapM fun s => XPath.Syntax.matches u caseInsensitive s escapedStr).map (·.count true)

/-- The characters before which `o:escape_regex` puts a backslash. -/
def escapedCharacters : Text := lit "$^.()"

/-- The characters with a meaning of their own before which it puts none. -/
def unescapedCharacters : Text := lit "\\?*+\x7b\x7d[]|"

/-- The text has none of them. -/
def Plain (str : Text) : Prop := ∀ c ∈ str, c ∉ unescapedCharacters

instance (str : Text) : Decidable (Plain str) := inferInstanceAs (Decidable (∀ c ∈ str, _))

/-- The number of texts that are the same, up to case where it is to be ignored, is counted for
every list. -/
def CountsEqual (u : CharTable) (str : Text) : Prop :=
  ∀ stringList caseInsensitive, countInList u str stringList caseInsensitive =
    some (stringList.countP (sameText u caseInsensitive str))

/-! ## The pattern -/

theorem isEscapes_escapedCharacters : IsEscapes escapedCharacters := by
  unfold IsEscapes
  decide

theorem mem_metacharacters_iff {c : Char} :
    c ∈ metacharacters ↔ c ∈ escapedCharacters ∨ c ∈ unescapedCharacters := by
  have hleft : ∀ d ∈ metacharacters, d ∈ escapedCharacters ∨ d ∈ unescapedCharacters := by decide
  have hright : ∀ d ∈ escapedCharacters ++ unescapedCharacters, d ∈ metacharacters := by decide
  exact ⟨hleft c, fun h => hright c (List.mem_append.mpr h)⟩

theorem isPlain_of_plain {str : Text} (h : Plain str) : IsPlain escapedCharacters str := by
  intro c hc
  rw [mem_metacharacters_iff, not_or]
  by_cases hesc : c ∈ escapedCharacters
  · exact .inl hesc
  · exact .inr ⟨hesc, h c hc⟩

theorem escapeRegex_append (s t : Text) :
    escapeRegex (s ++ t) = escapeRegex s ++ escapeRegex t := by
  simp [escapeRegex, replaceChar]

theorem escapeRegex_singleton (c : Char) :
    escapeRegex [c] = escapeChar escapedCharacters c := by
  by_cases hc : c ∈ escapedCharacters
  · have hall : ∀ d ∈ escapedCharacters, escapeRegex [d] = escapeChar escapedCharacters d := by
      decide
    exact hall c hc
  · have hne : ∀ d ∈ escapedCharacters, c ≠ d := fun d hd heq => hc (heq ▸ hd)
    simp [escapeRegex, replaceChar, escapeChar, hc, hne '$' (by decide), hne '^' (by decide),
      hne '.' (by decide), hne '(' (by decide), hne ')' (by decide)]

theorem escapeRegex_eq (str : Text) :
    escapeRegex str = str.flatMap (escapeChar escapedCharacters) := by
  induction str with
  | nil => rfl
  | cons c str ih =>
    rw [← List.singleton_append, escapeRegex_append, escapeRegex_singleton, ih, List.flatMap_append,
      List.flatMap_singleton]

theorem mem_escapeRegex {c : Char} {str : Text} (h : c ∈ escapeRegex str) :
    c = '\\' ∨ c ∈ str := by
  rw [escapeRegex_eq, List.mem_flatMap] at h
  obtain ⟨d, hd, hc⟩ := h
  unfold escapeChar at hc
  split at hc
  · simp only [List.mem_cons, List.not_mem_nil, or_false] at hc
    rcases hc with rfl | rfl
    · exact .inl rfl
    · exact .inr hd
  · rw [List.mem_singleton.mp hc]
    exact .inr hd

/-! ## Texts without the characters that are left out -/

section Counts

variable {u : CharTable} {str : Text}

theorem countsEqual_of_plain (h : Plain str) : CountsEqual u str := by
  intro stringList ci
  have hmatches : ∀ s, XPath.Syntax.matches u ci s ('^' :: (escapeRegex str ++ ['$'])) =
      some (sameText u ci str s) := by
    intro s
    rw [escapeRegex_eq]
    exact XPath.Syntax.matches_literal isEscapes_escapedCharacters (isPlain_of_plain h) s
  have hmapM : (stringList.mapM fun s => some (sameText u ci str s)) =
      some (stringList.map (sameText u ci str)) := List.mapM_pure
  rw [countInList]
  simp only [hmatches, hmapM, Option.map_some, List.count, List.countP_map]
  congr 2
  funext s
  simp

/-- For plain texts the count is `stringInListCount`, where the lower case tells the same texts
apart as the flag `i`. -/
theorem countInList_eq_stringInListCount {lc : LowerCase} (h : Plain str)
    (hcase : ∀ t, sameText u true str t = true ↔ lc.lower t = lc.lower str)
    (stringList : List Text) :
    countInList u str stringList true = some (stringInListCount lc str stringList) := by
  rw [countsEqual_of_plain h, stringInListCount]
  congr 2
  funext t
  rw [Bool.eq_iff_iff, hcase, decide_eq_true_iff]

/-! ## Other texts without backslashes -/

theorem escaped_escapeRegex (h : '\\' ∉ str) :
    Escaped escapedCharacters ('^' :: (escapeRegex str ++ ['$'])) := by
  rw [escapeRegex_eq]
  exact .cons (by decide) (XPath.Syntax.escaped_flatMap h (.cons (by decide) .nil))

theorem sameText_iff {s t : Text} : sameText u false s t = true ↔ s = t := by
  induction s generalizing t with
  | nil => cases t <;> simp [sameText]
  | cons c s ih => cases t <;> simp [sameText, CharTable.same, ih]

/-- With a right count the pattern matches the text itself and no other text. -/
theorem CountsEqual.matches_iff (h : CountsEqual u str) (t : Text) :
    XPath.Syntax.matches u false t ('^' :: (escapeRegex str ++ ['$'])) = some true ↔ str = t := by
  have hcount := h [t] false
  rw [countInList] at hcount
  cases hm : XPath.Syntax.matches u false t ('^' :: (escapeRegex str ++ ['$'])) with
  | none => simp [hm] at hcount
  | some b =>
    rw [← sameText_iff (u := u)]
    simp only [List.mapM_cons, List.mapM_nil, hm] at hcount
    cases hb : b <;> cases hs : sameText u false str t <;> simp [hb, hs] at hcount ⊢

/-- A text whose pattern does not tell characters apart that it has is not counted right. -/
theorem not_countsEqual_of_keeps {f : Char → Char} {I : Text → Prop}
    (hkeeps : XPath.Syntax.Keeps u f I) (hI : I ('^' :: (escapeRegex str ++ ['$'])))
    (hmoved : str.map f ≠ str) : ¬CountsEqual u str := by
  intro h
  have hself := (h.matches_iff str).mpr rfl
  rw [← hkeeps.matches_map hI] at hself
  exact hmoved ((h.matches_iff _).mp hself).symm

/-- Characters with a meaning of their own, in pairs. -/
def swapSpecials (c : Char) : Char :=
  if c = '*' then '+'
  else if c = '+' then '*'
  else if c = '?' then '|'
  else if c = '|' then '?'
  else if c = '\x7b' then '\x7d'
  else if c = '\x7d' then '\x7b'
  else c

theorem swapSpecials_swapSpecials (c : Char) : swapSpecials (swapSpecials c) = c := by
  unfold swapSpecials
  grind

theorem swapSpecials_eq_self_iff {c : Char} :
    swapSpecials c = c ↔ c ∉ "*+?|\x7b\x7d".toList := by
  have hall : ∀ d ∈ "*+?|\x7b\x7d".toList, swapSpecials d ≠ d := by decide
  constructor
  · exact fun heq hc => hall c hc heq
  · intro hc
    have hne : ∀ d ∈ "*+?|\x7b\x7d".toList, c ≠ d := fun d hd heq => hc (heq ▸ hd)
    simp [swapSpecials, hne '*' (by decide), hne '+' (by decide), hne '?' (by decide),
      hne '|' (by decide), hne '\x7b' (by decide), hne '\x7d' (by decide)]

theorem swapBrackets_ne {c : Char} (h : c = '[' ∨ c = ']') : XPath.Syntax.swapBrackets c ≠ c := by
  rcases h with rfl | rfl <;> decide

theorem map_ne_self {f : Char → Char} {c : Char} (hc : c ∈ str) (hf : f c ≠ c) :
    str.map f ≠ str := by
  intro heq
  exact hf (List.map_inj_left.mp (heq.trans (List.map_id str).symm) c hc)

theorem plain_of_countsEqual (hbackslash : '\\' ∉ str) (h : CountsEqual u str) : Plain str := by
  intro c hc hspecial
  have hescaped := escaped_escapeRegex hbackslash
  by_cases hbrackets : '[' ∈ str ∨ ']' ∈ str
  · obtain ⟨d, hd, hdbracket⟩ : ∃ d ∈ str, d = '[' ∨ d = ']' := by
      rcases hbrackets with hd | hd
      · exact ⟨_, hd, .inl rfl⟩
      · exact ⟨_, hd, .inr rfl⟩
    exact not_countsEqual_of_keeps
      (XPath.Syntax.keeps_swapBrackets isEscapes_escapedCharacters) hescaped
      (map_ne_self hd (swapBrackets_ne hdbracket)) h
  · rw [not_or] at hbrackets
    -- There are no classes in the pattern.
    have hopen : '[' ∉ '^' :: (escapeRegex str ++ ['$']) := by
      simp only [List.mem_cons, List.mem_append, List.not_mem_nil, not_or]
      exact ⟨by decide, fun hmem => (mem_escapeRegex hmem).elim (by decide) hbrackets.1,
        by decide, not_false⟩
    have hordinary : ∀ d ∈ "*+?|\x7b\x7d".toList, d ∈ metacharacters ∧ d ∉ escapedCharacters := by
      decide
    have hkeeps := XPath.Syntax.keeps_of_notMem (u := u) isEscapes_escapedCharacters
      swapSpecials_swapSpecials fun d hd => swapSpecials_eq_self_iff.mpr fun hmem =>
        hd.elim (fun hmeta => hmeta (hordinary d hmem).1) (hordinary d hmem).2
    have hpair : ∀ d ∈ unescapedCharacters, d = '\\' ∨ d = '[' ∨ d = ']' ∨
        d ∈ "*+?|\x7b\x7d".toList := by decide
    have hmoved : swapSpecials c ≠ c := by
      rcases hpair c hspecial with rfl | rfl | rfl | hmem
      · exact absurd hc hbackslash
      · exact absurd hc hbrackets.1
      · exact absurd hc hbrackets.2
      · exact fun heq => swapSpecials_eq_self_iff.mp heq hmem
    exact not_countsEqual_of_keeps hkeeps ⟨hescaped, hopen⟩ (map_ne_self hc hmoved) h

end Counts

/-! ## The tests of the validator -/

section Tests

variable (u : CharTable)

/-- A test that a value of each entity is once in a list. -/
def testUnique (value : ℕ → Text) (allValues : List Text) (report : ℕ → ℕ → Result)
    (entities : List ℕ) : Option (List Result) :=
  entities.mapM fun entity => (countInList u (value entity) allValues true).map (report entity)

namespace Document

variable (doc : Document)

/-- `cdit:test_unique_labels`. -/
def testUniqueLabels (entities : List ℕ) (errorStr : Text) (warning : Bool) :
    Option (List Result) :=
  testUnique u doc.getLabel (entities.map doc.getLabel) (fun entity matchCount =>
    ⟨doc.getId entity, matchCount = 1,
      joinList [doc.getKind entity, wrapQuote (doc.getLabel entity), errorStr, decimal matchCount]
        ' ', warning⟩) entities

/-- `graphml:get_type`. -/
def getType (entity : ℕ) : Text := doc.getDataValue entity (lit "type")

/-- Of an entity that is no class, the label is looked for among the types. -/
def testUniqueTypes (entities : List ℕ) : Option (List Result) :=
  testUnique u
    (fun entity => if doc.getKind entity = lit "Class" then doc.getType entity
      else doc.getLabel entity)
    (entities.map doc.getType) (fun entity matchCount =>
    ⟨doc.getId entity, matchCount = 1,
      joinList [doc.getKind entity, wrapQuote (doc.getType entity),
        lit " does not have a unique qualifed class name", decimal matchCount] ' ', false⟩) entities

/-- `cdit:test_components_unique_name`. -/
def testComponentsUniqueName (components : List ℕ) : Option (List Result) :=
  testUnique u doc.getLabel (components.map doc.getLabel) (fun component matchCount =>
    ⟨doc.getId component, matchCount = 1,
      joinList [lit "Component", wrapQuote (doc.getLabel component),
        lit " does not have a unique label"] ' ', false⟩) components

end Document

/-- The test ends without an error, and fails for exactly those entities whose value is that of
another entity too. -/
def FlagsDuplicates (value : ℕ → Text) (entities : List ℕ) (results : Option (List Result)) :
    Prop :=
  ∃ reported : List Result, results = some reported ∧ reported.length = entities.length ∧
    ∀ (i entity : ℕ) (r : Result), entities[i]? = some entity → reported[i]? = some r →
      (r.result = false ↔ ∃ j other, j ≠ i ∧ entities[j]? = some other ∧
        sameText u true (value entity) (value other) = true)

variable {u}

theorem sameText_self (ci : Bool) (s : Text) : sameText u ci s s = true := by
  induction s with
  | nil => rfl
  | cons c s ih => simp [sameText, CharTable.same, ih]

/-- A member with the property is the only one unless there is another one. -/
theorem countP_ne_one_iff {α : Type} {p : α → Bool} {l : List α} {i : ℕ} {x : α}
    (hi : l[i]? = some x) (hx : p x = true) :
    l.countP p ≠ 1 ↔ ∃ j y, j ≠ i ∧ l[j]? = some y ∧ p y = true := by
  induction l generalizing i with
  | nil => cases hi
  | cons z l ih =>
    cases i with
    | zero =>
      obtain rfl : z = x := by simpa using hi
      rw [List.countP_cons_of_pos hx]
      constructor
      · intro h
        obtain ⟨y, hy, hpy⟩ := List.countP_pos_iff.mp (show 0 < l.countP p by omega)
        obtain ⟨j, hj⟩ := List.mem_iff_getElem?.mp hy
        exact ⟨j + 1, y, by omega, by simpa using hj, hpy⟩
      · rintro ⟨j, y, hne, hj, hpy⟩
        obtain ⟨j, rfl⟩ : ∃ k, j = k + 1 := ⟨j - 1, by omega⟩
        have hpos := List.countP_pos_iff.mpr ⟨y, List.mem_of_getElem? (by simpa using hj), hpy⟩
        omega
    | succ i =>
      have hi' : l[i]? = some x := by simpa using hi
      by_cases hz : p z = true
      · have hpos := List.countP_pos_iff.mpr ⟨x, List.mem_of_getElem? hi', hx⟩
        rw [List.countP_cons_of_pos hz]
        exact iff_of_true (by omega) ⟨0, z, by omega, rfl, hz⟩
      · rw [List.countP_cons_of_neg hz, ih hi']
        constructor
        · rintro ⟨j, y, hne, hj, hpy⟩
          exact ⟨j + 1, y, by omega, by simpa using hj, hpy⟩
        · rintro ⟨j, y, hne, hj, hpy⟩
          cases j with
          | zero =>
            obtain rfl : z = y := by simpa using hj
            exact absurd hpy hz
          | succ j => exact ⟨j, y, by omega, by simpa using hj, hpy⟩

theorem testUnique_of_plain {value : ℕ → Text} {allValues : List Text} {report : ℕ → ℕ → Result}
    {entities : List ℕ} (h : ∀ entity ∈ entities, Plain (value entity)) :
    testUnique u value allValues report entities = some (entities.map fun entity =>
      report entity (allValues.countP (sameText u true (value entity)))) := by
  unfold testUnique
  induction entities with
  | nil => rfl
  | cons entity entities ih =>
    rw [List.mapM_cons, ih fun e he => h e (List.mem_cons_of_mem _ he),
      countsEqual_of_plain (h entity List.mem_cons_self)]
    rfl

/-- A test of entities for the values that the list has of them. -/
theorem flagsDuplicates_of_plain {value key : ℕ → Text} {report : ℕ → ℕ → Result}
    {entities : List ℕ} (hreport : ∀ entity n, (report entity n).result = decide (n = 1))
    (hkey : ∀ entity ∈ entities, value entity = key entity)
    (h : ∀ entity ∈ entities, Plain (key entity)) :
    FlagsDuplicates u key entities (testUnique u value (entities.map key) report entities) := by
  have hvalue : ∀ entity ∈ entities, Plain (value entity) := fun entity he =>
    hkey entity he ▸ h entity he
  refine ⟨_, testUnique_of_plain hvalue, List.length_map .., ?_⟩
  intro i entity r hi hr
  rw [List.getElem?_map, hi] at hr
  obtain rfl := Option.some.inj hr
  rw [hreport, decide_eq_false_iff_not, List.countP_map,
    hkey entity (List.mem_of_getElem? hi), ← ne_eq,
    countP_ne_one_iff hi (sameText_self true _)]
  rfl

namespace Document

variable (doc : Document) {entities : List ℕ}

theorem testUniqueLabels_of_plain (errorStr : Text) (warning : Bool)
    (h : ∀ entity ∈ entities, Plain (doc.getLabel entity)) :
    FlagsDuplicates u doc.getLabel entities (doc.testUniqueLabels u entities errorStr warning) :=
  flagsDuplicates_of_plain (fun _ _ => rfl) (fun _ _ => rfl) h

theorem testComponentsUniqueName_of_plain (h : ∀ entity ∈ entities, Plain (doc.getLabel entity)) :
    FlagsDuplicates u doc.getLabel entities (doc.testComponentsUniqueName u entities) :=
  flagsDuplicates_of_plain (fun _ _ => rfl) (fun _ _ => rfl) h

/-- Classes are told apart by their types. -/
theorem testUniqueTypes_of_plain (hkind : ∀ entity ∈ entities, doc.getKind entity = lit "Class")
    (h : ∀ entity ∈ entities, Plain (doc.getType entity)) :
    FlagsDuplicates u doc.getType entities (doc.testUniqueTypes u entities) :=
  flagsDuplicates_of_plain (fun _ _ => rfl) (fun entity he => if_pos (hkind entity he)) h

end Document

end Tests

/-- The count is right for texts in which all characters with a meaning of their own are escaped,
without backslashes for no others, and a test of such labels reports exactly those that come
twice. -/
theorem countsEqual_iff (u : CharTable) :
    (∀ str, Plain str → CountsEqual u str) ∧
      (∀ str, '\\' ∉ str → (CountsEqual u str ↔ Plain str)) ∧
      ∀ (doc : Document) (entities : List ℕ) (errorStr : Text) (warning : Bool),
        (∀ entity ∈ entities, Plain (doc.getLabel entity)) →
          FlagsDuplicates u doc.getLabel entities
            (doc.testUniqueLabels u entities errorStr warning) :=
  ⟨fun _ => countsEqual_of_plain,
    fun _ h => ⟨plain_of_countsEqual h, countsEqual_of_plain⟩,
    fun doc _ errorStr warning => doc.testUniqueLabels_of_plain errorStr warning⟩

/-- ASCII, with the digits as the only class that has a name. -/
def asciiTable : CharTable where
  lower c := [c.toLower]
  upper c := [c.toUpper]
  named
    | 'd' :: s => some (Char.isDigit, s)
    | _ => none

theorem same_asciiTable_iff {c d : Char} :
    asciiTable.same true c d = true ↔ c.toLower = d.toLower := by
  constructor
  · intro h
    simp only [CharTable.same, asciiTable, Bool.true_and, Bool.or_eq_true, decide_eq_true_eq,
      List.cons.injEq, and_true] at h
    rcases h with rfl | h | h
    · rfl
    · exact h
    · exact toLower_eq_of_toUpper_eq h
  · intro h
    simp [CharTable.same, asciiTable, h]

theorem sameText_asciiTable_iff {s t : Text} :
    sameText asciiTable true s t = true ↔ asciiLower.lower t = asciiLower.lower s := by
  induction s generalizing t with
  | nil => cases t <;> simp [sameText, asciiLower]
  | cons c s ih =>
    cases t with
    | nil => simp [sameText, asciiLower]
    | cons d t =>
      rw [sameText, Bool.and_eq_true, same_asciiTable_iff, ih]
      simp [asciiLower, eq_comm]

/-- In ASCII the two counts of plain texts are the same. -/
theorem countInList_asciiTable {str : Text} (h : Plain str) (stringList : List Text) :
    countInList asciiTable str stringList true =
      some (stringInListCount asciiLower str stringList) :=
  countInList_eq_stringInListCount h (fun _ => sameText_asciiTable_iff) stringList

/-- Two nodes whose labels are the same up to case. -/
def twoPumps : Document where
  nodes := [
    ⟨none, .element .graphml []⟩,
    ⟨some 0, .element .key [(.id, lit "d0"), (.attrName, lit "label")]⟩,
    ⟨some 0, .element .graph []⟩,
    ⟨some 2, .element .node [(.id, lit "n0")]⟩,
    ⟨some 3, .element .data [(.key, lit "d0")]⟩,
    ⟨some 4, .text (lit "Pump.1")⟩,
    ⟨some 2, .element .node [(.id, lit "n1")]⟩,
    ⟨some 6, .element .data [(.key, lit "d0")]⟩,
    ⟨some 7, .text (lit "pump.1")⟩]
  parent_lt := by decide
  ids_nodup := by decide
  nodes_nested := by decide

theorem countsEqual_iff_twoPumps :
    CountsEqual asciiTable (lit "Pump.1 ($)") ∧ ¬CountsEqual asciiTable (lit "Pump|Valve") ∧
      FlagsDuplicates asciiTable twoPumps.getLabel [3, 6]
        (twoPumps.testUniqueLabels asciiTable [3, 6] (lit "has a non-unique label") false) := by
  obtain ⟨hplain, hiff, htest⟩ := countsEqual_iff asciiTable
  refine ⟨hplain _ (by decide), fun h => ?_, htest twoPumps _ _ _ (by decide)⟩
  exact absurd ((hiff _ (by decide)).mp h) (by decide)

/-- Two nodes, `a*` and `b`. -/
def starLabel : Document where
  nodes := [
    ⟨none, .element .graphml []⟩,
    ⟨some 0, .element .key [(.id, lit "d0"), (.attrName, lit "label")]⟩,
    ⟨some 0, .element .graph []⟩,
    ⟨some 2, .element .node [(.id, lit "n0")]⟩,
    ⟨some 3, .element .data [(.key, lit "d0")]⟩,
    ⟨some 4, .text (lit "a*")⟩,
    ⟨some 2, .element .node [(.id, lit "n1")]⟩,
    ⟨some 6, .element .data [(.key, lit "d0")]⟩,
    ⟨some 7, .text (lit "b")⟩]
  parent_lt := by decide
  ids_nodup := by decide
  nodes_nested := by decide

/-- The pattern of `C++` is ill-formed, and that of `a*` does not match `a*`, so that a label that
no other node has is reported. -/
theorem not_countsEqual :
    ¬CountsEqual asciiTable (lit "C++") ∧
      countInList asciiTable (lit "C++") [lit "C++"] true = none ∧
      countInList asciiTable (lit "a*") [lit "a*", lit "aaa"] false = some 1 ∧
      sameText asciiTable false (lit "a*") (lit "aaa") = false ∧
      (starLabel.testUniqueLabels asciiTable [3, 6] (lit "has a non-unique label") false).map
        (List.map Result.result) = some [false, true] := by
  refine ⟨fun h => ?_, by decide, by decide, by decide, by decide⟩
  exact absurd (h [lit "C++"] true) (by decide)

end Sem.ReGen.Gml
