import Mathlib.Data.List.Sort
import Sem.Lib.Decimal
import Sem.Lib.Xml

/-!
# Labels of siblings

`LabelKey::validateDataChange` makes the label of a node different from those of its siblings: when
one of them has the label, a number is appended that none of them has behind it. The numbers that
are taken are found by a regular expression, into which the label is put as it is. Regular
expressions are a parameter here: `regexMatch pattern subject` is the text that the first group
captured, if there is a match.

* `freeNumber_notMem`: the number is free.
* `setLabel_labelled`: what a new label does to the labels of all children.
-/

namespace Sem.Medea

open Xml (Text)
open QString (toInt)

namespace LabelKey

/-- `LabelKey::ValidateSystemLabel`. -/
def validateSystemLabel (value newLabel : Text) : Text :=
  let newLabel := if newLabel = [] then value else newLabel
  (newLabel.map fun c => if c = '\t' then ' ' else c).map fun c => if c = ' ' then '_' else c

/-- `"^" + new_label + "_([0-9]+)?$"`. -/
def pattern (newLabel : Text) : Text := "^".toList ++ newLabel ++ "_([0-9]+)?$".toList

/-- The numbers of the siblings, in their order. -/
def matchedNumbers (regexMatch : Text → Text → Option Text) (newLabel : Text)
    (siblings : List Text) : List ℕ :=
  (siblings.filter (· ≠ newLabel)).filterMap fun sibling =>
    (regexMatch (pattern newLabel) sibling).map toInt

/-- The first gap in the sorted numbers, else the number after them. -/
def freeNumber (matchedNumbers : List ℕ) : ℕ :=
  let sorted := matchedNumbers.insertionSort (· ≤ ·)
  ((List.range' 1 sorted.length).find? fun i => i ∉ sorted).getD (sorted.length + 1)

/-- `Key::validateDataChange`, of a text. -/
def validateBase (validValues : List Text) (newValue : Text) : Text :=
  match validValues with
  | [] => newValue
  | first :: _ => if newValue ∈ validValues then newValue else first

/-- `LabelKey::validateDataChange`, of a node with these siblings. -/
def validateDataChange (regexMatch : Text → Text → Option Text) (functional : Bool)
    (validValues : List Text) (value : Text) (siblings : List Text) (newLabel : Text) : Text :=
  let newLabel := if newLabel = [] then value else newLabel
  if functional then
    let newLabel := validateSystemLabel value newLabel
    if newLabel ∈ siblings then
      newLabel ++ '_' :: decimal (freeNumber (matchedNumbers regexMatch newLabel siblings))
    else newLabel
  else validateBase validValues newLabel

end LabelKey

/-- A child of a node, as far as its label goes. -/
structure LabelledNode where
  label : Text
  isLabelFunctional : Bool
  /-- The valid values of its label. -/
  validValues : List Text
  deriving DecidableEq, Repr

/-- `getSiblings`, of the child at a place. -/
def siblingsOf (children : List LabelledNode) (place : ℕ) : List LabelledNode :=
  children.eraseIdx place

/-- `setData` of the label of the child at a place. -/
def setLabel (regexMatch : Text → Text → Option Text) (children : List LabelledNode) (place : ℕ)
    (newLabel : Text) : List LabelledNode :=
  children.modify place fun node =>
    { node with
      label := LabelKey.validateDataChange regexMatch node.isLabelFunctional node.validValues
        node.label ((siblingsOf children place).map LabelledNode.label) newLabel }

/-- The labels of the nodes that have functional labels. -/
def functionalLabels (children : List LabelledNode) : List Text :=
  (children.filter (·.isLabelFunctional)).map LabelledNode.label

namespace LabelKey

/-! ## The free number -/

theorem freeNumber_eq (numbers : List ℕ) : freeNumber numbers =
    ((List.range' 1 numbers.length).find? fun i => i ∉ numbers).getD (numbers.length + 1) := by
  simp [freeNumber, List.length_insertionSort]

theorem freeNumber_notMem (numbers : List ℕ) : freeNumber numbers ∉ numbers := by
  rw [freeNumber_eq]
  cases hfind : (List.range' 1 numbers.length).find? fun i => i ∉ numbers with
  | some i =>
    have hi := List.find?_some hfind
    simpa using hi
  | none =>
    -- if the number after them were taken too, they would be too many
    intro hnext
    have hall : List.range' 1 (numbers.length + 1) ⊆ numbers := by
      intro i hi
      obtain ⟨hlow, hhigh⟩ := List.mem_range'_1.mp hi
      by_cases heq : i = numbers.length + 1
      · rw [heq]
        exact hnext
      · have htaken := List.find?_eq_none.mp hfind i (List.mem_range'_1.mpr ⟨hlow, by omega⟩)
        simpa using htaken
    have hle := (List.subperm_of_subset List.nodup_range' hall).length_le
    rw [List.length_range'] at hle
    omega

theorem freeNumber_le (numbers : List ℕ) : freeNumber numbers ≤ numbers.length + 1 := by
  rw [freeNumber_eq]
  cases hfind : (List.range' 1 numbers.length).find? fun i => i ∉ numbers with
  | some i =>
    have hi := (List.mem_range'_1.mp (List.mem_of_find?_eq_some hfind)).2
    rw [Option.getD_some]
    omega
  | none => exact Nat.le_refl _

theorem toInt_decimal {n : ℕ} (h : n < 2 ^ 31) : toInt (decimal n) = n := by
  unfold toInt decimal
  simp only [Nat.ofDigitChars_ten_toDigits, if_pos h]

/-! ## The numbered label -/

/-- The characters stand for themselves in a regular expression. -/
def PlainLabel (label : Text) : Prop := ∀ c ∈ label, c ∉ "\\^$.[]|()?*+\x7b\x7d".toList

instance (label : Text) : Decidable (PlainLabel label) := by
  unfold PlainLabel
  infer_instance

/-- The regular expression of a plain label finds the label with a number behind it. -/
def FindsNumbers (regexMatch : Text → Text → Option Text) : Prop :=
  ∀ label digits, PlainLabel label → digits ≠ [] → (∀ c ∈ digits, c.isDigit = true) →
    regexMatch (pattern label) (label ++ '_' :: digits) = some digits

section Numbered

variable {regexMatch : Text → Text → Option Text} {label : Text} {siblings : List Text}

theorem length_matchedNumbers_lt (regexMatch : Text → Text → Option Text) (h : label ∈ siblings) :
    (matchedNumbers regexMatch label siblings).length < siblings.length := by
  refine lt_of_le_of_lt (List.length_filterMap_le _ _) ?_
  exact List.length_filter_lt_length_iff_exists.mpr ⟨label, h, by simp⟩

/-- No sibling of a plain label has the label with the free number. -/
theorem numbered_notMem (hregex : FindsNumbers regexMatch) (hplain : PlainLabel label)
    (hmem : label ∈ siblings) (hsize : siblings.length < 2 ^ 31) :
    label ++ '_' :: decimal (freeNumber (matchedNumbers regexMatch label siblings)) ∉ siblings := by
  intro hsibling
  have hle := freeNumber_le (matchedNumbers regexMatch label siblings)
  have hlt := length_matchedNumbers_lt regexMatch hmem
  refine freeNumber_notMem (matchedNumbers regexMatch label siblings) ?_
  refine List.mem_filterMap.mpr ⟨_, List.mem_filter.mpr ⟨hsibling, ?_⟩, ?_⟩
  · simp
  · have hdigits : ∀ c ∈ decimal (freeNumber (matchedNumbers regexMatch label siblings)),
        c.isDigit = true := fun c => Nat.isDigit_of_mem_toDigits (by decide) (by decide)
    have hne : decimal (freeNumber (matchedNumbers regexMatch label siblings)) ≠ [] :=
      Nat.toDigits_ne_nil
    rw [hregex label _ hplain hne hdigits, Option.map_some, toInt_decimal (by omega)]

end Numbered

/-- An empty request stands for the label that there is. -/
theorem validateSystemLabel_orElse (value newLabel : Text) :
    validateSystemLabel value (if newLabel = [] then value else newLabel) =
      validateSystemLabel value newLabel := by
  unfold validateSystemLabel
  by_cases hnew : newLabel = []
  · by_cases hvalue : value = [] <;> simp [hnew, hvalue]
  · simp [hnew]

section Functional

variable {regexMatch : Text → Text → Option Text} {validValues siblings : List Text}
  {value newLabel : Text}

theorem validateDataChange_functional :
    validateDataChange regexMatch true validValues value siblings newLabel =
      if validateSystemLabel value newLabel ∈ siblings then
        validateSystemLabel value newLabel ++ '_' :: decimal (freeNumber
          (matchedNumbers regexMatch (validateSystemLabel value newLabel) siblings))
      else validateSystemLabel value newLabel := by
  unfold validateDataChange
  simp only [if_true, validateSystemLabel_orElse]

/-- The new label is none of the siblings' labels. -/
theorem validateDataChange_notMem (validValues : List Text) (hregex : FindsNumbers regexMatch)
    (hlabel : validateSystemLabel value newLabel ∉ siblings ∨
      PlainLabel (validateSystemLabel value newLabel)) (hsize : siblings.length < 2 ^ 31) :
    validateDataChange regexMatch true validValues value siblings newLabel ∉ siblings := by
  rw [validateDataChange_functional]
  split
  · next hmem => exact numbered_notMem hregex (hlabel.resolve_left (not_not.mpr hmem)) hmem hsize
  · next hmem => exact hmem

end Functional

end LabelKey

/-! ## The labels of the children -/

section Children

open LabelKey

variable {regexMatch : Text → Text → Option Text} {children : List LabelledNode} {place : ℕ}
  {node : LabelledNode} {newLabel : Text}

/-- What is promised of the labels of all children. -/
structure Labelled (children : List LabelledNode) (place : ℕ) (newLabel : Text)
    (children' : List LabelledNode) : Prop where
  others : ∀ other, other ≠ place → children'[other]? = children[other]?
  /-- A label that no sibling has is taken, with underscores for its tabs and spaces. -/
  taken : ∀ node, children[place]? = some node → node.isLabelFunctional = true →
    validateSystemLabel node.label newLabel ∉ (siblingsOf children place).map LabelledNode.label →
    children'[place]? = some { node with label := validateSystemLabel node.label newLabel }
  unvalidated : ∀ node, children[place]? = some node → node.isLabelFunctional = false →
    node.validValues = [] → newLabel ≠ [] →
    children'[place]? = some { node with label := newLabel }
  /-- Only a label that a sibling has, and that means something else as a regular expression, may
  come to stand twice. -/
  distinct : (∀ node, children[place]? = some node → node.isLabelFunctional = true →
      validateSystemLabel node.label newLabel ∉
        (siblingsOf children place).map LabelledNode.label ∨
      PlainLabel (validateSystemLabel node.label newLabel)) →
    (functionalLabels children').Nodup

theorem functionalLabels_append (l r : List LabelledNode) :
    functionalLabels (l ++ r) = functionalLabels l ++ functionalLabels r := by
  simp [functionalLabels]

theorem functionalLabels_cons (node : LabelledNode) (l : List LabelledNode) :
    functionalLabels (node :: l) =
      if node.isLabelFunctional then node.label :: functionalLabels l else functionalLabels l := by
  cases h : node.isLabelFunctional <;> simp [functionalLabels, h]

/-- The labels with and without one node. -/
theorem nodup_functionalLabels_middle {l r : List LabelledNode} {node : LabelledNode} :
    (functionalLabels (l ++ node :: r)).Nodup ↔
      (node.isLabelFunctional = true → node.label ∉ functionalLabels (l ++ r)) ∧
        (functionalLabels (l ++ r)).Nodup := by
  rw [functionalLabels_append, functionalLabels_cons, functionalLabels_append]
  cases node.isLabelFunctional with
  | false => simp
  | true => simp [List.nodup_middle]

theorem functionalLabels_subset (l : List LabelledNode) :
    functionalLabels l ⊆ l.map LabelledNode.label :=
  List.map_subset _ (List.filter_subset_self l)

theorem setLabel_labelled (hregex : FindsNumbers regexMatch) (hsize : children.length < 2 ^ 31)
    (hdistinct : (functionalLabels children).Nodup) (place : ℕ) (newLabel : Text) :
    Labelled children place newLabel (setLabel regexMatch children place newLabel) := by
  refine ⟨fun other hne => ?_, fun node hnode hfunctional hlabel => ?_,
    fun node hnode hfunctional hvalid hne => ?_, fun hlabel => ?_⟩
  · rw [setLabel, List.getElem?_modify_ne _ _ hne.symm]
  · rw [setLabel, List.getElem?_modify_eq, hnode, Option.map_eq_map, Option.map_some, hfunctional,
      validateDataChange_functional, if_neg hlabel]
  · rw [setLabel, List.getElem?_modify_eq, hnode, Option.map_eq_map, Option.map_some, hfunctional,
      hvalid]
    simp [validateDataChange, validateBase, hne]
  · by_cases hplace : place < children.length
    · obtain ⟨l, node, r, hchildren, hlength, hmodify⟩ := List.exists_of_modify (fun node =>
        { node with
          label := validateDataChange regexMatch node.isLabelFunctional node.validValues
            node.label ((siblingsOf children place).map LabelledNode.label) newLabel }) hplace
      have hsiblings : siblingsOf children place = l ++ r := by
        rw [siblingsOf, hchildren, ← hlength, List.eraseIdx_append_of_length_le (Nat.le_refl _),
          Nat.sub_self, List.eraseIdx_cons_zero]
      have hnode : children[place]? = some node := by
        rw [hchildren, ← hlength, List.getElem?_append_right (Nat.le_refl _), Nat.sub_self,
          List.getElem?_cons_zero]
      rw [hchildren, nodup_functionalLabels_middle] at hdistinct
      rw [setLabel, hmodify, nodup_functionalLabels_middle]
      refine ⟨fun hfunctional hmem => ?_, hdistinct.2⟩
      have hfunctional : node.isLabelFunctional = true := hfunctional
      have hless : ((siblingsOf children place).map LabelledNode.label).length < 2 ^ 31 := by
        rw [hsiblings, List.length_map, List.length_append]
        rw [hchildren, List.length_append, List.length_cons] at hsize
        omega
      have hnew := validateDataChange_notMem node.validValues hregex
        (hlabel node hnode hfunctional) hless
      rw [hfunctional, hsiblings] at hmem
      rw [hsiblings] at hnew
      exact hnew (functionalLabels_subset _ hmem)
    · rw [setLabel, List.modify_eq_self (Nat.le_of_not_lt hplace)]
      exact hdistinct

end Children

/-! ## Two requests -/

namespace LabelKey

/-- The regular expressions of plain labels. -/
def literalMatch (pattern subject : Text) : Option Text :=
  let label := (pattern.drop 1).take (pattern.length - 12)
  let digits := subject.drop (label.length + 1)
  if (label ++ ['_']).isPrefixOf subject ∧ digits.all Char.isDigit then some digits else none

theorem findsNumbers_literalMatch : FindsNumbers literalMatch := by
  intro label digits _ _ hdigits
  have hlabel : ((pattern label).drop 1).take ((pattern label).length - 12) = label := by
    simp [pattern]
  have hprefix : (label ++ ['_']).isPrefixOf (label ++ '_' :: digits) = true := by
    rw [List.isPrefixOf_iff_prefix]
    exact ⟨digits, by simp⟩
  have hdrop : (label ++ '_' :: digits).drop (label.length + 1) = digits := by
    simp [List.drop_append]
  simp only [literalMatch, hlabel, hdrop, hprefix, true_and]
  rw [if_pos (List.all_eq_true.mpr hdigits)]

end LabelKey

/-- A third sibling gets the label of the first. -/
theorem setLabel_labelled_third :
    setLabel LabelKey.literalMatch
        [⟨"a".toList, true, []⟩, ⟨"a_1".toList, true, []⟩, ⟨"b".toList, true, []⟩] 2 "a".toList =
      [⟨"a".toList, true, []⟩, ⟨"a_1".toList, true, []⟩, ⟨"a_2".toList, true, []⟩] ∧
    Labelled [⟨"a".toList, true, []⟩, ⟨"a_1".toList, true, []⟩, ⟨"b".toList, true, []⟩] 2 "a".toList
      (setLabel LabelKey.literalMatch
        [⟨"a".toList, true, []⟩, ⟨"a_1".toList, true, []⟩, ⟨"b".toList, true, []⟩] 2 "a".toList) :=
  ⟨by decide +kernel, setLabel_labelled LabelKey.findsNumbers_literalMatch (by decide +kernel)
    (by decide +kernel) 2 "a".toList⟩

/-- A label that no sibling has is not taken as it is when it has a space. -/
theorem setLabel_space :
    "a b".toList ∉ (siblingsOf [⟨"c".toList, true, []⟩] 0).map LabelledNode.label ∧
      setLabel LabelKey.literalMatch [⟨"c".toList, true, []⟩] 0 "a b".toList =
        [⟨"a_b".toList, true, []⟩] := by
  decide +kernel

end Sem.Medea
