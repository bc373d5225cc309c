import Mathlib.Data.List.Sort
import Mathlib.Logic.Relation
import Sem.Lib.NumberTexts
import Sem.Lib.Xml

/-!
# Paths over a document

The nodes of a document in document order, with the steps of a path over them: a step gives what it
reaches in document order, every node once. Names are those of a vocabulary.

* `mem_ancestors_iff`, `ancestors_eq`: what a node is in.
* `stringValue_length_lt`: a node that has text outside another one in it has more of it.
* `filter_insertionSort_eq_iff`: what is picked from a sorted sequence keeps the order before the
  sort exactly where that was sorted.
-/

namespace Sem.XPath

open Xml (Text)

universe u

/-- Elements with their attributes, and texts. -/
inductive Content (N : Type u)
  | element (name : N) (attributes : List (N × Text))
  | text (value : Text)
  deriving DecidableEq, Repr

/-- What a node has, and the node that it is in. -/
structure Node (N : Type u) where
  parent : Option ℕ
  content : Content N
  deriving DecidableEq, Repr

/-- The nodes of a document, in document order. -/
structure Document (N : Type u) where
  nodes : List (Node N)
  /-- A node comes after the one that it is in. -/
  parent_lt : ∀ p ∈ nodes.zipIdx, ∀ parent ∈ p.1.parent, parent < p.2

/-! ## Steps back -/

/-- What a step reaches again and again, up to so many times. -/
def chain (f : ℕ → Option ℕ) : ℕ → ℕ → List ℕ
  | 0, _ => []
  | n + 1, i =>
    match f i with
    | some p => p :: chain f n p
    | none => []

section Chain

variable {f : ℕ → Option ℕ} {i p : ℕ}

theorem chain_of_le (hf : ∀ i p, f i = some p → p < i) {n : ℕ} (h : i ≤ n) :
    chain f n i = chain f i i := by
  suffices hmore : ∀ n m i, i ≤ n → i ≤ m → chain f n i = chain f m i from
    hmore n i i h (Nat.le_refl i)
  intro n
  induction n with
  | zero =>
    intro m i hn _
    obtain rfl : i = 0 := by omega
    have hnone : f 0 = none := by
      cases hp : f 0 with
      | none => rfl
      | some p => exact absurd (hf 0 p hp) (by omega)
    cases m <;> simp [chain, hnone]
  | succ n ih =>
    intro m i hn hm
    cases hp : f i with
    | none => cases m <;> simp [chain, hp]
    | some p =>
      have hlt := hf i p hp
      obtain ⟨m, rfl⟩ : ∃ k, m = k + 1 := ⟨m - 1, by omega⟩
      simp only [chain, hp, ih m p (by omega) (by omega)]

/-- Steps that go back come to an end in as many of them as there are positions. -/
theorem chain_eq (hf : ∀ i p, f i = some p → p < i) (i : ℕ) :
    chain f i i = match f i with
      | some p => p :: chain f p p
      | none => [] := by
  rw [← chain_of_le hf (Nat.le_succ i), chain]
  cases hp : f i with
  | none => rfl
  | some p => simp only [chain_of_le hf (Nat.le_of_lt (hf i p hp))]

theorem mem_chain_iff (hf : ∀ i p, f i = some p → p < i) :
    p ∈ chain f i i ↔ Relation.TransGen (fun i p => f i = some p) i p := by
  induction i using Nat.strong_induction_on with
  | _ i ih =>
    rw [chain_eq hf, Relation.TransGen.head'_iff]
    cases hq : f i with
    | none => simp
    | some q =>
      rw [List.mem_cons, ih q (hf i q hq), Relation.reflTransGen_iff_eq_or_transGen.symm]
      simp

end Chain

/-! ## Picking from a sequence -/

theorem filter_eq_filter_iff {α : Type*} {p q : α → Bool} {l : List α} :
    l.filter p = l.filter q ↔ ∀ a ∈ l, p a = q a := by
  refine ⟨fun h a ha => Bool.eq_iff_iff.mpr ?_, List.filter_congr⟩
  have hmem : a ∈ l.filter p ↔ a ∈ l.filter q := by rw [h]
  rwa [List.mem_filter, List.mem_filter, and_iff_right ha, and_iff_right ha] at hmem

theorem filter_insertionSort_eq_iff {α : Type*} {r : α → α → Prop} [DecidableRel r] [Std.Total r]
    [IsTrans α r] {p : α → Bool} {l : List α} :
    l.filter p = (l.insertionSort r).filter p ↔ (l.filter p).Pairwise r := by
  constructor
  · intro h
    rw [h]
    exact (List.pairwise_insertionSort r l).filter p
  · intro h
    have hsub : ((l.filter p).filter p).Sublist ((l.insertionSort r).filter p) :=
      (List.sublist_insertionSort h List.filter_sublist).filter p
    rw [List.filter_filter] at hsub
    simp only [Bool.and_self] at hsub
    exact hsub.eq_of_length ((List.perm_insertionSort r l).filter p).length_eq.symm

namespace Document

variable {N : Type u} (doc : Document N)

/-- The node that a node is in. -/
def parent (i : ℕ) : Option ℕ := doc.nodes[i]?.bind (·.parent)

/-- What a node is. -/
def content (i : ℕ) : Option (Content N) := doc.nodes[i]?.map (·.content)

/-- The node is an element with this name. -/
def isElement [DecidableEq N] (name : N) (i : ℕ) : Bool :=
  match doc.content i with
  | some (.element n _) => n = name
  | _ => false

/-- The value of an attribute of an element. -/
def attribute? [DecidableEq N] (name : N) (i : ℕ) : Option Text :=
  match doc.content i with
  | some (.element _ attributes) => attributes.lookup name
  | _ => none

/-- The node is a text. -/
def isText (i : ℕ) : Bool :=
  match doc.content i with
  | some (.text _) => true
  | _ => false

/-- The characters of a text. -/
def textOf (i : ℕ) : Text :=
  match doc.content i with
  | some (.text value) => value
  | _ => []

/-- What a node is in, the innermost first. -/
def ancestors (i : ℕ) : List ℕ := chain doc.parent i i

/-- The nodes that pass a test, in document order. -/
def select (test : ℕ → Bool) : List ℕ := (List.range doc.nodes.length).filter test

/-- The nodes of a test that are children of some nodes, in document order. -/
def childStep (ns : List ℕ) (test : ℕ → Bool) : List ℕ :=
  doc.select fun i => test i && (doc.parent i).any (· ∈ ns)

/-- The parents of some nodes, in document order. -/
def parentStep (ns : List ℕ) : List ℕ := doc.select fun i => ns.any (doc.parent · = some i)

/-- The nodes of a test below some nodes, in document order. -/
def descendantStep (ns : List ℕ) (test : ℕ → Bool) : List ℕ :=
  doc.select fun i => test i && (doc.ancestors i).any (· ∈ ns)

/-- The nodes of a test above some nodes, in document order. -/
def ancestorStep (ns : List ℕ) (test : ℕ → Bool) : List ℕ :=
  doc.select fun i => test i && ns.any (i ∈ doc.ancestors ·)

/-- The texts of a node and of what is in it, one after the other. -/
def stringValue (i : ℕ) : Text :=
  (doc.select fun j => j = i ∨ i ∈ doc.ancestors j).flatMap doc.textOf

/-- The comparison `=` of two sequences of nodes. -/
def generalEq (ns ms : List ℕ) : Bool :=
  ns.any fun i => ms.any fun j => doc.stringValue i = doc.stringValue j

/-! ## What a node is in -/

variable {doc} {i j k p : ℕ} {test : ℕ → Bool} {ns : List ℕ}

theorem lt_of_parent (h : doc.parent i = some p) : p < i := by
  obtain ⟨n, hn, hp⟩ := Option.bind_eq_some_iff.mp h
  refine doc.parent_lt (n, i) ?_ p hp
  rw [List.mem_zipIdx_iff_getElem?]
  exact hn

theorem lt_length_of_parent (h : doc.parent i = some p) : i < doc.nodes.length := by
  obtain ⟨n, hn, -⟩ := Option.bind_eq_some_iff.mp h
  exact (List.getElem?_eq_some_iff.mp hn).1

theorem lt_length_of_content {c : Content N} (h : doc.content i = some c) :
    i < doc.nodes.length := by
  obtain ⟨n, hn, -⟩ := Option.map_eq_some_iff.mp h
  exact (List.getElem?_eq_some_iff.mp hn).1

theorem lt_length_of_isElement [DecidableEq N] {name : N} (h : doc.isElement name i = true) :
    i < doc.nodes.length := by
  unfold isElement at h
  split at h
  · next hcontent => exact lt_length_of_content hcontent
  · cases h

theorem lt_length_of_attribute? [DecidableEq N] {name : N} {value : Text}
    (h : doc.attribute? name i = some value) : i < doc.nodes.length := by
  unfold attribute? at h
  split at h
  · next hcontent => exact lt_length_of_content hcontent
  · cases h

theorem ancestors_eq (i : ℕ) : doc.ancestors i =
    match doc.parent i with
    | some p => p :: doc.ancestors p
    | none => [] :=
  chain_eq (fun _ _ => lt_of_parent) i

theorem mem_ancestors_iff :
    p ∈ doc.ancestors i ↔ Relation.TransGen (fun i p => doc.parent i = some p) i p :=
  mem_chain_iff fun _ _ => lt_of_parent

theorem mem_ancestors_of_parent (h : doc.parent i = some p) (hj : j = p ∨ j ∈ doc.ancestors p) :
    j ∈ doc.ancestors i := by
  rw [ancestors_eq, h]
  exact List.mem_cons.mpr hj

theorem eq_or_mem_ancestors_of_parent (h : doc.parent i = some p) (hj : j ∈ doc.ancestors i) :
    j = p ∨ j ∈ doc.ancestors p := by
  rw [ancestors_eq, h] at hj
  exact List.mem_cons.mp hj

theorem mem_ancestors_trans (hij : j ∈ doc.ancestors i) (hjk : k ∈ doc.ancestors j) :
    k ∈ doc.ancestors i :=
  mem_ancestors_iff.mpr ((mem_ancestors_iff.mp hij).trans (mem_ancestors_iff.mp hjk))

theorem lt_of_mem_ancestors (h : p ∈ doc.ancestors i) : p < i := by
  induction mem_ancestors_iff.mp h with
  | single hp => exact lt_of_parent hp
  | tail hij hp ih => exact Nat.lt_trans (lt_of_parent hp) (ih (mem_ancestors_iff.mpr hij))

theorem lt_length_of_mem_ancestors (h : p ∈ doc.ancestors i) : i < doc.nodes.length := by
  obtain ⟨q, hq, -⟩ := Relation.TransGen.head'_iff.mp (mem_ancestors_iff.mp h)
  exact lt_length_of_parent hq

/-- Of two nodes that a node is in, one is in the other. -/
theorem mem_ancestors_or (hj : j ∈ doc.ancestors i) (hk : k ∈ doc.ancestors i) :
    j = k ∨ j ∈ doc.ancestors k ∨ k ∈ doc.ancestors j := by
  induction mem_ancestors_iff.mp hj using Relation.TransGen.head_induction_on with
  | single hp =>
    rcases eq_or_mem_ancestors_of_parent hp hk with rfl | hk
    · exact .inl rfl
    · exact .inr (.inr hk)
  | head hp hpj ih =>
    rcases eq_or_mem_ancestors_of_parent hp hk with rfl | hk
    · exact .inr (.inl (mem_ancestors_iff.mpr hpj))
    · exact ih (mem_ancestors_iff.mpr hpj) hk

/-! ## Steps -/

theorem mem_select : i ∈ doc.select test ↔ i < doc.nodes.length ∧ test i = true := by
  rw [select, List.mem_filter, List.mem_range]

theorem mem_childStep :
    i ∈ doc.childStep ns test ↔ test i = true ∧ ∃ p ∈ ns, doc.parent i = some p := by
  rw [childStep, mem_select, Bool.and_eq_true, Option.any_eq_true]
  constructor
  · rintro ⟨-, htest, p, hp, hmem⟩
    exact ⟨htest, p, of_decide_eq_true hmem, hp⟩
  · rintro ⟨htest, p, hmem, hp⟩
    exact ⟨lt_length_of_parent hp, htest, p, hp, decide_eq_true hmem⟩

theorem mem_descendantStep : i ∈ doc.descendantStep ns test ↔
    test i = true ∧ ∃ p ∈ ns, p ∈ doc.ancestors i := by
  rw [descendantStep, mem_select, Bool.and_eq_true, List.any_eq_true]
  constructor
  · rintro ⟨-, htest, p, hp, hmem⟩
    exact ⟨htest, p, of_decide_eq_true hmem, hp⟩
  · rintro ⟨htest, p, hmem, hp⟩
    exact ⟨lt_length_of_mem_ancestors hp, htest, p, hp, decide_eq_true hmem⟩

/-- Down to what passes a test and up again keeps the nodes with such a child. -/
theorem parentStep_childStep : doc.parentStep (doc.childStep ns test) =
    doc.select fun i => i ∈ ns && !(doc.childStep [i] test).isEmpty := by
  refine List.filter_congr fun i _ => Bool.eq_iff_iff.mpr ?_
  simp only [List.any_eq_true, Bool.and_eq_true, decide_eq_true_iff, Bool.not_eq_true',
    List.isEmpty_eq_false_iff_exists_mem, mem_childStep, List.mem_singleton]
  constructor
  · rintro ⟨j, ⟨htest, p, hp, hj⟩, hi⟩
    obtain rfl : p = i := Option.some.inj (hj.symm.trans hi)
    exact ⟨hp, j, htest, p, rfl, hj⟩
  · rintro ⟨hmem, j, htest, p, rfl, hj⟩
    exact ⟨j, ⟨htest, p, hmem, hj⟩, hj⟩

/-! ## Texts -/

theorem flatMap_filter_length_le {α β : Type*} {f : α → List β} {p q : α → Bool} {l : List α}
    (hpq : ∀ a ∈ l, p a = true → q a = true) :
    ((l.filter p).flatMap f).length ≤ ((l.filter q).flatMap f).length := by
  induction l with
  | nil => simp
  | cons a l ih =>
    have := ih fun b hb => hpq b (List.mem_cons_of_mem a hb)
    have := hpq a List.mem_cons_self
    cases hp : p a <;> cases hq : q a <;> simp_all
    omega

theorem flatMap_filter_length_lt {α β : Type*} {f : α → List β} {p q : α → Bool} {l : List α}
    (hpq : ∀ a ∈ l, p a = true → q a = true) {a : α} (ha : a ∈ l) (hp : p a = false)
    (hq : q a = true) (hne : f a ≠ []) :
    ((l.filter p).flatMap f).length < ((l.filter q).flatMap f).length := by
  obtain ⟨l₁, l₂, rfl⟩ := List.append_of_mem ha
  have h₁ : ((l₁.filter p).flatMap f).length ≤ ((l₁.filter q).flatMap f).length :=
    flatMap_filter_length_le fun b hb => hpq b (List.mem_append_left _ hb)
  have h₂ : ((l₂.filter p).flatMap f).length ≤ ((l₂.filter q).flatMap f).length :=
    flatMap_filter_length_le fun b hb =>
      hpq b (List.mem_append_right _ (List.mem_cons_of_mem a hb))
  have hpos : 0 < (f a).length := List.length_pos_iff.mpr hne
  rw [List.filter_append, List.filter_append, List.filter_cons_of_neg (by simp [hp]),
    List.filter_cons_of_pos hq]
  simp only [List.flatMap_append, List.flatMap_cons, List.length_append]
  omega

theorem textOf_of_isElement [DecidableEq N] {name : N} (h : doc.isElement name i = true) :
    doc.textOf i = [] := by
  unfold isElement at h
  unfold textOf
  split at h <;> simp_all

theorem isText_of_textOf_ne_nil (h : doc.textOf i ≠ []) : doc.isText i = true := by
  unfold textOf at h
  unfold isText
  split at h <;> simp_all

/-- The text of a node that is no text itself is the text in it. -/
theorem stringValue_of_textOf_eq_nil (h : doc.textOf i = []) :
    doc.stringValue i = (doc.select fun j => i ∈ doc.ancestors j).flatMap doc.textOf := by
  rw [stringValue, select, select]
  simp only [Bool.decide_or]
  generalize List.range doc.nodes.length = l
  induction l with
  | nil => rfl
  | cons j l ih =>
    by_cases hj : i ∈ doc.ancestors j
    · simp [hj, ih]
    · by_cases heq : j = i
      · subst heq
        simp [hj, h, ih]
      · simp [hj, heq, ih]

/-- A node has more text than one in it when some of its text is not in that one. -/
theorem stringValue_length_lt (hj : j = i ∨ i ∈ doc.ancestors j) (hk : i ∈ doc.ancestors k)
    (hkj : k ≠ j) (hout : j ∉ doc.ancestors k) (htext : doc.textOf k ≠ []) :
    (doc.stringValue j).length < (doc.stringValue i).length := by
  refine flatMap_filter_length_lt (fun a _ ha => ?_)
    (List.mem_range.mpr (lt_length_of_mem_ancestors hk)) ?_ ?_ htext
  · rw [decide_eq_true_iff] at ha ⊢
    rcases hj with rfl | hj
    · exact ha
    · rcases ha with rfl | ha
      · exact .inr hj
      · exact .inr (mem_ancestors_trans ha hj)
  · exact decide_eq_false (by simp [hkj, hout])
  · exact decide_eq_true (.inr hk)

end Document

/-! ## Numbers -/

/-- Digits with an optional point among them. -/
def readDecimal (s : Text) : Option ℚ :=
  match Lib.readMantissa 10 s with
  | some (m, []) => some m
  | _ => none

/-- The whole text as an exponent. -/
def readExponent (s : Text) : Option ℤ :=
  let (negative, digits) := Lib.readSign s
  if digits ≠ [] ∧ digits.all Char.isDigit then
    let e : ℤ := Nat.ofDigitChars 10 digits 0
    some (if negative then -e else e)
  else none

/-- A text of the type `xs:double` that is a number, before it is rounded. -/
def readDouble (s : Text) : Option ℚ :=
  let isSpace (c : Char) : Bool := c ∈ [' ', '\t', '\n', '\r']
  let s := ((s.dropWhile isSpace).reverse.dropWhile isSpace).reverse
  let (negative, s) := Lib.readSign s
  let magnitude : Option ℚ :=
    match s.span fun c => c.toLower ≠ 'e' with
    | (m, []) => readDecimal m
    | (m, _ :: e) => (readDecimal m).bind fun m => (readExponent e).map fun e => m * 10 ^ e
  magnitude.map fun m => if negative then -m else m

/-- What `number` makes of a text, written out and read as an `xs:integer`. From a million on, a
number is written with an exponent, which no integer has. -/
def integerOf (s : Text) : Option ℤ :=
  (readDouble s).bind fun q =>
    let magnitude := if q.den = 1 then |q| else Lib.roundMagnitude |q|
    if magnitude.den = 1 ∧ magnitude < 1000000 then
      some (if q < 0 then -magnitude.num else magnitude.num)
    else none

end Sem.XPath
