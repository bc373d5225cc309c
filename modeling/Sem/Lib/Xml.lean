import Mathlib.Data.List.Basic

/-!
# XML as a stream of tokens

A pull parser of XML delivers a document as a list of tokens. `WellNested` is what such a parser
checks of them: every end tag closes the innermost open element, and nothing is left open.
`readElementText` reads the content of an element without children.
-/

namespace Sem.Xml

/-- Character data; a list of characters, so that it can be scanned. -/
abbrev Text := List Char

/-- Texts are compared by a law that has a name of its own. -/
instance lawfulBEqText : LawfulBEq Text := inferInstanceAs (LawfulBEq (List Char))

/-- A statement about the characters of a text is decided on the text, not on all characters. -/
instance (priority := 2000) (cs : Text) (p : Char → Prop) [DecidablePred p] :
    Decidable (∀ c ∈ cs, p c) :=
  List.decidableBAll p cs

/-- Attributes in the order of the tag, values decoded. -/
abbrev Attributes := List (Text × Text)

/-- What a stream reader reports, in order. -/
inductive Token
  | startElement (name : Text) (attrs : Attributes)
  | endElement (name : Text)
  | characters (text : Text)
  | comment (text : Text)
  | processingInstruction (text : Text)
  deriving DecidableEq, Repr

/-- Start and end tags. -/
def Token.isTag : Token → Bool
  | .startElement _ _ | .endElement _ => true
  | _ => false

/-- The part of a qualified name after the prefix. -/
def localName (name : Text) : Text :=
  match name.dropWhile (· ≠ ':') with
  | [] => name
  | _ :: rest => rest

/-- The value of the first attribute called `name`. -/
def attribute? (attrs : Attributes) (name : Text) : Option Text :=
  (attrs.find? (·.1 = name)).map (·.2)

/-- The text up to the end tag of the open element, and the tokens after that tag. Comments and
processing instructions are skipped; a child element is an error. -/
def readElementText : List Token → Option (Text × List Token)
  | [] => none
  | .startElement _ _ :: _ => none
  | .endElement _ :: rest => some ([], rest)
  | .characters text :: rest => (readElementText rest).map fun r => (text ++ r.1, r.2)
  | .comment _ :: rest => readElementText rest
  | .processingInstruction _ :: rest => readElementText rest

/-- The tokens close the elements `opened` (innermost first) and everything they open; an element
that is a `leaf` has no child elements. -/
def WellNested (leaf : Text → Bool) : List Text → List Token → Prop
  | opened, [] => opened = []
  | opened, .startElement name _ :: rest =>
    (∀ parent ∈ opened.head?, leaf parent = false) ∧ WellNested leaf (name :: opened) rest
  | opened, .endElement name :: rest => opened.head? = some name ∧
      WellNested leaf opened.tail rest
  | opened, _ :: rest => WellNested leaf opened rest

instance decidableWellNested (leaf : Text → Bool) :
    ∀ opened tokens, Decidable (WellNested leaf opened tokens)
  | opened, [] => inferInstanceAs (Decidable (opened = []))
  | opened, .startElement n _ :: rest =>
    have := decidableWellNested leaf (n :: opened) rest
    inferInstanceAs (Decidable (_ ∧ _))
  | opened, .endElement _ :: rest =>
    have := decidableWellNested leaf opened.tail rest
    inferInstanceAs (Decidable (_ ∧ _))
  | opened, .characters _ :: rest => decidableWellNested leaf opened rest
  | opened, .comment _ :: rest => decidableWellNested leaf opened rest
  | opened, .processingInstruction _ :: rest => decidableWellNested leaf opened rest

/-- Inside a leaf, `readElementText` reads up to the leaf's end tag. -/
theorem WellNested.readElementText {leaf : Text → Bool} {name : Text} {opened : List Text}
    {tokens : List Token} (h : WellNested leaf (name :: opened) tokens) (hleaf : leaf name) :
    ∃ inner text rest, tokens = inner ++ .endElement name :: rest ∧ (∀ t ∈ inner, t.isTag = false) ∧
      Xml.readElementText tokens = some (text, rest) ∧ WellNested leaf opened rest := by
  induction tokens with
  | nil => cases h
  | cons t rest ih =>
    cases t with
    | startElement n attrs =>
      have := h.1 name rfl
      rw [hleaf] at this
      cases this
    | endElement n =>
      obtain rfl := Option.some.inj h.1
      exact ⟨[], [], rest, rfl, by simp, rfl, h.2⟩
    | characters s =>
      obtain ⟨inner, text, rest', heq, hin, hread, hrest⟩ := ih h
      exact ⟨.characters s :: inner, s ++ text, rest', by rw [heq]; rfl,
        by simpa [Token.isTag] using hin, by simp [Xml.readElementText, hread], hrest⟩
    | comment s =>
      obtain ⟨inner, text, rest', heq, hin, hread, hrest⟩ := ih h
      exact ⟨.comment s :: inner, text, rest', by rw [heq]; rfl,
        by simpa [Token.isTag] using hin, hread, hrest⟩
    | processingInstruction s =>
      obtain ⟨inner, text, rest', heq, hin, hread, hrest⟩ := ih h
      exact ⟨.processingInstruction s :: inner, text, rest', by rw [heq]; rfl,
        by simpa [Token.isTag] using hin, hread, hrest⟩

theorem readElementText_length {tokens rest : List Token} {text : Text}
    (h : readElementText tokens = some (text, rest)) : rest.length < tokens.length := by
  induction tokens generalizing text with
  | nil => cases h
  | cons t ts ih =>
    cases t with
    | startElement name attrs => cases h
    | endElement name =>
      obtain ⟨-, rfl⟩ := Prod.mk.inj (Option.some.inj h)
      exact Nat.lt_succ_self _
    | characters s =>
      obtain ⟨r, hr, heq⟩ := Option.map_eq_some_iff.mp h
      obtain ⟨-, rfl⟩ := Prod.mk.inj heq
      exact Nat.lt_succ_of_lt (ih hr)
    | comment s => exact Nat.lt_succ_of_lt (ih h)
    | processingInstruction s => exact Nat.lt_succ_of_lt (ih h)

/-! ## Matching tags, piece by piece -/

section Pieces

variable {opened : List Text} {rest : List Token}

@[simp] theorem wellNested_startElement {name : Text} {attrs : Attributes} :
    WellNested (fun _ => false) opened (.startElement name attrs :: rest) ↔
      WellNested (fun _ => false) (name :: opened) rest :=
  ⟨fun h => h.2, fun h => ⟨fun _ _ => rfl, h⟩⟩

@[simp] theorem wellNested_endElement {leaf : Text → Bool} {name : Text} :
    WellNested leaf (name :: opened) (.endElement name :: rest) ↔ WellNested leaf opened rest :=
  ⟨fun h => h.2, fun h => ⟨rfl, h⟩⟩

@[simp] theorem wellNested_processingInstruction {leaf : Text → Bool} {text : Text} :
    WellNested leaf opened (.processingInstruction text :: rest) ↔ WellNested leaf opened rest :=
  Iff.rfl

theorem wellNested_of_not_isTag {leaf : Text → Bool} {ts : List Token}
    (h : ∀ t ∈ ts, t.isTag = false) :
    WellNested leaf opened (ts ++ rest) ↔ WellNested leaf opened rest := by
  induction ts with
  | nil => exact Iff.rfl
  | cons t ts ih =>
    have ht := h t (by simp)
    have hts := ih fun u hu => h u (by simp [hu])
    cases t <;> first | exact hts | cases ht

/-- A sequence of pieces each of which closes what it opens. -/
theorem wellNested_flatMap {α : Type*} {leaf : Text → Bool} {xs : List α} {tokens : α → List Token}
    (h : ∀ x ∈ xs, ∀ rest, WellNested leaf opened (tokens x ++ rest) ↔ WellNested leaf opened rest) :
    WellNested leaf opened (xs.flatMap tokens ++ rest) ↔ WellNested leaf opened rest := by
  induction xs with
  | nil => exact Iff.rfl
  | cons x xs ih =>
    rw [List.flatMap_cons, List.append_assoc, h x (by simp), ih fun y hy => h y (by simp [hy])]

end Pieces

end Sem.Xml
