import Mathlib.Logic.Function.Iterate
import Sem.Lib.Memo
import Sem.Lib.Run
import Sem.Lib.Xml

/-!
# The caches of the GraphML parser (`graphmlparser.cpp`)

Five tables remember what the queries have found. The parsed document and the XPath searches in it
are pugixml's.

* `Kept.run`: each query fills its table with what it finds.
* `answer_eq_of_meets`: the answers are those of a fresh parser while no other query with the same
  joined key has been asked, and no data value of an element whose id is the joined key.
* `not_transparent`: an element with such an id.
-/

namespace Sem.Re.Caches

open Xml (Text)
open Lib

universe u

/-- What pugixml reads of a document. A search that is not an XPath expression throws. -/
structure Document (Entity : Type u) where
  /-- The `attr.name` and the `id` of `/graphml/key`, in order. -/
  keys : List (Text × Text)
  /-- The elements `//*[@id]`, in order. -/
  entities : List (Text × Entity)
  attributeValue : Entity → Text → Option Text
  /-- The text of the first node that a search from an element finds. -/
  selectChildValue : Entity → Text → Except Unit (Option Text)
  /-- The id of `../..`, empty if there is none. -/
  grandparentId : Entity → Text
  /-- The id of the first node that a search in the document finds. -/
  selectId : Text → Except Unit (Option Text)

/-- `GraphmlParser`, without the document. -/
structure Parser where
  attributeMap : Table Text Text
  attrLookup : Table Text Text := ∅
  dataLookup : Table Text Text := ∅
  parentIdLookup : Table Text Text := ∅
  sharedParentMap : Table Text Text := ∅
  parentHeightDepthMap : Table Text ℤ := ∅

/-- The two parts of a key with `|` between them. -/
def joined (q : Text × Text) : Text := q.1 ++ '|' :: q.2

/-- The search for the datum of a key. -/
def dataSearch (keyId : Text) : Text := "data[@key='".toList ++ keyId ++ "']".toList

/-- The search for the nearest node that both are in. -/
def sharedParentSearch (leftChildId rightChildId : Text) : Text :=
  ".//node[@id=\"".toList ++ leftChildId ++
    "\"]/ancestor::* [count(. | .//node[@id=\"".toList ++ rightChildId ++
    "\"]/ancestor::*) = count(.//node[@id=\"".toList ++ rightChildId ++
    "\"]/ancestor::*)][1]/..".toList

namespace Document

variable {Entity : Type u} (doc : Document Entity)

/-- `id_lookup_`; of elements with one id the last is found. -/
def idLookup : Table Text Entity := doc.entities.foldl (fun t e => t.insert e.1 e.2) ∅

/-- The constructor. -/
def parser : Parser where
  attributeMap := doc.keys.foldl (fun t key => t.insert key.1 key.2) ∅

end Document

namespace Parser

variable {Entity : Type u} (doc : Document Entity) (p : Parser)

/-- `GetAttribute`: an attribute that has been found is kept. -/
def getAttribute (id attributeName : Text) : Text × Parser :=
  match p.attrLookup.lookup (joined (id, attributeName)) with
  | some out => (out, p)
  | none =>
    match (doc.idLookup.lookup id).bind (doc.attributeValue · attributeName) with
    | some out =>
      (out, { p with attrLookup := p.attrLookup.insert (joined (id, attributeName)) out })
    | none => ([], p)

/-- `attribute_map_[key_name]` -/
def keyId (keyName : Text) : Text × Parser :=
  match p.attributeMap.lookup keyName with
  | some keyId => (keyId, p)
  | none => ([], { p with attributeMap := p.attributeMap.insert keyName [] })

/-- What is found is stored under the id alone. -/
def getDataValue (id keyName : Text) : Except Unit Text × Parser :=
  match p.dataLookup.lookup (joined (id, keyName)) with
  | some out => (.ok out, p)
  | none =>
    match doc.idLookup.lookup id with
    | none => (.ok [], p)
    | some entity =>
      let (keyId, p) := p.keyId keyName
      match doc.selectChildValue entity (dataSearch keyId) with
      | .error e => (.error e, p)
      | .ok none => (.ok [], p)
      | .ok (some out) => (.ok out, { p with dataLookup := p.dataLookup.insert id out })

/-- `GetParentNode`, of depth one: a parent that has been found is kept. -/
def getParentNode (id : Text) : Text × Parser :=
  match p.parentIdLookup.lookup id with
  | some out => (out, p)
  | none =>
    match doc.idLookup.lookup id with
    | none => ([], p)
    | some entity =>
      (doc.grandparentId entity,
        { p with parentIdLookup := p.parentIdLookup.insert id (doc.grandparentId entity) })

/-- `GetParentNode(id, depth)` -/
def getParentNodeAt (p : Parser) (id : Text) : ℕ → Text × Parser
  | 0 => (id, p)
  | depth + 1 =>
    let (parentId, p) := p.getParentNode doc id
    getParentNodeAt p parentId depth

/-- `GetSharedParent`. -/
def getSharedParent (leftChildId rightChildId : Text) : Except Unit Text × Parser :=
  let key := joined (leftChildId, rightChildId)
  match p.sharedParentMap.lookup key with
  | some out => (.ok out, p)
  | none =>
    match doc.selectId (sharedParentSearch leftChildId rightChildId) with
    | .error e => (.error e, p)
    | .ok out =>
      (.ok (out.getD []), { p with sharedParentMap := p.sharedParentMap.insert key (out.getD []) })

/-- The loop of `GetHeightToParent`, for so many turns. -/
def heightLoop (parentId : Text) : ℕ → Parser → Text → ℤ → Option (ℤ × Parser)
  | 0, _, _, _ => none
  | turns + 1, p, currentId, depth =>
    if currentId = [] then some (-1, p)
    else
      let (currentId, p) := p.getParentNode doc currentId
      if currentId = parentId then some (if currentId = [] then -1 else depth + 1, p)
      else heightLoop parentId turns p currentId (depth + 1)

/-- `GetHeightToParent`; the loop does not end where ids repeat on the way up. -/
def getHeightToParent (turns : ℕ) (childId parentId : Text) : Option (ℤ × Parser) :=
  match p.parentHeightDepthMap.lookup (joined (childId, parentId)) with
  | some depth => some (depth, p)
  | none =>
    (heightLoop doc parentId turns p childId 0).map fun (depth, p) =>
      (depth, { p with
        parentHeightDepthMap := p.parentHeightDepthMap.insert (joined (childId, parentId)) depth })

end Parser

/-! ## Queries -/

/-- The queries of a parser. -/
inductive Query
  | getAttribute (id attributeName : Text)
  | getDataValue (id keyName : Text)
  | getParentNode (id : Text) (depth : ℕ)
  | getSharedParent (leftChildId rightChildId : Text)
  | getHeightToParent (childId parentId : Text)
  deriving DecidableEq, Repr

/-- What a query returns. -/
inductive Answer
  | text (out : Text)
  | depth (depth : ℤ)
  /-- The exception of pugixml. -/
  | threw
  deriving DecidableEq, Repr

/-- The answer of a search that may throw. -/
def Answer.ofExcept : Except Unit Text → Answer
  | .ok out => .text out
  | .error _ => .threw

/-- A parser with the queries that it has answered. -/
structure State where
  parser : Parser
  asked : List Query := []

section

variable {Entity : Type u} (doc : Document Entity) (turns : ℕ)

/-- The answer, if it comes within so many turns of the loop. -/
def Query.run (p : Parser) : Query → Option (Answer × Parser)
  | getAttribute id attributeName =>
    let (out, p) := p.getAttribute doc id attributeName
    some (.text out, p)
  | getDataValue id keyName =>
    let (out, p) := p.getDataValue doc id keyName
    some (.ofExcept out, p)
  | getParentNode id depth =>
    let (out, p) := p.getParentNodeAt doc id depth
    some (.text out, p)
  | getSharedParent leftChildId rightChildId =>
    let (out, p) := p.getSharedParent doc leftChildId rightChildId
    some (.ofExcept out, p)
  | getHeightToParent childId parentId =>
    (p.getHeightToParent doc turns childId parentId).map fun (depth, p) => (.depth depth, p)

/-- The answer in the state that the parser is in. -/
def Query.answer (p : Parser) (q : Query) : Option Answer := (q.run doc turns p).map (·.1)

/-- One query, noted down. -/
def State.step (s : State) (q : Query) : Option State :=
  (q.run doc turns s.parser).map fun (_, p) => ⟨p, q :: s.asked⟩

/-- A parser of the document with its queries. -/
def parserRuns : Lts State Query := .ofFun ⟨doc.parser, []⟩ (State.step doc turns)

end

/-- Each answer in each run is the one of a fresh parser. -/
def Transparent : Prop :=
  ∀ {Entity : Type} (doc : Document Entity) (turns : ℕ) (s : State),
    (parserRuns doc turns).Reach s → ∀ q : Query,
      q.answer doc turns s.parser = q.answer doc turns doc.parser

/-- No other query for the same table with the same key has been asked; the table of the data
values has the ids for keys. -/
def Meets (s : State) : Query → Prop
  | .getAttribute id attributeName => ∀ id' attributeName',
      .getAttribute id' attributeName' ∈ s.asked →
        joined (id', attributeName') = joined (id, attributeName) →
          (id', attributeName') = (id, attributeName)
  | .getDataValue id keyName => ∀ id' keyName', .getDataValue id' keyName' ∈ s.asked →
      id' ≠ joined (id, keyName)
  | .getParentNode .. => True
  | .getSharedParent leftChildId rightChildId => ∀ leftChildId' rightChildId',
      .getSharedParent leftChildId' rightChildId' ∈ s.asked →
        joined (leftChildId', rightChildId') = joined (leftChildId, rightChildId) →
          (leftChildId', rightChildId') = (leftChildId, rightChildId)
  | .getHeightToParent childId parentId => ∀ childId' parentId',
      .getHeightToParent childId' parentId' ∈ s.asked →
        joined (childId', parentId') = joined (childId, parentId) →
          (childId', parentId') = (childId, parentId)

/-! ## The answers of the document -/

namespace Document

variable {Entity : Type u} (doc : Document Entity) (turns : ℕ)

/-- The value of an attribute, if there is one. -/
def attributeOf (q : Text × Text) : Option Text :=
  (doc.idLookup.lookup q.1).bind (doc.attributeValue · q.2)

/-- The parent, without the cache. -/
def parentOf (id : Text) : Text := ((doc.idLookup.lookup id).map doc.grandparentId).getD []

/-- The shared parent, without the cache. -/
def sharedParentOf (q : Text × Text) : Except Unit Text :=
  (doc.selectId (sharedParentSearch q.1 q.2)).map (·.getD [])

/-- The value of a datum, without the cache. -/
def dataValueOf (q : Text × Text) : Except Unit Text :=
  match doc.idLookup.lookup q.1 with
  | none => .ok []
  | some entity => (doc.selectChildValue entity
      (dataSearch ((doc.parser.attributeMap.lookup q.2).getD []))).map (·.getD [])

/-- The height, counted from `depth`. -/
def heightFrom (parentId : Text) : ℕ → Text → ℤ → Option ℤ
  | 0, _, _ => none
  | turns + 1, currentId, depth =>
    if currentId = [] then some (-1)
    else if doc.parentOf currentId = parentId then
      some (if doc.parentOf currentId = [] then -1 else depth + 1)
    else heightFrom parentId turns (doc.parentOf currentId) (depth + 1)

/-- The height, without the cache. -/
def heightOf (q : Text × Text) : Option ℤ := doc.heightFrom q.2 turns q.1 0

/-- What a fresh parser answers. -/
def answerTo : Query → Option Answer
  | .getAttribute id attributeName => some (.text ((doc.attributeOf (id, attributeName)).getD []))
  | .getDataValue id keyName => some (.ofExcept (doc.dataValueOf (id, keyName)))
  | .getParentNode id depth => some (.text (doc.parentOf^[depth] id))
  | .getSharedParent leftChildId rightChildId =>
    some (.ofExcept (doc.sharedParentOf (leftChildId, rightChildId)))
  | .getHeightToParent childId parentId => (doc.heightOf turns (childId, parentId)).map .depth

end Document

/-! ## What the tables remember -/

/-- Everything that is stored is the answer to a query that was asked. -/
structure Kept {Entity : Type u} (doc : Document Entity) (turns : ℕ) (s : State) : Prop where
  attributeMap : ∀ keyName, (s.parser.attributeMap.lookup keyName).getD [] =
    (doc.parser.attributeMap.lookup keyName).getD []
  attribute_ : Remembers (fun q => .getAttribute q.1 q.2 ∈ s.asked) joined doc.attributeOf
    s.parser.attrLookup
  dataValue : Remembers (fun q : Text × Text => .getDataValue q.1 q.2 ∈ s.asked) (·.1)
    (fun q => (doc.dataValueOf q).toOption) s.parser.dataLookup
  parent : Remembers (fun _ : Text => True) id (fun id => some (doc.parentOf id))
    s.parser.parentIdLookup
  sharedParent : Remembers (fun q => .getSharedParent q.1 q.2 ∈ s.asked) joined
    (fun q => (doc.sharedParentOf q).toOption) s.parser.sharedParentMap
  height : Remembers (fun q => .getHeightToParent q.1 q.2 ∈ s.asked) joined (doc.heightOf turns)
    s.parser.parentHeightDepthMap

variable {Entity : Type u} {doc : Document Entity} {turns : ℕ} {s : State} {p : Parser}

theorem Kept.fresh : Kept doc turns ⟨doc.parser, []⟩ :=
  ⟨fun _ => rfl, .empty, .empty, .empty, .empty, .empty⟩

/-- One more query. -/
theorem Kept.ask (h : Kept doc turns s) (q : Query) : Kept doc turns ⟨s.parser, q :: s.asked⟩ :=
  ⟨h.attributeMap, h.attribute_.mono fun _ => List.mem_cons_of_mem q,
    h.dataValue.mono fun _ => List.mem_cons_of_mem q, h.parent,
    h.sharedParent.mono fun _ => List.mem_cons_of_mem q,
    h.height.mono fun _ => List.mem_cons_of_mem q⟩

namespace Kept

variable {asked : List Query}

/-- An unknown name is stored with an empty id, which is what it has. -/
theorem keyId (h : Kept doc turns ⟨p, asked⟩) (keyName : Text) :
    ∃ p', p.keyId keyName = ((doc.parser.attributeMap.lookup keyName).getD [], p') ∧
      Kept doc turns ⟨p', asked⟩ := by
  rw [Parser.keyId, ← h.attributeMap keyName]
  cases hlookup : p.attributeMap.lookup keyName with
  | some keyId => exact ⟨p, rfl, h⟩
  | none =>
    refine ⟨_, rfl, fun keyName' => ?_, h.attribute_, h.dataValue, h.parent, h.sharedParent,
      h.height⟩
    rw [← h.attributeMap keyName']
    simp only [Table.lookup_insert]
    split
    · rename_i heq
      rw [heq, hlookup]
      rfl
    · rfl

theorem getParentNode (h : Kept doc turns ⟨p, asked⟩) (id : Text) :
    ∃ p', p.getParentNode doc id = (doc.parentOf id, p') ∧ Kept doc turns ⟨p', asked⟩ := by
  rw [Parser.getParentNode]
  cases hlookup : p.parentIdLookup.lookup id with
  | some out =>
    have hout := h.parent.eq_of_lookup hlookup fun _ _ heq => heq
    exact ⟨p, by rw [Option.some.inj hout], h⟩
  | none =>
    cases hentity : doc.idLookup.lookup id with
    | none => exact ⟨p, by rw [Document.parentOf, hentity]; rfl, h⟩
    | some entity =>
      have hparent : doc.parentOf id = doc.grandparentId entity := by
        rw [Document.parentOf, hentity]
        rfl
      refine ⟨{ p with parentIdLookup := p.parentIdLookup.insert id (doc.grandparentId entity) },
        by rw [hparent], h.attributeMap, h.attribute_, h.dataValue, ?_, h.sharedParent, h.height⟩
      exact h.parent.insert trivial (congrArg some hparent)

theorem getParentNodeAt (h : Kept doc turns ⟨p, asked⟩) (id : Text) (depth : ℕ) :
    ∃ p', p.getParentNodeAt doc id depth = (doc.parentOf^[depth] id, p') ∧
      Kept doc turns ⟨p', asked⟩ := by
  induction depth generalizing p id with
  | zero => exact ⟨p, rfl, h⟩
  | succ depth ih =>
    obtain ⟨p', hparent, h'⟩ := h.getParentNode id
    rw [Parser.getParentNodeAt, hparent]
    exact ih h' (doc.parentOf id)

theorem heightLoop (h : Kept doc turns ⟨p, asked⟩) (parentId : Text) (n : ℕ) (currentId : Text)
    (depth : ℤ) :
    (Parser.heightLoop doc parentId n p currentId depth).map (·.1) =
        doc.heightFrom parentId n currentId depth ∧
      ∀ d p', Parser.heightLoop doc parentId n p currentId depth = some (d, p') →
        Kept doc turns ⟨p', asked⟩ := by
  induction n generalizing p currentId depth with
  | zero => exact ⟨rfl, fun d p' hnone => nomatch hnone⟩
  | succ n ih =>
    obtain ⟨p', hparent, h'⟩ := h.getParentNode currentId
    rw [Parser.heightLoop, Document.heightFrom, hparent]
    simp only
    split
    · refine ⟨rfl, fun d p'' heq => ?_⟩
      obtain ⟨-, rfl⟩ := Prod.mk.inj (Option.some.inj heq)
      exact h
    · split
      · refine ⟨rfl, fun d p'' heq => ?_⟩
        obtain ⟨-, rfl⟩ := Prod.mk.inj (Option.some.inj heq)
        exact h'
      · exact ih h' (doc.parentOf currentId) (depth + 1)

end Kept

/-! ### The queries -/

theorem eq_ok_of_toOption {E A : Type*} {x : Except E A} {a : A} (h : x.toOption = some a) :
    x = .ok a := by
  cases x with
  | error e => cases h
  | ok b => rw [Option.some.inj h]

/-- What a query answers and keeps. -/
structure Answered (doc : Document Entity) (turns : ℕ) (s : State) (q : Query) : Prop where
  answer : q.answer doc turns s.parser = doc.answerTo turns q
  kept : ∀ a p, q.run doc turns s.parser = some (a, p) → Kept doc turns ⟨p, q :: s.asked⟩

/-- A query with one result. -/
theorem Answered.of_run {q : Query} {a : Answer} (hrun : q.run doc turns s.parser = some (a, p))
    (ha : doc.answerTo turns q = some a) (hkept : Kept doc turns ⟨p, q :: s.asked⟩) :
    Answered doc turns s q := by
  refine ⟨by rw [Query.answer, hrun, ha]; rfl, fun a' p' heq => ?_⟩
  obtain ⟨-, rfl⟩ := Prod.mk.inj (Option.some.inj (hrun.symm.trans heq))
  exact hkept

namespace Kept

theorem answered_getAttribute (h : Kept doc turns s) {id attributeName : Text}
    (hmeets : Meets s (.getAttribute id attributeName)) :
    Answered doc turns s (.getAttribute id attributeName) := by
  have hnext := h.ask (.getAttribute id attributeName)
  cases hlookup : s.parser.attrLookup.lookup (joined (id, attributeName)) with
  | some out =>
    have hout := h.attribute_.eq_of_lookup hlookup fun q' => hmeets q'.1 q'.2
    refine .of_run (by rw [Query.run, Parser.getAttribute, hlookup]) ?_ hnext
    rw [Document.answerTo, hout, Option.getD_some]
  | none =>
    cases hout : doc.attributeOf (id, attributeName) with
    | none =>
      refine .of_run (a := .text []) (p := s.parser) ?_ (by rw [Document.answerTo, hout]; rfl) hnext
      rw [Document.attributeOf] at hout
      rw [Query.run, Parser.getAttribute, hlookup]
      simp only [hout]
    | some out =>
      refine .of_run (a := .text out) (p := { s.parser with
        attrLookup := s.parser.attrLookup.insert (joined (id, attributeName)) out }) ?_
        (by rw [Document.answerTo, hout]; rfl) ?_
      · rw [Document.attributeOf] at hout
        rw [Query.run, Parser.getAttribute, hlookup]
        simp only [hout]
      · exact ⟨hnext.attributeMap, hnext.attribute_.insert List.mem_cons_self hout,
          hnext.dataValue, hnext.parent, hnext.sharedParent, hnext.height⟩

/-- Nothing is found in the table of the data values. -/
theorem answered_getDataValue (h : Kept doc turns s) {id keyName : Text}
    (hmeets : Meets s (.getDataValue id keyName)) :
    Answered doc turns s (.getDataValue id keyName) := by
  have hnext := h.ask (.getDataValue id keyName)
  have hlookup : s.parser.dataLookup.lookup (joined (id, keyName)) = none :=
    h.dataValue.lookup_eq_none fun q hq => hmeets q.1 q.2 hq
  obtain ⟨p, hkeyId, hp⟩ := hnext.keyId keyName
  have hof : doc.dataValueOf (id, keyName) = match doc.idLookup.lookup id with
    | none => .ok []
    | some entity => (doc.selectChildValue entity
        (dataSearch ((doc.parser.attributeMap.lookup keyName).getD []))).map (·.getD []) := rfl
  cases hentity : doc.idLookup.lookup id with
  | none =>
    rw [hentity] at hof
    refine .of_run (a := .text []) (p := s.parser) ?_ (by rw [Document.answerTo, hof]; rfl) hnext
    rw [Query.run, Parser.getDataValue, hlookup]
    simp only [hentity]
    rfl
  | some entity =>
    rw [hentity] at hof
    cases hsearch : doc.selectChildValue entity
        (dataSearch ((doc.parser.attributeMap.lookup keyName).getD [])) with
    | error e =>
      simp only [hsearch] at hof
      refine .of_run (a := .threw) (p := p) ?_ (by rw [Document.answerTo, hof]; rfl) hp
      rw [Query.run, Parser.getDataValue, hlookup]
      simp only [hentity, hkeyId, hsearch]
      rfl
    | ok out =>
      simp only [hsearch] at hof
      cases out with
      | none =>
        refine .of_run (a := .text []) (p := p) ?_ (by rw [Document.answerTo, hof]; rfl) hp
        rw [Query.run, Parser.getDataValue, hlookup]
        simp only [hentity, hkeyId, hsearch]
        rfl
      | some out =>
        refine .of_run (a := .text out) (p := { p with dataLookup := p.dataLookup.insert id out })
          ?_ (by rw [Document.answerTo, hof]; rfl) ?_
        · rw [Query.run, Parser.getDataValue, hlookup]
          simp only [hentity, hkeyId, hsearch]
          rfl
        · refine ⟨hp.attributeMap, hp.attribute_, ?_, hp.parent, hp.sharedParent, hp.height⟩
          exact hp.dataValue.insert (q := (id, keyName)) List.mem_cons_self (by rw [hof]; rfl)

theorem answered_getParentNode (h : Kept doc turns s) (id : Text) (depth : ℕ) :
    Answered doc turns s (.getParentNode id depth) := by
  have hnext := h.ask (.getParentNode id depth)
  obtain ⟨p, hparent, hkept⟩ := hnext.getParentNodeAt id depth
  exact .of_run (by rw [Query.run, hparent]) rfl hkept

theorem answered_getSharedParent (h : Kept doc turns s) {leftChildId rightChildId : Text}
    (hmeets : Meets s (.getSharedParent leftChildId rightChildId)) :
    Answered doc turns s (.getSharedParent leftChildId rightChildId) := by
  have hnext := h.ask (.getSharedParent leftChildId rightChildId)
  have hof : doc.sharedParentOf (leftChildId, rightChildId) =
    (doc.selectId (sharedParentSearch leftChildId rightChildId)).map (·.getD []) := rfl
  cases hlookup : s.parser.sharedParentMap.lookup (joined (leftChildId, rightChildId)) with
  | some out =>
    have hout := h.sharedParent.eq_of_lookup hlookup fun q' => hmeets q'.1 q'.2
    have hok : doc.sharedParentOf (leftChildId, rightChildId) = .ok out := eq_ok_of_toOption hout
    refine .of_run (a := .text out) (p := s.parser) ?_ ?_ hnext
    · rw [Query.run, Parser.getSharedParent]
      simp only [hlookup]
      rfl
    · rw [Document.answerTo, hok]
      rfl
  | none =>
    cases hsearch : doc.selectId (sharedParentSearch leftChildId rightChildId) with
    | error e =>
      rw [hsearch] at hof
      refine .of_run (a := .threw) (p := s.parser) ?_ (by rw [Document.answerTo, hof]; rfl) hnext
      rw [Query.run, Parser.getSharedParent]
      simp only [hlookup, hsearch]
      rfl
    | ok out =>
      rw [hsearch] at hof
      refine .of_run (a := .text (out.getD [])) (p := { s.parser with
        sharedParentMap := s.parser.sharedParentMap.insert (joined (leftChildId, rightChildId))
          (out.getD []) }) ?_ (by rw [Document.answerTo, hof]; rfl) ?_
      · rw [Query.run, Parser.getSharedParent]
        simp only [hlookup, hsearch]
        rfl
      · refine ⟨hnext.attributeMap, hnext.attribute_, hnext.dataValue, hnext.parent, ?_,
          hnext.height⟩
        exact hnext.sharedParent.insert List.mem_cons_self (by rw [hof]; rfl)

theorem answered_getHeightToParent (h : Kept doc turns s) {childId parentId : Text}
    (hmeets : Meets s (.getHeightToParent childId parentId)) :
    Answered doc turns s (.getHeightToParent childId parentId) := by
  have hnext := h.ask (.getHeightToParent childId parentId)
  cases hlookup : s.parser.parentHeightDepthMap.lookup (joined (childId, parentId)) with
  | some depth =>
    have hdepth := h.height.eq_of_lookup hlookup fun q' => hmeets q'.1 q'.2
    refine .of_run (by rw [Query.run, Parser.getHeightToParent, hlookup]; rfl) ?_ hnext
    rw [Document.answerTo, hdepth]
    rfl
  | none =>
    obtain ⟨hanswer, hloop⟩ := hnext.heightLoop parentId turns childId 0
    have hrun : (Query.getHeightToParent childId parentId).run doc turns s.parser =
        (Parser.heightLoop doc parentId turns s.parser childId 0).map fun (depth, p) =>
          (.depth depth, { p with parentHeightDepthMap :=
            p.parentHeightDepthMap.insert (joined (childId, parentId)) depth }) := by
      rw [Query.run, Parser.getHeightToParent, hlookup, Option.map_map]
      rfl
    constructor
    · rw [Query.answer, hrun, Document.answerTo, Document.heightOf, ← hanswer, Option.map_map,
        Option.map_map]
      rfl
    · intro a p heq
      rw [hrun] at heq
      obtain ⟨⟨depth, p'⟩, hp', heq⟩ := Option.map_eq_some_iff.mp heq
      obtain ⟨-, rfl⟩ := Prod.mk.inj heq
      have hkept := hloop depth p' hp'
      refine ⟨hkept.attributeMap, hkept.attribute_, hkept.dataValue, hkept.parent,
        hkept.sharedParent, ?_⟩
      refine hkept.height.insert List.mem_cons_self ?_
      rw [Document.heightOf, ← hanswer, hp']
      rfl

/-- **A query that meets the condition** answers as the document does, and is remembered. -/
theorem run (h : Kept doc turns s) {q : Query} (hmeets : Meets s q) : Answered doc turns s q := by
  cases q with
  | getAttribute => exact h.answered_getAttribute hmeets
  | getDataValue => exact h.answered_getDataValue hmeets
  | getParentNode id depth => exact h.answered_getParentNode id depth
  | getSharedParent => exact h.answered_getSharedParent hmeets
  | getHeightToParent => exact h.answered_getHeightToParent hmeets

end Kept

/-! ## Runs -/

/-- Nothing has been asked of a fresh parser. -/
theorem meets_fresh (q : Query) : Meets ⟨doc.parser, []⟩ q := by
  cases q with
  | getParentNode => trivial
  | _ => exact fun _ _ hmem => nomatch hmem

theorem kept_of_reachBy (hs : (parserRuns doc turns).ReachBy Meets s) : Kept doc turns s := by
  refine Lts.InductiveBy.reach ⟨?_, ?_⟩ hs
  · rintro s rfl
    exact Kept.fresh
  · rintro s q s' hkept hmeets hstep
    obtain ⟨⟨a, p⟩, hrun, rfl⟩ := Option.map_eq_some_iff.mp hstep
    exact (hkept.run hmeets).kept a p hrun

/-- **The caches are transparent** to a query while no other one for its table with its key has been
asked. -/
theorem answer_eq_of_meets (hs : (parserRuns doc turns).ReachBy Meets s) {q : Query}
    (hmeets : Meets s q) : q.answer doc turns s.parser = q.answer doc turns doc.parser := by
  have hfresh : Answered doc turns ⟨doc.parser, []⟩ q := Kept.fresh.run (meets_fresh q)
  rw [((kept_of_reachBy hs).run hmeets).answer, hfresh.answer]

/-! ## Two elements -/

/-- The first has a kind and the second a label. -/
def twoElements : Document Bool where
  keys := [("kind".toList, ['k']), ("label".toList, ['l'])]
  entities := [("a|label".toList, false), ("a".toList, true)]
  attributeValue e name :=
    if name = "id".toList then some (if e then "a".toList else "a|label".toList) else none
  selectChildValue e search :=
    .ok (if search = dataSearch (if e then ['l'] else ['k']) then some (if e then ['y'] else ['x'])
      else none)
  grandparentId _ := []
  selectId _ := .ok none

/-- The label of the second, asked twice after two other queries. -/
theorem answer_eq_of_meets_label : ∃ s : State,
    s.asked = [.getDataValue "a".toList "label".toList, .getParentNode "a".toList 1,
      .getDataValue "a".toList "kind".toList] ∧
    (Query.getDataValue "a".toList "label".toList).answer twoElements 3 s.parser =
      (Query.getDataValue "a".toList "label".toList).answer twoElements 3 twoElements.parser := by
  have hempty : (parserRuns twoElements 3).ReachBy Meets _ := .init rfl
  have hkind := hempty.step (Query.getDataValue "a".toList "kind".toList) (meets_fresh _) rfl
  have hparent := hkind.step (Query.getParentNode "a".toList 1) trivial rfl
  have hmeets : ∀ id' keyName', .getDataValue id' keyName' ∈
      [Query.getDataValue "a".toList "label".toList, .getParentNode "a".toList 1,
        .getDataValue "a".toList "kind".toList] → id' ≠ joined ("a".toList, "label".toList) := by
    intro id' keyName' hmem
    have hid : id' = "a".toList := by
      simp only [List.mem_cons, List.not_mem_nil, or_false, Query.getDataValue.injEq,
        reduceCtorEq, false_or] at hmem
      exact hmem.elim And.left And.left
    subst hid
    decide
  have hlabel := hparent.step (Query.getDataValue "a".toList "label".toList)
    (fun id' keyName' hmem => hmeets id' keyName' (List.mem_cons_of_mem _ hmem)) rfl
  exact ⟨_, rfl, answer_eq_of_meets hlabel hmeets⟩

/-- The kind of the first element is taken for the label of the second. -/
theorem not_transparent : ¬ Transparent := by
  intro h
  have hempty : (parserRuns twoElements 3).Reach _ := .init rfl
  have hone := hempty.next (Query.getDataValue "a|label".toList "kind".toList) rfl
  have heq := h twoElements 3 _ hone (.getDataValue "a".toList "label".toList)
  exact absurd heq (by decide)

end Sem.Re.Caches
