import Sem.Medea.GraphMLImport

/-!
# The cursor of `importGraphML`

What the cursor should be is a property of the document alone: `Nesting` numbers the `node` and
`edge` elements in the order of their start tags, which is the order in which the loop constructs
their `TempEntity`s, and keeps the stack of open elements. The cursor should be the number of the
innermost open one.

* `CursorInv`: the invariant that ties the loop's state to the nesting.
* `importStep_cursorInv`: an iteration keeps it, unless it reads the start tag of an element whose
  id was read before.
* `cursorOk_iff`: the cursor is right throughout exactly when no two elements have the same id.
-/

namespace Sem.Medea

open Xml (Text Token Attributes WellNested)

/-! ## The open elements of a document -/

/-- A `node` or an `edge` tag. -/
def isEntityTag (name : Text) : Bool := tagKind name = .node || tagKind name = .edge

/-- The open tags, innermost first, with the numbers of the entities among them, and the number of
the next entity. -/
structure Nesting where
  opened : List (Text × Option Nat) := []
  next : Nat := 1

namespace Nesting

/-- The nesting after one more token. -/
def read (d : Nesting) : Token → Nesting
  | .startElement name _ =>
    if isEntityTag name then { opened := (name, some d.next) :: d.opened, next := d.next + 1 }
    else { d with opened := (name, none) :: d.opened }
  | .endElement _ => { d with opened := d.opened.tail }
  | _ => d

/-- The open entities, innermost first. -/
def entities (d : Nesting) : List Nat := d.opened.filterMap (·.2)

/-- The innermost open entity, or the root. -/
def innermost (d : Nesting) : Nat := d.entities.headD 0

theorem read_of_not_isTag {t : Token} (d : Nesting) (h : t.isTag = false) : d.read t = d := by
  cases t <;> first | rfl | cases h

/-- Characters leave the nesting alone. -/
theorem foldl_read_of_not_isTag {ts : List Token} (h : ∀ t ∈ ts, t.isTag = false) (d : Nesting) :
    ts.foldl read d = d := by
  induction ts with
  | nil => rfl
  | cons t ts ih =>
    rw [List.foldl_cons, read_of_not_isTag d (h t (by simp))]
    exact ih fun u hu => h u (by simp [hu])

theorem next_le_foldl_read (ts : List Token) (d : Nesting) :
    d.next ≤ (ts.foldl read d).next := by
  induction ts generalizing d with
  | nil => exact Nat.le_refl _
  | cons t ts ih =>
    refine Nat.le_trans ?_ (ih (d.read t))
    cases t with
    | startElement name attrs =>
      simp only [read]
      split
      · exact Nat.le_succ _
      · exact Nat.le_refl _
    | _ => exact Nat.le_refl _

end Nesting

/-- The nesting after a prefix of a document. -/
def nesting (consumed : List Token) : Nesting := consumed.foldl Nesting.read {}

/-- The nesting is read token by token. -/
theorem nesting_append (consumed ts : List Token) :
    nesting (consumed ++ ts) = ts.foldl Nesting.read (nesting consumed) :=
  List.foldl_append ..

/-- The ids of the `node` and `edge` elements; a missing id reads as the empty text. -/
def elementIds (tokens : List Token) : List Text :=
  tokens.filterMap fun
    | .startElement name attrs =>
      if isEntityTag name then some (getXMLAttribute attrs "id".toList) else none
    | _ => none

theorem elementIds_append (ts us : List Token) :
    elementIds (ts ++ us) = elementIds ts ++ elementIds us :=
  List.filterMap_append ..

theorem elementIds_of_not_isTag {ts : List Token} (h : ∀ t ∈ ts, t.isTag = false) :
    elementIds ts = [] := by
  refine List.filterMap_eq_nil_iff.mpr fun t ht => ?_
  have := h t ht
  cases t <;> first | rfl | cases this

/-- The rest of a `data` element. -/
theorem elementIds_endElement {ts : List Token} {name : Text} (h : ∀ t ∈ ts, t.isTag = false) :
    elementIds (ts ++ [.endElement name]) = [] := by
  rw [elementIds_append, elementIds_of_not_isTag h]
  rfl

theorem elementIds_singleton_nodup (t : Token) : (elementIds [t]).Nodup := by
  cases t with
  | startElement name attrs =>
    simp only [elementIds, List.filterMap_cons, List.filterMap_nil]
    split <;> simp
  | _ => exact List.nodup_nil

/-! ## The property -/

/-- What a text is stored as under the name of its key; a `medea_version` that is none is not. -/
def storedValue (env : ImportEnv) (keyName text : Text) : Option Text :=
  if keyName = KeyName.uuid then some (env.getUUIDOfValue text)
  else if keyName = KeyName.medeaVersion then ImportState.importedVersion env text
  else some text

/-- The element was reported as an error and changed no entity. -/
def Reported (s s' : ImportState) : Prop :=
  s'.entities = s.entities ∧ s'.errorCount = s.errorCount + 1

/-- A `data` element put its text under the name of its key into the entity `p`, and into no other.
It is reported if its key was not declared or its `medea_version` is none. -/
def AttachesTo (env : ImportEnv) (p : Nat) (attrs : Attributes) (rest : List Token)
    (s s' : ImportState) : Prop :=
  match s.keyHash.lookup (getXMLAttribute attrs "key".toList) with
  | none => Reported s s'
  | some keyName => ∃ text after, Xml.readElementText rest = some (text, after) ∧
    match storedValue env keyName text with
    | none => Reported s s'
    | some value => s'.entities = s.entities.modify p (·.addData keyName value) ∧
        s'.errorCount = s.errorCount

/-- The cursor follows the document: at every iteration it is the innermost open entity (hence not
null), data go to the element around them, the loop never gets stuck, and at the end the cursor is
back at the root. -/
structure CursorOk (env : ImportEnv) (document : List Token) : Prop where
  cursor : ∀ consumed c, (importLts env document).Reach c → consumed ++ c.rest = document →
    c.state.current = some (nesting consumed).innermost
  data : ∀ consumed name attrs rest c c', (importLts env document).Reach c →
    consumed ++ c.rest = document → c.rest = .startElement name attrs :: rest →
    tagKind name = .data → importStep env c = some c' →
    AttachesTo env (nesting consumed).innermost attrs rest c.state c'.state
  progress : ∀ c, (importLts env document).Reach c → c.rest ≠ [] → ∃ c', importStep env c = some c'
  complete : ∃ c, (importLts env document).Reach c ∧ c.rest = [] ∧ c.state.current = some 0

/-! ## The invariant -/

/-- The parents of the entities constructed so far. -/
def ImportState.parents (s : ImportState) : List (Option Nat) := s.entities.map (·.parent)

/-- Each open entity's parent is the next open one, and the root's child is outermost. -/
def ParentChain (parents : List (Option Nat)) : List Nat → Prop
  | [] => True
  | e :: stack => parents[e]? = some (some (stack.headD 0)) ∧ ParentChain parents stack

/-- New entities do not change the parents of the old ones. -/
theorem ParentChain.append {parents more : List (Option Nat)} {stack : List Nat}
    (h : ParentChain parents stack) : ParentChain (parents ++ more) stack := by
  induction stack with
  | nil => trivial
  | cons e stack ih =>
    refine ⟨?_, ih h.2⟩
    rw [List.getElem?_append_left (List.getElem?_eq_some_iff.mp h.1).1, h.1]

/-- The cursor stands on the innermost entity, and the parents are its ancestors. -/
structure CursorInv (consumed : List Token) (c : ImportConfig) : Prop where
  nested : WellNested isLeaf ((nesting consumed).opened.map (·.1)) c.rest
  numbered : ∀ x ∈ (nesting consumed).opened, x.2.isSome = isEntityTag x.1
  length : c.state.parents.length = (nesting consumed).next
  current : c.state.current = some (nesting consumed).innermost
  chain : ParentChain c.state.parents (nesting consumed).entities
  entityHash : ∀ id, id ∈ c.state.entityHash ↔ id ∈ elementIds consumed

/-! ## What the operations do to the tree -/

namespace ImportState

variable {env : ImportEnv} {s : ImportState} {p : Nat}

theorem parents_modifyEntity {f : TempEntity → TempEntity} (hf : ∀ e, (f e).parent = e.parent) :
    (s.modifyEntity p f).parents = s.parents := by
  refine List.ext_getElem? fun i => ?_
  simp only [parents, modifyEntity, List.getElem?_map, List.getElem?_modify]
  split
  · cases s.entities[i]? <;> simp [hf]
  · simp

theorem parentOf_eq : s.parentOf p = (s.parents[p]?).join := by
  simp only [parentOf, parents, List.getElem?_map]
  cases s.entities[p]? <;> rfl

theorem parents_newEntity {kind : GraphMLKind} {id : Text} :
    (s.newEntity kind id).parents = s.parents ++ [s.current] := by
  simp only [newEntity, parents, List.map_append, List.map_cons, List.map_nil]
  congr 1
  cases s.current with
  | none => rfl
  | some p =>
    exact parents_modifyEntity fun _ => rfl

/-- A `data` element leaves the tree, the cursor and the ids as they are. -/
theorem attachData_frame {keyName value : Text} :
    (attachData env s p keyName value).parents = s.parents ∧
    (attachData env s p keyName value).current = s.current ∧
    (attachData env s p keyName value).entityHash = s.entityHash := by
  unfold attachData
  split
  · exact ⟨parents_modifyEntity fun _ => rfl, rfl, rfl⟩
  · split
    · dsimp only
      split
      · exact ⟨rfl, rfl, rfl⟩
      · exact ⟨parents_modifyEntity fun _ => rfl, rfl, rfl⟩
    · exact ⟨parents_modifyEntity fun _ => rfl, rfl, rfl⟩

/-- A value is stored unless the key rejects it, which is reported. -/
theorem attachData_stored (keyName text : Text) :
    match storedValue env keyName text with
    | none => Reported s (attachData env s p keyName text)
    | some value =>
      (attachData env s p keyName text).entities = s.entities.modify p (·.addData keyName value) ∧
        (attachData env s p keyName text).errorCount = s.errorCount := by
  unfold attachData storedValue
  by_cases huuid : keyName = KeyName.uuid
  · rw [if_pos huuid, if_pos huuid]
    exact ⟨rfl, rfl⟩
  · rw [if_neg huuid, if_neg huuid]
    by_cases hversion : keyName = KeyName.medeaVersion
    · rw [if_pos hversion, if_pos hversion]
      dsimp only
      cases importedVersion env text with
      | none => exact ⟨rfl, rfl⟩
      | some value => exact ⟨rfl, rfl⟩
    · rw [if_neg hversion, if_neg hversion]
      exact ⟨rfl, rfl⟩

/-- A known key, inside an entity. -/
theorem startData_known {attrs : Attributes} {rest : List Token} {keyName : Text}
    (hp : s.current = some p)
    (hkey : s.keyHash.lookup (getXMLAttribute attrs "key".toList) = some keyName) :
    startData env s attrs rest = (Xml.readElementText rest).map fun r =>
      (r.2, attachData env s p keyName r.1) := by
  unfold startData
  rw [hp, hkey]

/-- An unknown key is an error, and nothing is consumed. -/
theorem startData_unknown {attrs : Attributes} {rest : List Token}
    (hkey : s.keyHash.lookup (getXMLAttribute attrs "key".toList) = none) :
    startData env s attrs rest = some (rest, s.error) := by
  unfold startData
  rw [hkey]
  split <;> simp_all

/-- The declaration of a key opens no entity. -/
theorem startKey_frame {attrs : Attributes} :
    (s.startKey attrs).parents = s.parents ∧ (s.startKey attrs).current = s.current ∧
    (s.startKey attrs).entityHash = s.entityHash := by
  simp only [startKey]
  split <;> exact ⟨rfl, rfl, rfl⟩

theorem newEntity_frame {kind : GraphMLKind} {id : Text} :
    (s.newEntity kind id).current = s.current ∧
    (s.newEntity kind id).entityHash = s.entityHash :=
  ⟨rfl, rfl⟩

/-- A fresh uuid is a datum only. -/
theorem seedUuid_frame (env : ImportEnv) (s : ImportState) (entity : Nat) (id : Text) :
    (seedUuid env s entity id).parents = s.parents ∧
    (seedUuid env s entity id).current = s.current ∧
    (seedUuid env s entity id).entityHash = s.entityHash := by
  unfold seedUuid
  split
  · exact ⟨parents_modifyEntity fun _ => rfl, rfl, rfl⟩
  · exact ⟨rfl, rfl, rfl⟩

/-- What is done with an id leaves the tree alone. -/
theorem acceptEntity_frame (s : ImportState) (kind : GraphMLKind) (entity : Nat) (id : Text)
    (attrs : Attributes) :
    (s.acceptEntity kind entity id attrs).parents = s.parents ∧
    (s.acceptEntity kind entity id attrs).current = some entity ∧
    (s.acceptEntity kind entity id attrs).entityHash = s.entityHash.insert id entity := by
  unfold acceptEntity
  dsimp only
  split
  · exact ⟨rfl, rfl, rfl⟩
  · exact ⟨parents_modifyEntity fun _ => rfl, rfl, rfl⟩

/-- A `node` or `edge` start tag makes a child of the cursor; if its id is new, the cursor moves
to the child. -/
theorem startEntity_spec (env : ImportEnv) (s : ImportState) (kind : GraphMLKind)
    (attrs : Attributes) :
    (startEntity env s kind attrs).parents = s.parents ++ [s.current] ∧
    if getXMLAttribute attrs "id".toList ∈ s.entityHash then
      (startEntity env s kind attrs).current = s.current
    else
      (startEntity env s kind attrs).current = some s.parents.length ∧
      (startEntity env s kind attrs).entityHash =
        s.entityHash.insert (getXMLAttribute attrs "id".toList) s.parents.length := by
  have hlen : s.parents.length = s.entities.length := List.length_map ..
  obtain ⟨hparents, hcurrent, hhash⟩ := seedUuid_frame env
    (s.newEntity kind (getXMLAttribute attrs "id".toList)) s.entities.length
    (getXMLAttribute attrs "id".toList)
  unfold startEntity
  simp only [hhash, newEntity_frame.2, hlen]
  split
  · exact ⟨hparents.trans parents_newEntity, hcurrent⟩
  · obtain ⟨hparents', hcurrent', hhash'⟩ := acceptEntity_frame
      (seedUuid env (s.newEntity kind (getXMLAttribute attrs "id".toList)) s.entities.length
        (getXMLAttribute attrs "id".toList))
      kind s.entities.length (getXMLAttribute attrs "id".toList) attrs
    exact ⟨hparents'.trans (hparents.trans parents_newEntity), hcurrent', by rw [hhash', hhash]; rfl⟩

end ImportState

/-! ## One iteration -/

variable {env : ImportEnv} {document consumed : List Token} {c c' : ImportConfig}

theorem isEntityTag_iff {name : Text} :
    isEntityTag name = true ↔ tagKind name = .node ∨ tagKind name = .edge := by
  simp [isEntityTag]

/-- Before the document the cursor is nowhere. -/
theorem CursorInv.init (hwf : GraphMLDocument document) :
    CursorInv [] ⟨document, { modelImportVersion := env.version }⟩ where
  nested := hwf
  numbered _ h := nomatch h
  length := rfl
  current := rfl
  chain := trivial
  entityHash id := by simp [elementIds]

/-- Reading tokens that open and close no entity only moves the position. -/
theorem CursorInv.advance (h : CursorInv consumed c) {read rest : List Token} {s : ImportState}
    (hids : elementIds read = [])
    (hentities : (nesting (consumed ++ read)).entities = (nesting consumed).entities)
    (hnext : (nesting (consumed ++ read)).next = (nesting consumed).next)
    (hnumbered : ∀ x ∈ (nesting (consumed ++ read)).opened, x.2.isSome = isEntityTag x.1)
    (hnested : WellNested isLeaf ((nesting (consumed ++ read)).opened.map (·.1)) rest)
    (hs : s.parents = c.state.parents ∧ s.current = c.state.current ∧
      s.entityHash = c.state.entityHash) :
    CursorInv (consumed ++ read) ⟨rest, s⟩ where
  nested := hnested
  numbered := hnumbered
  length := by rw [hnext, ← h.length]; exact congrArg List.length hs.1
  current := by rw [Nesting.innermost, hentities]; exact hs.2.1.trans h.current
  chain := by rw [hentities]; exact hs.1 ▸ h.chain
  entityHash id := by
    rw [elementIds_append, hids, List.append_nil]
    exact hs.2.2 ▸ h.entityHash id

theorem nesting_startElement (consumed : List Token) {name : Text} (attrs : Attributes) (hk : isEntityTag name = false) :
    nesting (consumed ++ [.startElement name attrs]) =
      { nesting consumed with opened := (name, none) :: (nesting consumed).opened } := by
  simp [nesting_append, Nesting.read, hk]

theorem nesting_startEntity (consumed : List Token) {name : Text} (attrs : Attributes) (hk : isEntityTag name = true) :
    nesting (consumed ++ [.startElement name attrs]) =
      { opened := (name, some (nesting consumed).next) :: (nesting consumed).opened
        next := (nesting consumed).next + 1 } := by
  simp [nesting_append, Nesting.read, hk]

/-- The start tag of an element that is not an entity. -/
theorem CursorInv.startElement (h : CursorInv consumed c) {name : Text} {attrs : Attributes}
    {rest : List Token} {s : ImportState} (hrest : c.rest = .startElement name attrs :: rest)
    (hk : isEntityTag name = false)
    (hs : s.parents = c.state.parents ∧ s.current = c.state.current ∧
      s.entityHash = c.state.entityHash) :
    CursorInv (consumed ++ [.startElement name attrs]) ⟨rest, s⟩ := by
  have hnested := h.nested
  rw [hrest] at hnested
  have hn := nesting_startElement consumed attrs hk
  refine h.advance (by simp [elementIds, hk]) ?_ (by rw [hn]) ?_ ?_ hs
  · rw [hn]; simp [Nesting.entities]
  · rw [hn]
    intro x hx
    rcases List.mem_cons.mp hx with rfl | hx
    · simp [hk]
    · exact h.numbered x hx
  · rw [hn]; exact hnested.2

/-- A whole `data` element. -/
theorem CursorInv.dataElement (h : CursorInv consumed c) {name : Text} {attrs : Attributes}
    {inner rest : List Token} {s : ImportState} (hk : isEntityTag name = false)
    (hinner : ∀ t ∈ inner, t.isTag = false)
    (hnested : WellNested isLeaf ((nesting consumed).opened.map (·.1)) rest)
    (hs : s.parents = c.state.parents ∧ s.current = c.state.current ∧
      s.entityHash = c.state.entityHash) :
    CursorInv (consumed ++ .startElement name attrs :: (inner ++ [.endElement name])) ⟨rest, s⟩ := by
  have hn : nesting (consumed ++ .startElement name attrs :: (inner ++ [.endElement name])) =
      nesting consumed := by
    rw [nesting_append, List.foldl_cons, List.foldl_append, Nesting.foldl_read_of_not_isTag hinner]
    simp [Nesting.read, hk]
  refine h.advance ?_ (by rw [hn]) (by rw [hn]) (hn ▸ h.numbered) (hn ▸ hnested) hs
  rw [← List.singleton_append, elementIds_append, elementIds_endElement hinner]
  simp [elementIds, hk]

/-- The start tag of an entity with a new id. -/
theorem CursorInv.startEntity (h : CursorInv consumed c) {name : Text} {attrs : Attributes}
    {rest : List Token} {kind : GraphMLKind} (hrest : c.rest = .startElement name attrs :: rest)
    (hk : isEntityTag name = true)
    (hfresh : getXMLAttribute attrs "id".toList ∉ elementIds consumed) :
    CursorInv (consumed ++ [.startElement name attrs])
      ⟨rest, c.state.startEntity env kind attrs⟩ := by
  have hnested := h.nested
  rw [hrest] at hnested
  have hn := nesting_startEntity consumed attrs hk
  obtain ⟨hparents, hspec⟩ := c.state.startEntity_spec env kind attrs
  rw [if_neg (fun hm => hfresh ((h.entityHash _).mp hm))] at hspec
  have hentities : (nesting (consumed ++ [.startElement name attrs])).entities =
      (nesting consumed).next :: (nesting consumed).entities := by
    rw [hn]; simp [Nesting.entities]
  refine
    { nested := by rw [hn]; exact hnested.2
      numbered := ?_
      length := by simp only [hparents, hn, List.length_append, h.length, List.length_singleton]
      current := by
        rw [Nesting.innermost, hentities, List.headD_cons, ← h.length]
        exact hspec.1
      chain := ?_
      entityHash := fun id => ?_ }
  · rw [hn]
    intro x hx
    rcases List.mem_cons.mp hx with rfl | hx
    · simp [hk]
    · exact h.numbered x hx
  · rw [hentities, hparents]
    refine ⟨?_, h.chain.append⟩
    rw [← h.length, List.getElem?_concat_length, h.current]
    rfl
  · simp only [hspec.2, AList.mem_insert, h.entityHash]
    simp [elementIds, hk, or_comm]

/-- An end tag. -/
theorem CursorInv.endElement (h : CursorInv consumed c) {name : Text} {rest : List Token}
    (hrest : c.rest = .endElement name :: rest) :
    ∃ s, c.state.endElement (tagKind name) = some s ∧
      CursorInv (consumed ++ [.endElement name]) ⟨rest, s⟩ := by
  have hnested := h.nested
  rw [hrest] at hnested
  obtain ⟨hhead, hnested⟩ := hnested
  have hn : nesting (consumed ++ [.endElement name]) =
      { nesting consumed with opened := (nesting consumed).opened.tail } := by
    simp [nesting_append, Nesting.read]
  have hids : elementIds [Token.endElement name] = [] := rfl
  rcases hopened : (nesting consumed).opened with _ | ⟨⟨name', e⟩, opened⟩
  · rw [hopened] at hhead
    cases hhead
  · rw [hopened] at hhead hnested
    obtain rfl := Option.some.inj hhead
    have hnum := h.numbered (name', e) (by simp [hopened])
    have hnum' : ∀ x ∈ opened, x.2.isSome = isEntityTag x.1 :=
      fun x hx => h.numbered x (by simp [hopened, hx])
    cases hk : isEntityTag name' with
    | false =>
      -- the innermost open element is not an entity
      obtain rfl : e = none := by simpa [hk] using hnum
      refine ⟨c.state, ?_, h.advance hids ?_ (by rw [hn]) ?_ ?_ ⟨rfl, rfl, rfl⟩⟩
      · have : tagKind name' ≠ .node ∧ tagKind name' ≠ .edge := by
          simpa [isEntityTag] using hk
        unfold ImportState.endElement
        split <;> simp_all
      · rw [hn, hopened]; simp [Nesting.entities, hopened]
      · rw [hn, hopened]; exact hnum'
      · rw [hn, hopened]; exact hnested
    | true =>
      obtain ⟨p, rfl⟩ : ∃ p, e = some p := Option.isSome_iff_exists.mp (by rw [hnum, hk])
      have hentities : (nesting consumed).entities = p :: opened.filterMap (·.2) := by
        rw [Nesting.entities, hopened]; simp
      have hentities' : (nesting (consumed ++ [.endElement name'])).entities =
          opened.filterMap (·.2) := by rw [hn]; simp [Nesting.entities, hopened]
      have hcurrent : c.state.current = some p := by
        rw [h.current, Nesting.innermost, hentities, List.headD_cons]
      have hchain := h.chain
      rw [hentities] at hchain
      refine ⟨{ c.state with current := c.state.parentOf p }, ?_, ?_⟩
      · unfold ImportState.endElement
        rcases isEntityTag_iff.mp hk with hk | hk <;> simp [hk, hcurrent]
      · refine
          { nested := by rw [hn, hopened]; exact hnested
            numbered := by rw [hn, hopened]; exact hnum'
            length := by rw [hn]; exact h.length
            current := ?_
            chain := by rw [hentities']; exact hchain.2
            entityHash := fun id => by
              rw [elementIds_append, hids, List.append_nil]
              exact h.entityHash id }
        rw [Nesting.innermost, hentities']
        show c.state.parentOf p = _
        rw [ImportState.parentOf_eq, hchain.1]
        rfl

/-- A `data` start tag whose key is known reads the whole element. -/
theorem CursorInv.startData (h : CursorInv consumed c) {name : Text} {attrs : Attributes}
    {rest : List Token} (hrest : c.rest = .startElement name attrs :: rest)
    (hk : tagKind name = .data) :
    ∃ t more c', importStep env c = some c' ∧ c.rest = t :: (more ++ c'.rest) ∧
      elementIds more = [] ∧ CursorInv (consumed ++ t :: more) c' := by
  have hent : isEntityTag name = false := by simp [isEntityTag, hk]
  have hnested := h.nested
  rw [hrest] at hnested
  obtain ⟨inner, text, after, heq, hin, hread, hafter⟩ :=
    Xml.WellNested.readElementText hnested.2 (by simp [isLeaf, hk])
  cases hkey : c.state.keyHash.lookup (getXMLAttribute attrs "key".toList) with
  | none =>
    refine ⟨.startElement name attrs, [], ⟨rest, c.state.error⟩, ?_, hrest, rfl,
      h.startElement hrest hent ⟨rfl, rfl, rfl⟩⟩
    simp only [importStep, hrest, hk, ImportState.startData_unknown hkey, Option.map_some]
  | some keyName =>
    refine ⟨.startElement name attrs, inner ++ [.endElement name],
      ⟨after, .attachData env c.state (nesting consumed).innermost keyName text⟩, ?_, ?_,
      elementIds_endElement hin, h.dataElement hent hin hafter ImportState.attachData_frame⟩
    · simp only [importStep, hrest, hk, ImportState.startData_known h.current hkey, hread,
        Option.map_some]
    · rw [hrest, heq]; simp

/-- **An iteration keeps the cursor right** unless it reads the start tag of an element whose id was
read before. -/
theorem importStep_cursorInv (env : ImportEnv) (h : CursorInv consumed c) (hne : c.rest ≠ [])
    (hfresh : ∀ t rest, c.rest = t :: rest → ∀ id ∈ elementIds [t], id ∉ elementIds consumed) :
    ∃ t more c', importStep env c = some c' ∧ c.rest = t :: (more ++ c'.rest) ∧
      elementIds more = [] ∧ CursorInv (consumed ++ t :: more) c' := by
  obtain ⟨t, rest, hrest⟩ := List.exists_cons_of_ne_nil hne
  have hnested := h.nested
  rw [hrest] at hnested
  have hother : t.isTag = false → WellNested isLeaf ((nesting consumed).opened.map (·.1)) rest →
      CursorInv (consumed ++ [t]) ⟨rest, c.state⟩ := by
    intro ht hrest'
    have hn : nesting (consumed ++ [t]) = nesting consumed := by
      rw [nesting_append]; exact Nesting.read_of_not_isTag _ ht
    exact h.advance (elementIds_of_not_isTag (by simpa using ht)) (by rw [hn]) (by rw [hn])
      (hn ▸ h.numbered) (hn ▸ hrest') ⟨rfl, rfl, rfl⟩
  cases t with
  | startElement name attrs =>
    cases hk : tagKind name with
    | data => exact h.startData hrest hk
    | key =>
      exact ⟨_, [], ⟨rest, c.state.startKey attrs⟩, by simp only [importStep, hrest, hk], hrest, rfl,
        h.startElement hrest (by simp [isEntityTag, hk]) ImportState.startKey_frame⟩
    | none =>
      exact ⟨_, [], ⟨rest, c.state⟩, by simp only [importStep, hrest, hk], hrest, rfl,
        h.startElement hrest (by simp [isEntityTag, hk]) ⟨rfl, rfl, rfl⟩⟩
    | node =>
      have hent : isEntityTag name = true := by simp [isEntityTag, hk]
      exact ⟨_, [], ⟨rest, c.state.startEntity env .node attrs⟩,
        by simp only [importStep, hrest, hk], hrest, rfl, h.startEntity hrest hent
          (hfresh _ _ hrest _ (by simp [elementIds, hent]))⟩
    | edge =>
      have hent : isEntityTag name = true := by simp [isEntityTag, hk]
      exact ⟨_, [], ⟨rest, c.state.startEntity env .edge attrs⟩,
        by simp only [importStep, hrest, hk], hrest, rfl, h.startEntity hrest hent
          (hfresh _ _ hrest _ (by simp [elementIds, hent]))⟩
  | endElement name =>
    obtain ⟨s, hs, hinv⟩ := h.endElement hrest
    exact ⟨_, [], ⟨rest, s⟩, by simp only [importStep, hrest, hs, Option.map_some], hrest, rfl, hinv⟩
  | characters text =>
    exact ⟨_, [], ⟨rest, c.state⟩, by simp only [importStep, hrest], hrest, rfl, hother rfl hnested⟩
  | comment text =>
    exact ⟨_, [], ⟨rest, c.state⟩, by simp only [importStep, hrest], hrest, rfl, hother rfl hnested⟩
  | processingInstruction text =>
    exact ⟨_, [], ⟨rest, c.state⟩, by simp only [importStep, hrest], hrest, rfl, hother rfl hnested⟩

/-- The start tag of an element with an old id leaves the cursor where it was. -/
theorem importStep_of_old (env : ImportEnv) (h : CursorInv consumed c) {t : Token} {rest : List Token} {id : Text}
    (hrest : c.rest = t :: rest) (hid : id ∈ elementIds [t]) (hold : id ∈ elementIds consumed) :
    ∃ c', importStep env c = some c' ∧ c'.rest = rest ∧ c'.state.current = c.state.current ∧
      (nesting (consumed ++ [t])).innermost = (nesting consumed).next := by
  obtain ⟨name, attrs, rfl, hk, rfl⟩ : ∃ name attrs, t = .startElement name attrs ∧
      isEntityTag name = true ∧ id = getXMLAttribute attrs "id".toList := by
    cases t with
    | startElement name attrs =>
      cases hk : isEntityTag name <;> simp_all [elementIds]
    | _ => simp [elementIds] at hid
  have hinner : (nesting (consumed ++ [.startElement name attrs])).innermost =
      (nesting consumed).next := by
    rw [nesting_startEntity consumed attrs hk]; rfl
  have hspec : ∀ kind, (c.state.startEntity env kind attrs).current = c.state.current := by
    intro kind
    have := (c.state.startEntity_spec env kind attrs).2
    rwa [if_pos ((h.entityHash _).mpr hold)] at this
  rcases isEntityTag_iff.mp hk with hkind | hkind
  · exact ⟨⟨rest, c.state.startEntity env .node attrs⟩, by simp only [importStep, hrest, hkind],
      rfl, hspec .node, hinner⟩
  · exact ⟨⟨rest, c.state.startEntity env .edge attrs⟩, by simp only [importStep, hrest, hkind],
      rfl, hspec .edge, hinner⟩

/-- The numbers of the open entities were all given out. -/
theorem CursorInv.innermost_lt (h : CursorInv consumed c) :
    (nesting consumed).innermost < (nesting consumed).next := by
  have hpos : 0 < (nesting consumed).next := Nesting.next_le_foldl_read consumed {}
  rcases hs : (nesting consumed).entities with _ | ⟨e, stack⟩
  · rwa [Nesting.innermost, hs]
  · have hchain := h.chain
    rw [hs] at hchain
    have := (List.getElem?_eq_some_iff.mp hchain.1).1
    rw [h.length] at this
    rwa [Nesting.innermost, hs]

/-! ## The run -/

/-- A reachable position at which every id read so far is new keeps the invariant. -/
theorem fresh_of_nodup (hids : (elementIds document).Nodup) (hc : consumed ++ c.rest = document) :
    ∀ t rest, c.rest = t :: rest → ∀ id ∈ elementIds [t], id ∉ elementIds consumed := by
  intro t rest hrest id hid hmem
  rw [← hc, hrest, ← List.singleton_append, elementIds_append, elementIds_append] at hids
  exact List.disjoint_of_nodup_append hids hmem (List.mem_append_left _ hid)

theorem cursorInv_reach (hwf : GraphMLDocument document) (hids : (elementIds document).Nodup)
    (h : (importLts env document).Reach c) :
    ∃ consumed, consumed ++ c.rest = document ∧ CursorInv consumed c := by
  induction h with
  | init hi => exact hi ▸ ⟨[], rfl, CursorInv.init hwf⟩
  | @step c c' a _ _ hst ih =>
    obtain ⟨consumed, hc, hinv⟩ := ih
    have hne : c.rest ≠ [] := by
      intro hnil
      simp [importLts, Lts.ofFun, importStep, hnil] at hst
    obtain ⟨t, more, c'', hstep, hread, -, hinv'⟩ :=
      importStep_cursorInv env hinv hne (fresh_of_nodup hids hc)
    obtain rfl : c'' = c' := Option.some.inj (hstep.symm.trans hst)
    exact ⟨consumed ++ t :: more, by rw [List.append_assoc, List.cons_append, ← hread, hc], hinv'⟩

theorem CursorInv.eq_of_append {consumed' : List Token} (h : CursorInv consumed c)
    (hc : consumed ++ c.rest = document) (hc' : consumed' ++ c.rest = document) :
    CursorInv consumed' c :=
  List.append_cancel_right (hc'.trans hc.symm) ▸ h

/-- From a position that keeps the invariant the loop reaches the end of the document. -/
theorem CursorInv.complete (hids : (elementIds document).Nodup) (h : CursorInv consumed c)
    (hc : consumed ++ c.rest = document) (hr : (importLts env document).Reach c) :
    ∃ c', (importLts env document).Reach c' ∧ c'.rest = [] ∧ c'.state.current = some 0 := by
  induction hn : c.rest.length using Nat.strong_induction_on generalizing c consumed with
  | _ n ih =>
    by_cases hnil : c.rest = []
    · refine ⟨c, hr, hnil, ?_⟩
      have hnested := h.nested
      rw [hnil] at hnested
      have hopened : (nesting consumed).opened = [] := List.map_eq_nil_iff.mp hnested
      rw [h.current, Nesting.innermost, Nesting.entities, hopened]
      rfl
    · obtain ⟨t, more, c', hstep, hread, -, hinv'⟩ :=
        importStep_cursorInv env h hnil (fresh_of_nodup hids hc)
      have hlt : c'.rest.length < n := by
        rw [← hn, hread, List.length_cons, List.length_append]
        omega
      exact ih _ hlt hinv' (by rw [List.append_assoc, List.cons_append, ← hread, hc])
        (hr.next () hstep) rfl

/-- A `data` element goes to the innermost open entity. -/
theorem CursorInv.attachesTo (h : CursorInv consumed c) {name : Text} {attrs : Attributes}
    {rest : List Token} (hrest : c.rest = .startElement name attrs :: rest)
    (hk : tagKind name = .data) (hstep : importStep env c = some c') :
    AttachesTo env (nesting consumed).innermost attrs rest c.state c'.state := by
  simp only [importStep, hrest, hk] at hstep
  obtain ⟨⟨after, s⟩, hs, rfl⟩ := Option.map_eq_some_iff.mp hstep
  cases hkey : c.state.keyHash.lookup (getXMLAttribute attrs "key".toList) with
  | none =>
    rw [ImportState.startData_unknown hkey] at hs
    obtain ⟨-, rfl⟩ := Prod.mk.inj (Option.some.inj hs)
    rw [AttachesTo, hkey]
    exact ⟨rfl, rfl⟩
  | some keyName =>
    rw [ImportState.startData_known h.current hkey] at hs
    obtain ⟨⟨text, after⟩, hread, hr⟩ := Option.map_eq_some_iff.mp hs
    obtain ⟨-, rfl⟩ := Prod.mk.inj hr
    rw [AttachesTo, hkey]
    exact ⟨text, after, hread, ImportState.attachData_stored keyName text⟩

theorem cursorOk_of_nodup (hwf : GraphMLDocument document) (hids : (elementIds document).Nodup) :
    CursorOk env document where
  cursor consumed c hr hc := by
    obtain ⟨consumed', hc', hinv⟩ := cursorInv_reach hwf hids hr
    exact (hinv.eq_of_append hc' hc).current
  data consumed name attrs rest c c' hr hc hrest hk hstep := by
    obtain ⟨consumed', hc', hinv⟩ := cursorInv_reach hwf hids hr
    exact (hinv.eq_of_append hc' hc).attachesTo hrest hk hstep
  progress c hr hne := by
    obtain ⟨consumed, hc, hinv⟩ := cursorInv_reach hwf hids hr
    obtain ⟨-, -, c', hstep, -⟩ :=
      importStep_cursorInv env hinv hne (fresh_of_nodup hids hc)
    exact ⟨c', hstep⟩
  complete := (CursorInv.init hwf).complete hids rfl (.init rfl)

/-- In a run whose cursor is right, no id is read twice: the second start tag would leave the
cursor behind. -/
theorem nodup_reach (hwf : GraphMLDocument document) (hok : CursorOk env document)
    (h : (importLts env document).Reach c) :
    ∃ consumed, consumed ++ c.rest = document ∧ CursorInv consumed c ∧
      (elementIds consumed).Nodup := by
  induction h with
  | init hi => exact hi ▸ ⟨[], rfl, CursorInv.init hwf, List.nodup_nil⟩
  | @step c c' a hr _ hst ih =>
    obtain ⟨consumed, hc, hinv, hnd⟩ := ih
    have hne : c.rest ≠ [] := by
      intro hnil
      simp [importLts, Lts.ofFun, importStep, hnil] at hst
    have hfresh : ∀ t rest, c.rest = t :: rest → ∀ id ∈ elementIds [t],
        id ∉ elementIds consumed := by
      intro t rest hrest id hid hold
      obtain ⟨c'', hstep, hrest'', hcur, hinner⟩ :=
        importStep_of_old env hinv hrest hid hold
      have hcur' := hok.cursor (consumed ++ [t]) c'' (.step () hr trivial hstep)
        (by rw [hrest'', List.append_assoc, List.singleton_append, ← hrest, hc])
      rw [hcur, hinv.current, hinner] at hcur'
      exact absurd (Option.some.inj hcur') (Nat.ne_of_lt hinv.innermost_lt)
    obtain ⟨t, more, c'', hstep, hread, hmore, hinv'⟩ :=
      importStep_cursorInv env hinv hne hfresh
    obtain rfl : c'' = c' := Option.some.inj (hstep.symm.trans hst)
    refine ⟨consumed ++ t :: more, by rw [List.append_assoc, List.cons_append, ← hread, hc],
      hinv', ?_⟩
    rw [← List.singleton_append, elementIds_append, elementIds_append, hmore, List.append_nil]
    refine hnd.append (elementIds_singleton_nodup t) fun id hold hid => ?_
    exact hfresh t _ hread id hid hold

/-- **The cursor follows the document exactly when no two `node` or `edge` elements have the same
id.** -/
theorem cursorOk_iff (env : ImportEnv) (document : List Token) (hwf : GraphMLDocument document) :
    CursorOk env document ↔ (elementIds document).Nodup := by
  refine ⟨fun hok => ?_, cursorOk_of_nodup hwf⟩
  obtain ⟨c, hr, hnil, -⟩ := hok.complete
  obtain ⟨consumed, hc, -, hnd⟩ := nodup_reach hwf hok hr
  rw [hnil, List.append_nil] at hc
  exact hc ▸ hnd

/-- An import of the running version `4.0.0` that keeps the document's ids. -/
def plainImport : ImportEnv where
  generateUuidFromId := false
  version := "4.0.0".toList
  fold := Char.toLower
  getUUIDOfValue := id

/-- Two nodes, one after the other, in a `graphml` element. -/
def twoNodes (id₁ id₂ : Text) : List Token :=
  [.startElement "graphml".toList [],
    .startElement "node".toList [("id".toList, id₁)], .endElement "node".toList,
    .startElement "node".toList [("id".toList, id₂)], .endElement "node".toList,
    .endElement "graphml".toList]

theorem cursorOk_twoNodes :
    CursorOk plainImport (twoNodes "1".toList "2".toList) ∧
      ¬ CursorOk plainImport (twoNodes "1".toList "1".toList) :=
  ⟨(cursorOk_iff plainImport (twoNodes "1".toList "2".toList) (by decide)).mpr (by decide),
    fun h => absurd ((cursorOk_iff plainImport (twoNodes "1".toList "1".toList) (by decide)).mp h)
      (by decide)⟩

/-- **A second node with an id that was read before**: its start tag leaves the cursor at the root,
its end tag moves the cursor to the root's parent, which is null. -/
theorem duplicate_id_loses_cursor :
    GraphMLDocument (twoNodes "1".toList "1".toList) ∧
      ¬ CursorOk plainImport (twoNodes "1".toList "1".toList) := by
  refine ⟨by decide, fun h => ?_⟩
  have hrun : (Lts.run (fun c () => importStep plainImport c)
      ⟨twoNodes "1".toList "1".toList, { modelImportVersion := "4.0.0".toList }⟩
      [(), (), (), (), ()]).map (fun c => (c.rest, c.state.current)) =
        some ([.endElement "graphml".toList], none) := by
    decide
  obtain ⟨c, hr, hview⟩ := Option.map_eq_some_iff.mp hrun
  obtain ⟨hrest, hcur⟩ := Prod.mk.inj hview
  have := h.cursor ((twoNodes "1".toList "1".toList).take 5) c (Lts.reach_of_run hr)
    (by rw [hrest]; rfl)
  rw [hcur] at this
  cases this

end Sem.Medea
