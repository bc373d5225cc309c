import Sem.Lib.Run
import Sem.Lib.Table
import Sem.Lib.XmlScan
import Sem.Medea.EntityFactory
import Sem.Medea.Version

/-!
# Reading a GraphML document (`modelcontroller.cpp`, `importGraphML`)

The first half of `importGraphML` turns a document into a tree of `TempEntity`s. It reads the
tokens of a `QXmlStreamReader` one at a time and keeps a cursor, `current_entity`: a `node` or
`edge` start tag makes a child of the cursor and moves to it, the end tag moves to the parent.

Pointers to `TempEntity`s are indices into the list of those constructed so far; `0` is the root
that is made before the loop. Line numbers and the parent stack are left out.
-/

namespace Sem.Medea

open Xml (Text Token Attributes)

/-- `getGraphMLKindFromString`. -/
def getGraphMLKindFromString (str : Text) : GraphMLKind :=
  if str = "edge".toList then .edge
  else if str = "node".toList then .node
  else if str = "data".toList then .data
  else if str = "key".toList then .key
  else .none

/-- The names in `KeyName` that the import looks at. -/
def KeyName.uuid : Text := "uuid".toList
/-- The key of the version of a model. -/
def KeyName.medeaVersion : Text := "medea_version".toList

/-- `TempEntity`: what the import reads of an element. -/
structure TempEntity where
  kind : GraphMLKind
  parent : Option Nat := none
  children : List Nat := []
  idStr : Text := []
  sourceIdStr : Text := []
  targetIdStr : Text := []
  data : Table Text Text := ∅

/-- `TempEntity::addData`. -/
def TempEntity.addData (e : TempEntity) (keyName value : Text) : TempEntity :=
  { e with data := e.data.insert keyName value }

/-- What the loop reads from outside: a flag of the model action, the running version, Qt's case
folding, and `ExportIDKey::GetUUIDOfValue` (`QUuid`, an MD5 hash, or a random id). -/
structure ImportEnv where
  generateUuidFromId : Bool
  version : Text
  fold : Char → Char
  getUUIDOfValue : Text → Text

/-- The variables of the loop. A key is its name: `GetKey(name, type)` finds or makes the key
called `name`. -/
structure ImportState where
  entities : List TempEntity := [{ kind := .node }]
  /-- `current_entity`; `none` is a null pointer -/
  current : Option Nat := some 0
  keyHash : Table Text Text := ∅
  entityHash : Table Text Nat := ∅
  nodeIds : List Text := []
  edgeIds : List Text := []
  uniqueEntityIds : List Text := []
  modelImportVersion : Text
  errorCount : Nat := 0

/-- `getXMLAttribute`: the value, or the empty text. -/
def getXMLAttribute (attrs : Attributes) (name : Text) : Text :=
  (Xml.attribute? attrs name).getD []

namespace ImportState

/-- The import fails in the end. -/
def error (s : ImportState) : ImportState := { s with errorCount := s.errorCount + 1 }

/-- `new TempEntity(kind, current_entity)` with its id. -/
def newEntity (s : ImportState) (kind : GraphMLKind) (id : Text) : ImportState :=
  let entity : TempEntity := { kind, parent := s.current, idStr := id }
  let entities := match s.current with
    | some p => s.entities.modify p fun e => { e with children := e.children ++ [s.entities.length] }
    | none => s.entities
  { s with entities := entities ++ [entity] }

/-- An entity is changed where it is. -/
def modifyEntity (s : ImportState) (p : Nat) (f : TempEntity → TempEntity) : ImportState :=
  { s with entities := s.entities.modify p f }

/-- `getIDStr` of the entity at `p`. -/
def idStr (s : ImportState) (p : Nat) : Text := ((s.entities[p]?).map (·.idStr)).getD []

/-- `getParent` of the entity at `p`. -/
def parentOf (s : ImportState) (p : Nat) : Option Nat := (s.entities[p]?).bind (·.parent)

/-- `case GRAPHML_KIND::KEY`. -/
def startKey (s : ImportState) (attrs : Attributes) : ImportState :=
  let keyId := getXMLAttribute attrs "id".toList
  if keyId ∈ s.keyHash then s.error
  else { s with keyHash := s.keyHash.insert keyId (getXMLAttribute attrs "attr.name".toList) }

/-- The version that a `medea_version` datum leaves, or `none` when it has no version format. -/
def importedVersion (env : ImportEnv) (value : Text) : Option Text :=
  (VersionKey.compareVersion env.fold value env.version).map fun modelVersion =>
    if 0 < modelVersion then value else env.version

/-- The rest of `case GRAPHML_KIND::DATA`, once key and text are known. -/
def attachData (env : ImportEnv) (s : ImportState) (p : Nat) (keyName value : Text) :
    ImportState :=
  if keyName = KeyName.uuid then
    { s with uniqueEntityIds := s.uniqueEntityIds ++ [s.idStr p] }.modifyEntity p
      (·.addData keyName (env.getUUIDOfValue value))
  else if keyName = KeyName.medeaVersion then
    let s := { s with modelImportVersion := value }
    match importedVersion env value with
    | none => s.error
    | some value => s.modifyEntity p (·.addData keyName value)
  else s.modifyEntity p (·.addData keyName value)

/-- `case GRAPHML_KIND::DATA`, with the tokens that follow the tag. `none`: the element has a child
element, which puts the reader into an error state in which it never reaches the end. -/
def startData (env : ImportEnv) (s : ImportState) (attrs : Attributes) (rest : List Token) :
    Option (List Token × ImportState) :=
  match s.current, s.keyHash.lookup (getXMLAttribute attrs "key".toList) with
  | some p, some keyName => (Xml.readElementText rest).map fun r =>
      (r.2, attachData env s p keyName r.1)
  | _, _ => some (rest, s.error)

/-- `GENERATE_UUID_FROM_ID`: the id is the seed of the new entity's UUID. -/
def seedUuid (env : ImportEnv) (s : ImportState) (entity : Nat) (id : Text) : ImportState :=
  if env.generateUuidFromId then
    { s with uniqueEntityIds := s.uniqueEntityIds ++ [id] }.modifyEntity entity
      (·.addData KeyName.uuid (env.getUUIDOfValue id))
  else s

/-- What happens to an entity whose id is new: the cursor moves to it. -/
def acceptEntity (s : ImportState) (kind : GraphMLKind) (entity : Nat) (id : Text)
    (attrs : Attributes) : ImportState :=
  let s := { s with entityHash := s.entityHash.insert id entity, current := some entity }
  if kind = .node then { s with nodeIds := s.nodeIds ++ [id] }
  else { s with edgeIds := s.edgeIds ++ [id] }.modifyEntity entity fun e =>
    { e with
      sourceIdStr := getXMLAttribute attrs "source".toList
      targetIdStr := getXMLAttribute attrs "target".toList }

/-- `case GRAPHML_KIND::EDGE` and `case GRAPHML_KIND::NODE`. -/
def startEntity (env : ImportEnv) (s : ImportState) (kind : GraphMLKind) (attrs : Attributes) :
    ImportState :=
  let id := getXMLAttribute attrs "id".toList
  let entity := s.entities.length
  let s := seedUuid env (s.newEntity kind id) entity id
  if id ∈ s.entityHash then s.error else s.acceptEntity kind entity id attrs

/-- An end tag; `none` is the dereference of a null cursor. -/
def endElement (s : ImportState) (kind : GraphMLKind) : Option ImportState :=
  match kind with
  | .node | .edge => s.current.map fun p => { s with current := s.parentOf p }
  | _ => some s

end ImportState

/-- The reader's tokens still to come and the loop's variables. -/
structure ImportConfig where
  rest : List Token
  state : ImportState

/-- The GraphML kind of a tag name. -/
def tagKind (name : Text) : GraphMLKind := getGraphMLKindFromString (Xml.localName name)

/-- One iteration of `while(xml.readNext() != EndDocument)`. -/
def importStep (env : ImportEnv) (c : ImportConfig) : Option ImportConfig :=
  match c.rest with
  | [] => none
  | .startElement name attrs :: rest =>
    match tagKind name with
    | .key => some ⟨rest, c.state.startKey attrs⟩
    | .data => (c.state.startData env attrs rest).map fun r => ⟨r.1, r.2⟩
    | .node => some ⟨rest, c.state.startEntity env .node attrs⟩
    | .edge => some ⟨rest, c.state.startEntity env .edge attrs⟩
    | .none => some ⟨rest, c.state⟩
  | .endElement name :: rest => (c.state.endElement (tagKind name)).map fun s => ⟨rest, s⟩
  | _ :: rest => some ⟨rest, c.state⟩

/-- The loop over the tokens of a document. -/
def importLts (env : ImportEnv) (document : List Token) : Lts ImportConfig Unit :=
  .ofFun ⟨document, { modelImportVersion := env.version }⟩ fun c () => importStep env c

/-- Run the loop to the end of the document. -/
def importLoop (env : ImportEnv) : Nat → ImportConfig → Option ImportState
  | 0, c => if c.rest = [] then some c.state else none
  | fuel + 1, c => if c.rest = [] then some c.state
    else (importStep env c).bind (importLoop env fuel)

/-- The reading half of `importGraphML`: a document that is not well formed is refused
(`isGraphMLValid`), every other one goes through the loop. -/
def parseGraphML (env : ImportEnv) (document : Text) : Option ImportState :=
  (Xml.scan document).bind fun tokens =>
    if Xml.WellNested (fun _ => false) [] tokens then
      importLoop env tokens.length ⟨tokens, { modelImportVersion := env.version }⟩
    else none

/-- `data` elements have no child elements. -/
def isLeaf (name : Text) : Bool := tagKind name = .data

/-- A well-formed GraphML document. -/
def GraphMLDocument (document : List Token) : Prop := Xml.WellNested isLeaf [] document

instance (document : List Token) : Decidable (GraphMLDocument document) :=
  Xml.decidableWellNested isLeaf [] document

end Sem.Medea
