import Sem.Lib.LabelIndex
import Sem.Medea.EntityFactoryLemmas

/-!
# Entities by UUID (`entityfactory.cpp`, `exportidkey.cpp`)

`uuid_lookup_` maps UUIDs to entity ids. It is written in one place, `EntitiesUUIDChanged`, which
`ExportIDKey::setData` calls whenever the UUID `Data` of an entity is set, changed or not: the entry
of the old value is removed, and a registered entity gets one under the new value unless there is an
entry already. Registering an entity sets its UUID once more; destroying it does not.

The UUID `Data` of the entities are a table from addresses to values. Qt's `QUuid` and MD5 are
parameters; a UUID that `QUuid::createUuid` makes is given with the call that may need it.
-/

namespace Sem.Medea

/-- The kinds of an `Entity`. -/
def GraphMLKind.isEntity : GraphMLKind → Bool
  | .node | .edge => true
  | _ => false

/-! ## `ExportIDKey` -/

/-- What Qt computes of a text. -/
structure Qt where
  /-- `QUuid(text).toString()`, unless the UUID is null -/
  uuid : String → Option String
  /-- the hash of the text, in hexadecimal digits -/
  md5 : String → String

namespace Qt

variable (qt : Qt)

/-- `QUuid().toString()`. -/
def nullUuid : String := "\x7b00000000-0000-0000-0000-000000000000\x7d"

/-- `getMD5UUID`: the digits of the hash, with dashes and in braces. -/
def getMD5UUID (text : String) : String :=
  let digits := [20, 16, 12, 8].foldl (fun s i => s.insertIdx i '-') (qt.md5 text).toList
  String.ofList ('{' :: digits ++ ['}'])

/-- `created` is the UUID that `QUuid::createUuid` makes if it is asked. -/
def getUUIDOfValue (text created : String) : String :=
  match qt.uuid text with
  | some uuid => uuid
  | none => if text ≠ "" then (qt.uuid (qt.getMD5UUID text)).getD nullUuid else created

end Qt

/-! ## The factory with its UUIDs -/

/-- `GetEntity` lets nodes and edges through. What it would read at an address without an object is
not known: the address is let through as well. -/
def Registry.asEntity (r : Registry) (p : Ptr) : Option Ptr :=
  match r.objects.lookup p with
  | some g => if g.kind.isEntity then some p else none
  | none => some p

/-- The entity of an id. -/
def Registry.getEntity (r : Registry) (id : Int) : Option Ptr :=
  (r.factory.getGraphML id).bind r.asEntity

/-- The registry, with the index of its entities by their UUIDs. -/
structure UuidRegistry extends Registry where
  /-- the values of the entities' UUID `Data` -/
  uuids : Table Ptr String := ∅
  uuidLookup : Table String Int := ∅

namespace UuidRegistry

/-- A UUID without an entry is looked up as the id `-1`. -/
def getEntityByUUID (s : UuidRegistry) (uuid : String) : Option Ptr :=
  s.getEntity ((s.uuidLookup.lookup uuid).getD (-1))

/-- `EntitiesUUIDChanged`: an entity without a proper id gets no entry. -/
def entitiesUUIDChanged (s : UuidRegistry) (entity : GraphML) (oldUuid newUuid : String) :
    UuidRegistry :=
  let lookup := s.uuidLookup.erase oldUuid
  if 0 < entity.id then
    { s with uuidLookup :=
        if newUuid ∈ lookup then lookup else lookup.insert newUuid entity.id }
  else { s with uuidLookup := lookup }

/-- `ExportIDKey::setData` on the `Data` of the entity `g` at `p`, which has the value `old`. -/
def setData (qt : Qt) (s : UuidRegistry) (p : Ptr) (g : GraphML) (old value created : String) :
    UuidRegistry :=
  let new := qt.getUUIDOfValue value created
  { s with uuids := s.uuids.insert p new }.entitiesUUIDChanged g old new

/-- The end of `RegisterEntity`: an entity's UUID is revalidated. -/
def entityRegistered (qt : Qt) (s : UuidRegistry) (p : Ptr) (created : String) : UuidRegistry :=
  match s.objects.lookup p, s.uuids.lookup p with
  | some g, some uuid => if g.kind.isEntity then s.setData qt p g uuid uuid created else s
  | _, _ => s

/-- The events of the registry, and what is done to the UUIDs. -/
inductive Action
  /-- an event of the registry; `created` is for the `RegisterEntity` among them -/
  | life (a : Registry.Action) (created : String)
  /-- a UUID `Data` is constructed, with a valid value or without, and added to the entity -/
  | addData (p : Ptr) (value : Option String) (createdValue created : String)
  /-- `Data::setValue` on the UUID `Data` of the entity -/
  | setValue (p : Ptr) (value created : String)
  /-- the UUID `Data` of the entity is destroyed -/
  | removeData (p : Ptr)
  deriving Repr

/-- The value of a UUID `Data` after its constructor. -/
def constructData (qt : Qt) (value : Option String) (created : String) : String :=
  match value with
  | some value => qt.getUUIDOfValue value created
  | none => ""

/-- Continue with the node or edge at `p` and its UUID, if it has one. -/
def withEntity (s : UuidRegistry) (p : Ptr) (k : GraphML → Option String → Option UuidRegistry) :
    Option UuidRegistry :=
  (s.objects.lookup p).bind fun g => if g.kind.isEntity then k g (s.uuids.lookup p) else none

/-- One event. -/
def step (qt : Qt) (s : UuidRegistry) : Action → Option UuidRegistry
  | .life (.register p desiredId) created =>
    (s.objects.lookup p).bind fun g =>
      if g.phase = .cached then
        (s.registerEntity p g desiredId).map fun (result, r) =>
          if result = .ok true then { s with toRegistry := r }.entityRegistered qt p created
          else { s with toRegistry := r }
      else none
  | .life a _ =>
    (Registry.step s.toRegistry a).map fun r =>
      { s with
        toRegistry := r
        -- an entity takes its `Data` with it, and `uuid_lookup_` is left alone
        uuids := a.destroyed.elim s.uuids s.uuids.erase }
  | .addData p value createdValue created =>
    s.withEntity p fun g uuid? =>
      match uuid? with
      | none =>
        -- `registerParent` revalidates the value
        let value := constructData qt value createdValue
        some (s.setData qt p g value value created)
      | some _ => none
  | .setValue p value created =>
    s.withEntity p fun g uuid? => uuid?.map fun old => s.setData qt p g old value created
  | .removeData p =>
    s.withEntity p fun _ uuid? => uuid?.map fun _ => { s with uuids := s.uuids.erase p }

/-- One factory over its life, with the UUIDs of its entities. -/
def lts (qt : Qt) : Lts UuidRegistry Action := .ofFun {} (step qt)

/-- `AttachData` of a UUID as events, for an entity without one. -/
def attachData (p : Ptr) (value : Option String) (created : String) : List Action :=
  .addData p value created created ::
    value.elim [] fun value => [.setValue p value created]

/-! ## What the lookup is for -/

/-- A registered node or edge with the UUID `uuid` is at `p`. -/
def HasUuid (s : UuidRegistry) (p : Ptr) (uuid : String) : Prop :=
  ∃ g, s.objects.lookup p = some g ∧ g.kind.isEntity ∧
    s.factory.unsafeIsEntityRegistered p g ∧ s.uuids.lookup p = some uuid

/-- The answer of the lookup is alive and has the UUID, and an entity that has the UUID to itself is
the answer. -/
structure Finds (s : UuidRegistry) (uuid : String) : Prop where
  sound : ∀ p, s.getEntityByUUID uuid = some p → p ∈ s.objects ∧ s.uuids.lookup p = some uuid
  complete : ∀ p, s.HasUuid p uuid → (∀ q, s.HasUuid q uuid → q = p) →
    s.getEntityByUUID uuid = some p

/-- The registered entities with their UUIDs. -/
def view (s : UuidRegistry) : View Int String where
  label id := ((s.factory.hash.lookup id).bind s.asEntity).map s.uuids.lookup
  ids := s.factory.hash.keys
  mem_ids id h := by
    refine AList.mem_keys.mp (AList.lookup_isSome.mp ?_)
    cases hl : s.factory.hash.lookup id with
    | none => simp [hl] at h
    | some p => rfl

/-! ## The conditions -/

/-- The condition on setting the UUID of the entity `g`: a registered one meets the condition on a
label that changes, and any other takes the entry of no registered entity away. -/
def SetMeets (s : UuidRegistry) (g : GraphML) (old new : String) : Prop :=
  if 0 < g.id then View.Relabels s.uuidLookup s.view g.id old new
  else ∀ id ∈ s.view.ids, ¬ s.view.Sole old id

/-- The condition on registering an entity under `id`. -/
def RegisterMeets (qt : Qt) (s : UuidRegistry) (id : Int) (uuid? : Option String)
    (created : String) : Prop :=
  match uuid? with
  | some uuid => View.Relabels s.uuidLookup s.view id uuid (qt.getUUIDOfValue uuid created)
  | none => ∀ uuid ∈ s.uuidLookup.keys, s.uuidLookup.lookup uuid ≠ some id

/-- **The condition on an event.** A registered entity gets an id no entry of another UUID has, and
a UUID no leftover entry has; and no event leaves a registered entity alone with a UUID whose entry
is gone. -/
def Meets (qt : Qt) (s : UuidRegistry) : Action → Prop
  | .life (.register p desiredId) created =>
    ∀ g ∈ s.objects.lookup p, g.kind.isEntity → g.id ∈ s.factory.unregisteredHash →
      ∀ r ∈ s.factory.getFreeID desiredId, RegisterMeets qt s r.1 (s.uuids.lookup p) created
  | .life (.destruct p) _ => ∀ g ∈ s.objects.lookup p, View.Leaves s.uuidLookup s.view g.id
  | .life _ _ => True
  | .addData p value createdValue created =>
    ∀ g ∈ s.objects.lookup p, SetMeets s g (constructData qt value createdValue)
      (qt.getUUIDOfValue (constructData qt value createdValue) created)
  | .setValue p value created =>
    ∀ g ∈ s.objects.lookup p, ∀ old ∈ s.uuids.lookup p,
      SetMeets s g old (qt.getUUIDOfValue value created)
  | .removeData p =>
    ∀ g ∈ s.objects.lookup p, 0 < g.id →
      (∀ uuid ∈ s.uuidLookup.keys, s.uuidLookup.lookup uuid ≠ some g.id) ∧
        View.Leaves s.uuidLookup s.view g.id

/-- The condition on a lookup: a UUID without an entry is not answered with another entity, one
that is held under the temporary id `-1`. -/
def DefaultMeets (s : UuidRegistry) (uuid : String) : Prop :=
  uuid ∉ s.uuidLookup → ∀ p ∈ s.getEntity (-1), s.uuids.lookup p = some uuid

instance (s : UuidRegistry) (g : GraphML) (old new : String) : Decidable (SetMeets s g old new) := by
  unfold SetMeets
  infer_instance

instance (qt : Qt) (s : UuidRegistry) (id : Int) (uuid? : Option String) (created : String) :
    Decidable (RegisterMeets qt s id uuid? created) := by
  unfold RegisterMeets
  cases uuid? <;> infer_instance

instance (qt : Qt) (s : UuidRegistry) : ∀ a, Decidable (Meets qt s a)
  | .life (.construct _ _ _) _ | .life (.constructorThrew _) _ | .life (.returnUncached _) _
  | .life (.returnCached _) _ => instDecidableTrue
  | .life (.register _ _) _ | .life (.destruct _) _ | .addData _ _ _ _ | .setValue _ _ _
  | .removeData _ => by
    unfold Meets
    infer_instance

instance (s : UuidRegistry) (uuid : String) : Decidable (DefaultMeets s uuid) := by
  unfold DefaultMeets
  infer_instance

end UuidRegistry

end Sem.Medea
