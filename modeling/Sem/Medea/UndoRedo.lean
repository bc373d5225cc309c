import Sem.Lib.Run
import Mathlib.Data.List.SplitBy
import Mathlib.Logic.Function.Iterate

/-!
# Undo and redo of value changes

The `ModelController` pushes every change of a value on a stack, with the id of the user action that
it is part of. Undo takes all changes with the id of the top and sets the old values again, which
pushes the inverse changes on the other stack, under a new id.

What it means to set a value is the business of the model's data (`DataLayer`).

* `userAction`, `undo`, `redo`: the operations.
* `historySystem`: every run of these.
-/

namespace Sem.Medea

universe u v w

/-- The data of a model. A `Ref` is an entity and a key name. -/
structure DataLayer (D : Type u) (Ref : Type v) (Value : Type w) where
  /-- `Entity::getDataValue` -/
  getDataValue : D → Ref → Value
  /-- `Entity::setDataValue`, with whether the value of the data has changed. -/
  setDataValue : D → Ref → Value → D × Bool

/-- A modification of data. -/
structure HistoryAction (Ref : Type v) (Value : Type w) where
  id : ℕ
  name : String
  ref : Ref
  oldValue : Value
  newValue : Value

/-- The part of the `ModelController` that undo and redo are about; the head of a stack is its
top. -/
structure ModelController (D : Type u) (Ref : Type v) (Value : Type w) where
  data : D
  undoStack : List (HistoryAction Ref Value)
  redoStack : List (HistoryAction Ref Value)
  actionCount : ℕ
  currentAction : String
  currentActionID : ℕ

/-- `MODEL_ACTION`, as far as it matters here. -/
inductive ModelAction
  | none | undo | redo
  deriving DecidableEq

variable {D : Type u} {Ref : Type v} {Value : Type w}

namespace ModelController

/-- `addActionToStack`: while undoing, an action goes to the other stack. -/
def addActionToStack (mode : ModelAction) (m : ModelController D Ref Value)
    (action : HistoryAction Ref Value) : ModelController D Ref Value :=
  if mode = .undo then { m with redoStack := action :: m.redoStack }
  else { m with undoStack := action :: m.undoStack }

/-- `setData_` of data that exists. -/
def setData (layer : DataLayer D Ref Value) (mode : ModelAction)
    (m : ModelController D Ref Value) (ref : Ref) (value : Value) : ModelController D Ref Value :=
  let changed := layer.setDataValue m.data ref value
  let m' := { m with data := changed.1 }
  if changed.2 then
    addActionToStack mode m' ⟨m.currentActionID, m.currentAction, ref,
      layer.getDataValue m.data ref, layer.getDataValue changed.1 ref⟩
  else m'

/-- `triggerAction`: what follows belongs to a new action. -/
def triggerAction (m : ModelController D Ref Value) (name : String) : ModelController D Ref Value :=
  { m with
    actionCount := m.actionCount + 1
    currentAction := name
    currentActionID := m.actionCount + 1 }

/-- `reverseAction` of a modification. -/
def reverseAction (layer : DataLayer D Ref Value) (mode : ModelAction)
    (m : ModelController D Ref Value) (action : HistoryAction Ref Value) :
    ModelController D Ref Value :=
  setData layer mode m action.ref action.oldValue

/-- The stack that `undoRedo` takes the actions from. -/
def actionStack (mode : ModelAction) (m : ModelController D Ref Value) :
    List (HistoryAction Ref Value) :=
  match mode with
  | .none => []
  | .undo => m.undoStack
  | .redo => m.redoStack

/-- `QStack::swap` with that stack. -/
def setActionStack (mode : ModelAction) (m : ModelController D Ref Value)
    (stack : List (HistoryAction Ref Value)) : ModelController D Ref Value :=
  match mode with
  | .none => m
  | .undo => { m with undoStack := stack }
  | .redo => { m with redoStack := stack }

/-- The stack is put aside while the top group is reversed, and what is left of it put back. -/
def undoRedo (layer : DataLayer D Ref Value) (mode : ModelAction)
    (m : ModelController D Ref Value) : ModelController D Ref Value :=
  match actionStack mode m with
  | [] => m
  | top :: rest =>
    let m' := triggerAction (setActionStack mode m []) top.name
    let m' := ((top :: rest).takeWhile fun action => action.id = top.id).foldl
      (reverseAction layer mode) m'
    setActionStack mode m' ((top :: rest).dropWhile fun action => action.id = top.id)

/-- `canUndo`. -/
def canUndo (m : ModelController D Ref Value) : Bool := !m.undoStack.isEmpty

/-- `canRedo`. -/
def canRedo (m : ModelController D Ref Value) : Bool := !m.redoStack.isEmpty

/-- `undo`. -/
def undo (layer : DataLayer D Ref Value) (m : ModelController D Ref Value) :
    ModelController D Ref Value :=
  if canUndo m then undoRedo layer .undo m else m

/-- `redo`. -/
def redo (layer : DataLayer D Ref Value) (m : ModelController D Ref Value) :
    ModelController D Ref Value :=
  if canRedo m then undoRedo layer .redo m else m

end ModelController

/-- A user action: its name and the values that it sets. -/
structure UserAction (Ref : Type v) (Value : Type w) where
  name : String
  changes : List (Ref × Value)

namespace ModelController

/-- The changes of one action of the user. -/
def userAction (layer : DataLayer D Ref Value) (m : ModelController D Ref Value)
    (action : UserAction Ref Value) : ModelController D Ref Value :=
  action.changes.foldl (fun m change => setData layer .none m change.1 change.2)
    (triggerAction m action.name)

/-- One user action after the other. -/
def userActions (layer : DataLayer D Ref Value) (m : ModelController D Ref Value)
    (actions : List (UserAction Ref Value)) : ModelController D Ref Value :=
  actions.foldl (userAction layer) m

/-- The user actions that change a value. -/
def effective (layer : DataLayer D Ref Value) :
    ModelController D Ref Value → List (UserAction Ref Value) → ℕ
  | _, [] => 0
  | m, action :: actions =>
    let m' := userAction layer m action
    (if m.undoStack.length < m'.undoStack.length then 1 else 0) + effective layer m' actions

/-- The changes on a stack, by the user action that they are part of. -/
def groups (stack : List (HistoryAction Ref Value)) : List (List (String × Ref × Value × Value)) :=
  (stack.splitBy fun a b => a.id == b.id).map fun group =>
    group.map fun a => (a.name, a.ref, a.oldValue, a.newValue)

end ModelController

/-- What the user does. -/
inductive HistoryEvent (Ref : Type v) (Value : Type w)
  | userAction (action : UserAction Ref Value)
  | undo
  | redo

open ModelController

/-- User actions, undo and redo in any order, from any data. -/
def historySystem (layer : DataLayer D Ref Value) :
    Lts (ModelController D Ref Value) (HistoryEvent Ref Value) where
  init m := m.undoStack = [] ∧ m.redoStack = []
  step m e m' := m' = match e with
    | .userAction action => userAction layer m action
    | .undo => undo layer m
    | .redo => redo layer m

/-- The change can be taken back and made again: to set the old value gives all data its value
again, and so does to set the new value then. A change of nothing changes nothing. -/
def Reversible (layer : DataLayer D Ref Value) (data : D) (ref : Ref) (value : Value) : Prop :=
  let changed := layer.setDataValue data ref value
  if changed.2 then
    layer.setDataValue changed.1 ref (layer.getDataValue data ref) = (data, true) ∧
      layer.setDataValue data ref (layer.getDataValue changed.1 ref) = (changed.1, true)
  else changed.1 = data

/-- Each of the changes can. -/
def AllReversible (layer : DataLayer D Ref Value) : D → List (Ref × Value) → Prop
  | _, [] => True
  | data, change :: changes => Reversible layer data change.1 change.2 ∧
      AllReversible layer (layer.setDataValue data change.1 change.2).1 changes

end Sem.Medea
