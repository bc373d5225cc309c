import Sem.Lib.Run
import Mathlib.Data.Finset.Basic
import Mathlib.Logic.Function.Basic

/-!
# Data and their links

A `Data` has a value and may be linked to other `Data`, which take its value whenever it is set.
The link is kept on both sides. To set a value goes through the key of the `Data`, which may change
the value and may set other `Data` as well.

To set a value is a recursion that may not end, and so these functions have fuel.

* `setValue`, `updateChildren`: a value and who takes it.
* `linkData`, `unlinkData`, `destruct`: who is linked to whom.
* `dataSystem`: every run of these.
-/

namespace Sem.Medea

universe u

/-- What the classes of keys do, and how a `QSet` is gone through. -/
structure Hooks (Value : Type u) where
  /-- `QVariant()` -/
  invalid : Value
  /-- `QVariant("")` -/
  emptyString : Value
  /-- `Key::validateDataChange`: what becomes of a value, given the values of all `Data`. -/
  validateDataChange : (ℕ → Value) → ℕ → Value → Value
  /-- The `forceDataValue` in it: other `Data` whose values are changed behind the back of their
  keys. -/
  forced : (ℕ → Value) → ℕ → Value → List (ℕ × Value)
  /-- `Key::setData`: other `Data` that are set once the value is set. -/
  after : (ℕ → Value) → ℕ → List (ℕ × Value)
  /-- The order in which a `QSet` is gone through. -/
  iterate : Finset ℕ → List ℕ
  mem_iterate : ∀ s d, d ∈ iterate s ↔ d ∈ s

/-- All `Data`: the live ones, their values and their links. -/
structure DataState (Value : Type u) where
  datas : Finset ℕ
  value : ℕ → Value
  parentDatas : ℕ → Finset ℕ
  childDatas : ℕ → Finset ℕ

variable {Value : Type u} [DecidableEq Value] (hooks : Hooks Value)

/-! ## Values -/

/-- `Data::updateChildren`, with the recursive call. -/
def updateChildren (set : DataState Value → ℕ → Value → Option (DataState Value))
    (s : DataState Value) (d : ℕ) : Option (DataState Value) :=
  (hooks.iterate (s.childDatas d)).foldlM (fun s c => set s c (s.value d)) s

/-- `Data::_setData` -/
def _setData (set : DataState Value → ℕ → Value → Option (DataState Value)) (s : DataState Value)
    (d : ℕ) (newValue : Value) : Option (DataState Value) :=
  updateChildren hooks set { s with value := Function.update s.value d newValue } d

/-- `Data::setValue`, which is `setData` of the key. -/
def setValue : ℕ → DataState Value → ℕ → Value → Option (DataState Value)
  | 0, _, _, _ => none
  | fuel + 1, s, d, value =>
    ((hooks.forced s.value d value).foldlM
        (fun s' force => _setData hooks (setValue fuel) s' force.1 force.2) s).bind fun s' =>
      (_setData hooks (setValue fuel) s' d (hooks.validateDataChange s.value d value)).bind fun s' =>
        (hooks.after s'.value d).foldlM (fun s' next => setValue fuel s' next.1 next.2) s'

/-! ## Links -/

/-- `Data::addParentData` -/
def addParentData (fuel : ℕ) (s : DataState Value) (d parent : ℕ) : Option (DataState Value) :=
  if parent ∈ s.parentDatas d then some s
  else
    let s' := { s with
      parentDatas := Function.update s.parentDatas d (insert parent (s.parentDatas d)) }
    if s'.value parent = s'.value d then some s' else setValue hooks fuel s' d (s'.value parent)

/-- `Data::linkData` -/
def linkData (fuel : ℕ) (s : DataState Value) (d child : ℕ) : Option (DataState Value) :=
  if child ∈ s.childDatas d then some s
  else
    addParentData hooks fuel { s with
      childDatas := Function.update s.childDatas d (insert child (s.childDatas d)) } child d

/-- `Data::removeParentData` -/
def removeParentData (fuel : ℕ) (s : DataState Value) (d parent : ℕ) : Option (DataState Value) :=
  if parent ∈ s.parentDatas d then
    setValue hooks fuel { s with
      parentDatas := Function.update s.parentDatas d ((s.parentDatas d).erase parent) }
      d hooks.emptyString
  else some s

/-- `Data::unlinkData` -/
def unlinkData (fuel : ℕ) (s : DataState Value) (d child : ℕ) : Option (DataState Value) :=
  if child ∈ s.childDatas d then
    removeParentData hooks fuel { s with
      childDatas := Function.update s.childDatas d ((s.childDatas d).erase child) } child d
  else some s

/-! ## Birth and death -/

/-- `Data::Data`; only a valid value is set. -/
def construct (fuel : ℕ) (s : DataState Value) (d : ℕ) (value : Value) : Option (DataState Value) :=
  let s' : DataState Value :=
    { datas := insert d s.datas
      value := Function.update s.value d hooks.invalid
      parentDatas := Function.update s.parentDatas d ∅
      childDatas := Function.update s.childDatas d ∅ }
  if value = hooks.invalid then some s' else setValue hooks fuel s' d value

/-- The first loop of `Data::~Data`. -/
def unlinkParents (fuel : ℕ) : ℕ → DataState Value → ℕ → Option (DataState Value)
  | 0, _, _ => none
  | n + 1, s, d =>
    match hooks.iterate (s.parentDatas d) with
    | [] => some s
    | top :: _ => (unlinkData hooks fuel s top d).bind fun s' => unlinkParents fuel n s' d

/-- The second loop. -/
def unlinkChildren (fuel : ℕ) : ℕ → DataState Value → ℕ → Option (DataState Value)
  | 0, _, _ => none
  | n + 1, s, d =>
    match hooks.iterate (s.childDatas d) with
    | [] => some s
    | top :: _ => (unlinkData hooks fuel s d top).bind fun s' => unlinkChildren fuel n s' d

/-- `Data::~Data` -/
def destruct (fuel : ℕ) (s : DataState Value) (d : ℕ) : Option (DataState Value) :=
  (unlinkParents hooks fuel fuel s d).bind fun s' =>
    (unlinkChildren hooks fuel fuel s' d).map fun s' => { s' with datas := s'.datas.erase d }

/-- `Data::registerParent`, which sets the value again. -/
def registerParent (fuel : ℕ) (s : DataState Value) (d : ℕ) : Option (DataState Value) :=
  (setValue hooks fuel s d (s.value d)).bind fun s' =>
    updateChildren hooks (setValue hooks fuel) s' d

/-! ## Runs -/

/-- The calls of a `Data` object. -/
inductive DataAction (Value : Type u)
  | construct (d : ℕ) (value : Value)
  | destruct (d : ℕ)
  | registerParent (d : ℕ)
  | setValue (d : ℕ) (value : Value)
  | linkData (d child : ℕ)
  | unlinkData (d child : ℕ)

/-- What an action does, if it returns with that fuel. -/
def perform (fuel : ℕ) (s : DataState Value) : DataAction Value → Option (DataState Value)
  | .construct d value => if d ∈ s.datas then none else construct hooks fuel s d value
  | .destruct d => if d ∈ s.datas then destruct hooks fuel s d else none
  | .registerParent d => if d ∈ s.datas then registerParent hooks fuel s d else none
  | .setValue d value => if d ∈ s.datas then setValue hooks fuel s d value else none
  | .linkData d child =>
    if d ∈ s.datas ∧ child ∈ s.datas then linkData hooks fuel s d child else none
  | .unlinkData d child =>
    if d ∈ s.datas ∧ child ∈ s.datas then unlinkData hooks fuel s d child else none

/-- `Data` come and go, are linked and set. An action that does not return is no step. -/
def dataSystem : Lts (DataState Value) (DataAction Value) where
  init s := s = ⟨∅, fun _ => hooks.invalid, fun _ => ∅, fun _ => ∅⟩
  step s a s' := ∃ fuel, perform hooks fuel s a = some s'

end Sem.Medea
