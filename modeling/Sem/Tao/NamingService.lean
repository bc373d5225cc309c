import Sem.Lib.Xml
import Mathlib.Logic.Function.Basic

/-!
# A COS naming service

Contexts bind name components to objects and to other contexts. `rebind` replaces the binding of a
name, `resolve` follows the bound contexts component by component. Exceptions are `none`.

* `path`: contexts for all components but the last, one below the other, with an object at the end.
* `resolve_path_below`: below the first of them, only that object is found.
* `resolve_path_elsewhere`: under a name that begins otherwise, nothing changes.
-/

namespace Sem.Tao

open Xml (Text)

universe u

/-- `CosNaming::NameComponent`. -/
structure NameComponent where
  id : Text
  kind : Text
  deriving DecidableEq, Repr

/-- `CosNaming::Name`. -/
abbrev Name := List NameComponent

/-- Contexts by their numbers. -/
abbrev ContextId := ℕ

/-- What a name is bound to in a context. -/
inductive Binding (Ref : Type u)
  | object (ref : Ref)
  | context (context : ContextId)

/-- The contexts with a smaller id than `size` exist; the top context is `0`. -/
structure NamingService (Ref : Type u) where
  size : ℕ
  bindings : ContextId → NameComponent → Option (Binding Ref)

variable {Ref : Type u}

namespace NamingService

/-- A naming service with nothing but an empty top context. -/
def start : NamingService Ref := ⟨1, fun _ _ => none⟩

/-- A component is bound in a context, in place of what it was bound to. -/
def bind (ns : NamingService Ref) (context : ContextId) (component : NameComponent)
    (binding : Binding Ref) : NamingService Ref :=
  { ns with
    bindings := Function.update ns.bindings context
      (Function.update (ns.bindings context) component (some binding)) }

/-- `new_context` -/
def newContext (ns : NamingService Ref) : NamingService Ref × ContextId :=
  ({ size := ns.size + 1, bindings := Function.update ns.bindings ns.size fun _ => none }, ns.size)

/-- `rebind` and `rebind_context` -/
def rebind (ns : NamingService Ref) (context : ContextId) (name : Name) (binding : Binding Ref) :
    Option (NamingService Ref) :=
  match name with
  | [] => none
  | [component] => some (ns.bind context component binding)
  | component :: next :: rest =>
    match ns.bindings context component with
    | some (.context inner) => ns.rebind inner (next :: rest) binding
    | _ => none

/-- `resolve`, from a context on. -/
def resolve (ns : NamingService Ref) (context : ContextId) (name : Name) : Option Ref :=
  match name with
  | [] => none
  | [component] =>
    match ns.bindings context component with
    | some (.object ref) => some ref
    | _ => none
  | component :: next :: rest =>
    match ns.bindings context component with
    | some (.context inner) => ns.resolve inner (next :: rest)
    | _ => none

/-! ## Contexts one below the other -/

/-- Contexts are bound only if they exist, and never the top one. -/
structure WellFormed (ns : NamingService Ref) : Prop where
  size_pos : 0 < ns.size
  inner : ∀ context component inner, ns.bindings context component = some (.context inner) →
    0 < inner ∧ inner < ns.size

/-- The components of all but the last context. -/
def contexts (ids : List Text) : Name := ids.map (⟨·, []⟩)

/-- New contexts below the context, and the binding at their end. -/
def path (ns : NamingService Ref) (context : ContextId) (ids : List Text)
    (component : NameComponent) (binding : Binding Ref) : NamingService Ref :=
  match ids with
  | [] => ns.bind context component binding
  | id :: ids =>
    (ns.newContext.1.bind context ⟨id, []⟩ (.context ns.size)).path ns.size ids component binding

variable {ns ns' : NamingService Ref} {context : ContextId} {ids : List Text}
  {component : NameComponent} {binding : Binding Ref}

theorem wellFormed_start : (start : NamingService Ref).WellFormed :=
  ⟨Nat.zero_lt_one, nofun⟩

theorem bindings_bind_self (ns : NamingService Ref) (context : ContextId) (component : NameComponent)
    (binding : Binding Ref) (component' : NameComponent) :
    (ns.bind context component binding).bindings context component' =
      if component' = component then some binding else ns.bindings context component' := by
  show Function.update ns.bindings context _ context component' = _
  rw [Function.update_self, Function.update_apply]

theorem bindings_bind_of_ne {d : ContextId} (h : d ≠ context) (component : NameComponent)
    (binding : Binding Ref) : (ns.bind context component binding).bindings d = ns.bindings d :=
  Function.update_of_ne h _ _

theorem bindings_newContext_of_ne {d : ContextId} (h : d ≠ ns.size) :
    ns.newContext.1.bindings d = ns.bindings d :=
  Function.update_of_ne h _ _

theorem bindings_newContext_self (ns : NamingService Ref) :
    ns.newContext.1.bindings ns.size = fun _ => none :=
  Function.update_self ..

theorem WellFormed.bind (h : ns.WellFormed)
    (hbinding : ∀ inner, binding = .context inner → 0 < inner ∧ inner < ns.size) :
    (ns.bind context component binding).WellFormed := by
  refine ⟨h.size_pos, fun d component' inner hinner => ?_⟩
  by_cases hd : d = context
  · subst hd
    rw [bindings_bind_self] at hinner
    by_cases hc : component' = component
    · rw [if_pos hc] at hinner
      exact hbinding inner (Option.some.inj hinner)
    · rw [if_neg hc] at hinner
      exact h.inner _ _ _ hinner
  · rw [bindings_bind_of_ne hd] at hinner
    exact h.inner _ _ _ hinner

theorem WellFormed.newContext (h : ns.WellFormed) : ns.newContext.1.WellFormed := by
  refine ⟨Nat.succ_pos _, fun d component inner hinner => ?_⟩
  by_cases hd : d = ns.size
  · rw [hd, bindings_newContext_self] at hinner
    cases hinner
  · rw [bindings_newContext_of_ne hd] at hinner
    obtain ⟨hpos, hlt⟩ := h.inner _ _ _ hinner
    exact ⟨hpos, Nat.lt_succ_of_lt hlt⟩

/-- The first of the contexts is made. -/
theorem WellFormed.enter (h : ns.WellFormed) (id : Text) :
    (ns.newContext.1.bind context ⟨id, []⟩ (.context ns.size)).WellFormed := by
  refine h.newContext.bind fun inner hinner => ?_
  cases hinner
  exact ⟨h.size_pos, Nat.lt_succ_self _⟩

/-- Only the context itself and new ones change. -/
theorem bindings_path {d : ContextId} (hd : d < ns.size) (hne : d ≠ context) :
    (ns.path context ids component binding).bindings d = ns.bindings d := by
  induction ids generalizing ns context with
  | nil => exact bindings_bind_of_ne hne _ _
  | cons id ids ih =>
    have hsize : d ≠ ns.size := Nat.ne_of_lt hd
    rw [path, ih (Nat.lt_succ_of_lt hd) hsize, bindings_bind_of_ne hne,
      bindings_newContext_of_ne hsize]

theorem WellFormed.path (h : ns.WellFormed) (ref : Ref) :
    (ns.path context ids component (.object ref)).WellFormed := by
  induction ids generalizing ns context with
  | nil => exact h.bind nofun
  | cons id ids ih => exact ih (h.enter id)

/-- In the context itself, the first component is bound. -/
theorem bindings_path_self (hcontext : context < ns.size) (id : Text) (ids : List Text)
    (component' : NameComponent) :
    (ns.path context (id :: ids) component binding).bindings context component' =
      if component' = ⟨id, []⟩ then some (.context ns.size) else ns.bindings context component' := by
  have hne : context ≠ ns.size := Nat.ne_of_lt hcontext
  rw [path, bindings_path (Nat.lt_succ_of_lt hcontext) hne, bindings_bind_self,
    bindings_newContext_of_ne hne]

/-- From an empty context, only the object at the end of the path is found. -/
theorem resolve_path {ref : Ref} (hcontext : context < ns.size)
    (hempty : ns.bindings context = fun _ => none) (name : Name) :
    (ns.path context ids component (.object ref)).resolve context name =
      if name = contexts ids ++ [component] then some ref else none := by
  induction ids generalizing ns context name with
  | nil =>
    have hbindings : ∀ c, (ns.path context [] component (.object ref)).bindings context c =
        if c = component then some (.object ref) else none := by
      intro c
      rw [path, bindings_bind_self, hempty]
    match name with
    | [] => simp [resolve, contexts]
    | [c] =>
      rw [resolve, hbindings]
      by_cases hc : c = component <;> simp [hc, contexts]
    | c :: next :: rest =>
      rw [resolve, hbindings]
      by_cases hc : c = component <;> simp [hc, contexts]
  | cons id ids ih =>
    have hbindings : ∀ c, (ns.path context (id :: ids) component (.object ref)).bindings context c =
        if c = ⟨id, []⟩ then some (.context ns.size) else none := by
      intro c
      rw [bindings_path_self hcontext, hempty]
    match name with
    | [] => simp [resolve, contexts]
    | [c] =>
      rw [resolve, hbindings]
      by_cases hc : c = ⟨id, []⟩ <;> simp [hc, contexts]
    | c :: next :: rest =>
      rw [resolve, hbindings]
      by_cases hc : c = ⟨id, []⟩
      · have hnew : ((ns.newContext.1.bind context ⟨id, []⟩ (.context ns.size)).bindings ns.size) =
            fun _ => none := by
          rw [bindings_bind_of_ne (Nat.ne_of_gt hcontext), bindings_newContext_self]
        subst hc
        rw [if_pos rfl]
        exact (ih (Nat.lt_succ_self ns.size) hnew (next :: rest)).trans
          (if_congr (by simp [contexts]) rfl rfl)
      · simp [hc, contexts]

/-- What is found depends on the contexts on the way. -/
theorem resolve_congr (h : ns.WellFormed)
    (hsame : ∀ d, 0 < d → d < ns.size → ns'.bindings d = ns.bindings d) {d : ContextId}
    (hpos : 0 < d) (hd : d < ns.size) (name : Name) : ns'.resolve d name = ns.resolve d name := by
  induction name generalizing d with
  | nil => rfl
  | cons c rest ih =>
    cases rest with
    | nil => rw [resolve, resolve, hsame d hpos hd]
    | cons next rest =>
      rw [resolve, resolve, hsame d hpos hd]
      cases hc : ns.bindings d c with
      | none => rfl
      | some binding =>
        cases binding with
        | object ref => rfl
        | context inner =>
          obtain ⟨hinner, hlt⟩ := h.inner d c inner hc
          exact ih hinner hlt

/-- From the top context it also depends on the first binding. -/
theorem resolve_top (h : ns.WellFormed)
    (hsame : ∀ d, 0 < d → d < ns.size → ns'.bindings d = ns.bindings d) {c : NameComponent}
    (hc : ns'.bindings 0 c = ns.bindings 0 c) (rest : Name) :
    ns'.resolve 0 (c :: rest) = ns.resolve 0 (c :: rest) := by
  cases rest with
  | nil => rw [resolve, resolve, hc]
  | cons next rest =>
    rw [resolve, resolve, hc]
    cases hbinding : ns.bindings 0 c with
    | none => rfl
    | some binding =>
      cases binding with
      | object ref => rfl
      | context inner =>
        obtain ⟨hinner, hlt⟩ := h.inner 0 c inner hbinding
        exact resolve_congr h hsame hinner hlt _

/-- Under a name that begins otherwise than the path, nothing changes. -/
theorem resolve_path_elsewhere {ref : Ref} (h : ns.WellFormed) {name : Name}
    (hname : name.head? ≠ (contexts ids ++ [component]).head?) :
    (ns.path 0 ids component (.object ref)).resolve 0 name = ns.resolve 0 name := by
  have hsame : ∀ d, 0 < d → d < ns.size →
      (ns.path 0 ids component (.object ref)).bindings d = ns.bindings d :=
    fun d hpos hd => bindings_path hd (Nat.ne_of_gt hpos)
  cases name with
  | nil => rfl
  | cons c rest =>
    refine resolve_top h hsame ?_ rest
    cases ids with
    | nil =>
      have hc : c ≠ component := fun hc => hname (by rw [hc]; rfl)
      rw [path, bindings_bind_self, if_neg hc]
    | cons id ids =>
      have hc : c ≠ ⟨id, []⟩ := fun hc => hname (by rw [hc]; rfl)
      rw [bindings_path_self h.size_pos, if_neg hc]

/-- Below the first context of the path, only the object at its end is found. -/
theorem resolve_path_below {ref : Ref} (h : ns.WellFormed) (id : Text) {rest : Name}
    (hrest : rest ≠ []) :
    (ns.path 0 (id :: ids) component (.object ref)).resolve 0 (⟨id, []⟩ :: rest) =
      if rest = contexts ids ++ [component] then some ref else none := by
  have hnew : (ns.newContext.1.bind 0 ⟨id, []⟩ (.context ns.size)).bindings ns.size =
      fun _ => none := by
    rw [bindings_bind_of_ne (Nat.ne_of_gt h.size_pos), bindings_newContext_self]
  cases rest with
  | nil => exact absurd rfl hrest
  | cons next rest =>
    rw [resolve, bindings_path_self h.size_pos, if_pos rfl]
    exact resolve_path (Nat.lt_succ_self ns.size) hnew (next :: rest)

end NamingService

end Sem.Tao
