import Sem.Tao.NamingService

/-!
# Registrations with the naming service

A servant is registered under an object name and a server kind. For each component but the last,
`register_servant_via_namingservice` makes a new context and binds it in place of the one that is
there, with all that is registered below it.

* `registerServant_eq`: a registration makes new contexts down to the object.
* `resolves_iff`: after registrations with names none of which is the beginning of another, each
  object is found exactly if no later registration has the same first component (`Undisturbed`).
* `not_resolves`: two servants of one component instance.
-/

namespace Sem.Tao

open Xml (Text)

variable {Ref : Type}

namespace TaoHelper

/-- `GetCosName`. The names and kinds hold no NUL, at which `c_str()` would cut them. -/
def getCosName (objectName : List Text) (serverKind : Text) : Option Name :=
  if objectName.length = 0 then none
  else
    some (objectName.mapIdx fun i id =>
      ⟨id, if i = objectName.length - 1 then serverKind else []⟩)

/-- The loop of `register_servant_via_namingservice`, from the context that `name_context` is. -/
def constructContexts (ns : NamingService Ref) (nameContext : ContextId) :
    List Text → Option (NamingService Ref)
  | [] => some ns
  | id :: ids => do
    let (ns, context) := ns.newContext
    let cosName ← getCosName [id] []
    let ns ← ns.rebind nameContext cosName (.context context)
    constructContexts ns context ids

/-- `register_servant_via_namingservice`, with the reference of the activated servant. -/
def registerServant (ns : NamingService Ref) (ref : Ref) (objectName : List Text)
    (serverKind : Text) : Option (NamingService Ref) := do
  let ns ← constructContexts ns 0 objectName.dropLast
  let cosName ← getCosName objectName serverKind
  ns.rebind 0 cosName (.object ref)

/-- `resolve_reference_via_namingservice` -/
def resolveReference (ns : NamingService Ref) (objectName : List Text) (serverKind : Text) :
    Option Ref := do
  let cosName ← getCosName objectName serverKind
  ns.resolve 0 cosName

end TaoHelper

/-- A call of `register_servant_via_namingservice`. -/
structure Registration (Ref : Type) where
  objectName : List Text
  serverKind : Text
  ref : Ref

namespace Registration

/-- One call after the other. -/
def registerAll (ns : NamingService Ref) (rs : List (Registration Ref)) :
    Option (NamingService Ref) :=
  rs.foldlM (fun ns r => TaoHelper.registerServant ns r.ref r.objectName r.serverKind) ns

/-- The two are registered under the same name and kind. -/
def SameKey (r s : Registration Ref) : Prop :=
  r.objectName = s.objectName ∧ r.serverKind = s.serverKind

instance (r s : Registration Ref) : Decidable (SameKey r s) :=
  inferInstanceAs (Decidable (_ ∧ _))

/-- The second one replaces the context that the first one is in. -/
def Disturbs (objectName : List Text) (s : Registration Ref) : Prop :=
  2 ≤ objectName.length ∧ 2 ≤ s.objectName.length ∧ objectName.head? = s.objectName.head?

instance (objectName : List Text) (s : Registration Ref) : Decidable (Disturbs objectName s) :=
  inferInstanceAs (Decidable (_ ∧ _))

/-- No call fails, and what was registered last under a name and a kind is found there. -/
def Resolves (rs : List (Registration Ref)) : Prop :=
  ∃ ns, registerAll .start rs = some ns ∧
    ∀ before r after, rs = before ++ r :: after → (∀ s ∈ after, ¬ SameKey r s) →
      TaoHelper.resolveReference ns r.objectName r.serverKind = some r.ref

/-- No name is the beginning of another. -/
def PrefixFree (rs : List (Registration Ref)) : Prop :=
  ∀ r ∈ rs, ∀ s ∈ rs, r.objectName <+: s.objectName → r.objectName = s.objectName

instance (rs : List (Registration Ref)) : Decidable (PrefixFree rs) :=
  inferInstanceAs (Decidable (∀ r ∈ rs, ∀ s ∈ rs, _))

/-- After what was registered last under a name and a kind, no registration replaces its context. -/
def Undisturbed (rs : List (Registration Ref)) : Prop :=
  ∀ before r after, rs = before ++ r :: after → (∀ s ∈ after, ¬ SameKey r s) →
    ∀ s ∈ after, ¬ Disturbs r.objectName s

end Registration

namespace TaoHelper

open NamingService

variable {ns : NamingService Ref} {ids objectName : List Text} {id serverKind : Text} {ref : Ref}

theorem getCosName_concat (ids : List Text) (id serverKind : Text) :
    getCosName (ids ++ [id]) serverKind = some (contexts ids ++ [⟨id, serverKind⟩]) := by
  have hlength : (ids ++ [id]).length ≠ 0 := by simp
  rw [getCosName, if_neg hlength, List.mapIdx_append, List.mapIdx_singleton]
  congr 2
  · rw [contexts, List.mapIdx_eq_zipIdx_map]
    apply List.ext_getElem
    · simp
    · intro i hi hi'
      have hlt : i < ids.length := by simpa using hi'
      simp
      omega
  · simp

/-- The loop makes the contexts, and the binding of the whole name goes to their end. -/
theorem constructContexts_spec {context : ContextId} (hcontext : context < ns.size)
    (ids : List Text) :
    ∃ ns', constructContexts ns context ids = some ns' ∧
      (∀ d, d < ns.size → d ≠ context → ns'.bindings d = ns.bindings d) ∧
      ∀ component binding, ns'.rebind context (contexts ids ++ [component]) binding =
        some (ns.path context ids component binding) := by
  induction ids generalizing ns context with
  | nil => exact ⟨ns, rfl, fun _ _ _ => rfl, fun _ _ => rfl⟩
  | cons id ids ih =>
    obtain ⟨ns', hns', hframe, hrebind⟩ := @ih
      (ns.newContext.1.bind context ⟨id, []⟩ (.context ns.size)) ns.size (Nat.lt_succ_self ns.size)
    have hne : ∀ {d}, d < ns.size → d ≠ ns.size := fun h => Nat.ne_of_lt h
    have hentered : ns'.bindings context ⟨id, []⟩ = some (.context ns.size) := by
      rw [hframe context (Nat.lt_succ_of_lt hcontext) (hne hcontext), bindings_bind_self,
        if_pos rfl]
    refine ⟨ns', ?_, fun d hd hdc => ?_, fun component binding => ?_⟩
    · have hcos : getCosName [id] [] = some [⟨id, []⟩] := getCosName_concat [] id []
      show (do
        let cosName ← getCosName [id] []
        let ns' ← ns.newContext.1.rebind context cosName (.context ns.size)
        constructContexts ns' ns.size ids) = _
      rw [hcos]
      exact hns'
    · rw [hframe d (Nat.lt_succ_of_lt hd) (hne hd), bindings_bind_of_ne hdc,
        bindings_newContext_of_ne (hne hd)]
    · have hname : contexts (id :: ids) ++ [component] =
          ⟨id, []⟩ :: (contexts ids ++ [component]) := rfl
      rw [hname]
      cases hrest : contexts ids ++ [component] with
      | nil => simp at hrest
      | cons next rest =>
        rw [rebind, hentered]
        show ns'.rebind ns.size (next :: rest) binding = _
        rw [← hrest, hrebind]
        rfl

/-- A registration makes new contexts down to the object. -/
theorem registerServant_eq (h : ns.WellFormed) (ids : List Text) (id serverKind : Text)
    (ref : Ref) :
    registerServant ns ref (ids ++ [id]) serverKind =
      some (ns.path 0 ids ⟨id, serverKind⟩ (.object ref)) := by
  obtain ⟨ns', hns', -, hrebind⟩ := constructContexts_spec h.size_pos ids
  have hcos := getCosName_concat ids id serverKind
  unfold registerServant
  rw [List.dropLast_concat, hns', hcos]
  exact hrebind _ _

theorem resolveReference_concat (ns : NamingService Ref) (ids : List Text) (id serverKind : Text) :
    resolveReference ns (ids ++ [id]) serverKind =
      ns.resolve 0 (contexts ids ++ [⟨id, serverKind⟩]) := by
  rw [resolveReference, getCosName_concat]
  rfl

end TaoHelper

namespace Registration

open NamingService TaoHelper

variable {ns : NamingService Ref} {r s : Registration Ref} {after : List (Registration Ref)}
  {objectName : List Text} {serverKind : Text}

theorem contexts_inj {ids ids' : List Text} : contexts ids = contexts ids' ↔ ids = ids' := by
  have hinj : Function.Injective fun t : Text => (⟨t, []⟩ : NameComponent) := by
    intro t t' h
    exact (NameComponent.mk.inj h).1
  exact hinj.list_map.eq_iff

/-- What a registration does to what is found under a name that it is not the beginning of, and
that is not a beginning of it. -/
theorem resolveReference_register (h : ns.WellFormed) (hr : s.objectName ≠ [])
    (hname : objectName ≠ [])
    (hshorter : objectName <+: s.objectName → objectName = s.objectName)
    (hlonger : s.objectName <+: objectName → s.objectName = objectName) :
    ∃ ns', registerServant ns s.ref s.objectName s.serverKind = some ns' ∧ ns'.WellFormed ∧
      resolveReference ns' objectName serverKind =
        if objectName = s.objectName ∧ serverKind = s.serverKind then some s.ref
        else if Disturbs objectName s then none
        else resolveReference ns objectName serverKind := by
  obtain ⟨registered, kind, ref⟩ := s
  obtain ⟨ids, id, rfl⟩ := (List.eq_nil_or_concat' registered).resolve_left hr
  obtain ⟨ids', id', rfl⟩ := (List.eq_nil_or_concat' objectName).resolve_left hname
  refine ⟨_, registerServant_eq h ids id kind ref, h.path _, ?_⟩
  rw [resolveReference_concat, resolveReference_concat]
  cases ids with
  | nil =>
    cases ids' with
    | nil =>
      -- one binding of the top context each
      by_cases hc : id' = id ∧ serverKind = kind
      · obtain ⟨rfl, rfl⟩ := hc
        simp [contexts, path, resolve, bindings_bind_self]
      · have hhead : (contexts [] ++ [(⟨id', serverKind⟩ : NameComponent)]).head? ≠
            (contexts [] ++ [(⟨id, kind⟩ : NameComponent)]).head? := by
          simpa [contexts] using hc
        rw [resolve_path_elsewhere h hhead]
        simp [hc, Disturbs]
    | cons c' cs' =>
      have hc : c' ≠ id := by
        rintro rfl
        simpa using hlonger ⟨cs' ++ [id'], rfl⟩
      have hhead : (contexts (c' :: cs') ++ [(⟨id', serverKind⟩ : NameComponent)]).head? ≠
          (contexts [] ++ [(⟨id, kind⟩ : NameComponent)]).head? := by
        simp [contexts, hc]
      rw [resolve_path_elsewhere h hhead]
      simp [Disturbs]
  | cons c cs =>
    cases ids' with
    | nil =>
      have hc : id' ≠ c := by
        rintro rfl
        simpa using hshorter ⟨cs ++ [id], rfl⟩
      have hhead : (contexts [] ++ [(⟨id', serverKind⟩ : NameComponent)]).head? ≠
          (contexts (c :: cs) ++ [(⟨id, kind⟩ : NameComponent)]).head? := by
        simp [contexts, hc]
      rw [resolve_path_elsewhere h hhead]
      simp [Disturbs]
    | cons c' cs' =>
      by_cases hc : c' = c
      · subst hc
        -- the context that the name begins with is a new one
        have hrest : contexts cs' ++ [⟨id', serverKind⟩] ≠ [] := by simp
        refine (resolve_path_below h c' hrest).trans ?_
        simp [contexts_inj, and_assoc, Disturbs]
      · have hhead : (contexts (c' :: cs') ++ [(⟨id', serverKind⟩ : NameComponent)]).head? ≠
            (contexts (c :: cs) ++ [(⟨id, kind⟩ : NameComponent)]).head? := by
          simp [contexts, hc]
        rw [resolve_path_elsewhere h hhead]
        simp [hc, Disturbs]

/-- The name may stand beside the registered ones. -/
def Beside (objectName : List Text) (s : Registration Ref) : Prop :=
  s.objectName ≠ [] ∧ (objectName <+: s.objectName → objectName = s.objectName) ∧
    (s.objectName <+: objectName → s.objectName = objectName)

/-- What the registrations that follow leave of it. -/
theorem resolveReference_registerAll (h : ns.WellFormed) (hname : objectName ≠ [])
    (hbeside : ∀ s ∈ after, Beside objectName s)
    (hkey : ∀ s ∈ after, ¬ (objectName = s.objectName ∧ serverKind = s.serverKind)) :
    ∃ ns', registerAll ns after = some ns' ∧ ns'.WellFormed ∧
      resolveReference ns' objectName serverKind =
        if ∃ s ∈ after, Disturbs objectName s then none
        else resolveReference ns objectName serverKind := by
  induction after generalizing ns with
  | nil => exact ⟨ns, rfl, h, by simp⟩
  | cons s after ih =>
    obtain ⟨hs, hshorter, hlonger⟩ := hbeside s List.mem_cons_self
    obtain ⟨ns₁, hns₁, h₁, hfound₁⟩ := @resolveReference_register Ref ns s objectName serverKind
      h hs hname hshorter hlonger
    obtain ⟨ns₂, hns₂, h₂, hfound₂⟩ := ih h₁
      (fun t ht => hbeside t (List.mem_cons_of_mem s ht))
      (fun t ht => hkey t (List.mem_cons_of_mem s ht))
    refine ⟨ns₂, ?_, h₂, ?_⟩
    · show (do
        let ns' ← registerServant ns s.ref s.objectName s.serverKind
        registerAll ns' after) = _
      rw [hns₁]
      exact hns₂
    · rw [hfound₂, hfound₁, if_neg (hkey s List.mem_cons_self)]
      by_cases hd : Disturbs objectName s <;> simp [hd]

theorem registerAll_append (ns : NamingService Ref) (before after : List (Registration Ref)) :
    registerAll ns (before ++ after) =
      (registerAll ns before).bind fun ns' => registerAll ns' after :=
  List.foldlM_append

/-- No call fails if every name has a component. -/
theorem registerAll_wellFormed {rs : List (Registration Ref)} (h : ns.WellFormed)
    (hrs : ∀ r ∈ rs, r.objectName ≠ []) :
    ∃ ns', registerAll ns rs = some ns' ∧ ns'.WellFormed := by
  induction rs generalizing ns with
  | nil => exact ⟨ns, rfl, h⟩
  | cons r rs ih =>
    obtain ⟨ids, id, hids⟩ := (List.eq_nil_or_concat' r.objectName).resolve_left
      (hrs r List.mem_cons_self)
    obtain ⟨ns', hns', h'⟩ := ih (h.path r.ref)
      fun s hs => hrs s (List.mem_cons_of_mem r hs)
    refine ⟨ns', ?_, h'⟩
    show (do
      let ns' ← registerServant ns r.ref r.objectName r.serverKind
      registerAll ns' rs) = _
    rw [hids, registerServant_eq h]
    exact hns'

theorem objectName_ne_nil {rs : List (Registration Ref)} {ns' : NamingService Ref}
    (h : registerAll ns rs = some ns') : ∀ r ∈ rs, r.objectName ≠ [] := by
  intro r hr hname
  obtain ⟨before, after, rfl⟩ := List.append_of_mem hr
  rw [registerAll_append] at h
  obtain ⟨ns₁, -, h₁⟩ := Option.bind_eq_some_iff.mp h
  have hfails : registerServant ns₁ r.ref r.objectName r.serverKind = none := by
    rw [hname]
    rfl
  change (do
    let ns' ← registerServant ns₁ r.ref r.objectName r.serverKind
    registerAll ns' after) = _ at h₁
  rw [hfails] at h₁
  cases h₁

/-- What is found of a registration at the end. -/
theorem resolveReference_last {before : List (Registration Ref)} (h : ns.WellFormed)
    (hrs : ∀ s ∈ before ++ r :: after, s.objectName ≠ [])
    (hfree : PrefixFree (before ++ r :: after)) (hkey : ∀ s ∈ after, ¬ SameKey r s) :
    ∃ ns', registerAll ns (before ++ r :: after) = some ns' ∧
      resolveReference ns' r.objectName r.serverKind =
        if ∃ s ∈ after, Disturbs r.objectName s then none else some r.ref := by
  have hr : r ∈ before ++ r :: after := by simp
  have hafter : ∀ s ∈ after, s ∈ before ++ r :: after := fun s hs => by simp [hs]
  obtain ⟨ns₁, hns₁, h₁⟩ := registerAll_wellFormed h
    fun s hs => hrs s (List.mem_append_left (r :: after) hs)
  obtain ⟨ns₂, hns₂, h₂, hfound₂⟩ := @resolveReference_register Ref ns₁ r r.objectName r.serverKind
    h₁ (hrs r hr) (hrs r hr) (fun _ => rfl) (fun _ => rfl)
  obtain ⟨ns₃, hns₃, -, hfound₃⟩ := resolveReference_registerAll h₂ (hrs r hr)
    (fun s hs => ⟨hrs s (hafter s hs), hfree r hr s (hafter s hs),
      hfree s (hafter s hs) r hr⟩) hkey
  refine ⟨ns₃, ?_, ?_⟩
  · rw [registerAll_append, hns₁]
    show (do
      let ns' ← registerServant ns₁ r.ref r.objectName r.serverKind
      registerAll ns' after) = _
    rw [hns₂]
    exact hns₃
  · have hself : r.objectName = r.objectName ∧ r.serverKind = r.serverKind := ⟨rfl, rfl⟩
    rw [hfound₃, hfound₂, if_pos hself]

/-- Each object is found exactly if the context it is in is not replaced after it. -/
theorem resolves_iff {rs : List (Registration Ref)} (hfree : PrefixFree rs) :
    Resolves rs ↔ (∀ r ∈ rs, r.objectName ≠ []) ∧ Undisturbed rs := by
  constructor
  · rintro ⟨ns, hns, hfound⟩
    have hrs := objectName_ne_nil hns
    refine ⟨hrs, fun before r after hsplit hkey s hs hdisturbs => ?_⟩
    have hr := hfound before r after hsplit hkey
    subst hsplit
    obtain ⟨ns', hns', hlast⟩ := resolveReference_last wellFormed_start hrs hfree hkey
    cases hns.symm.trans hns'
    rw [hlast, if_pos ⟨s, hs, hdisturbs⟩] at hr
    cases hr
  · rintro ⟨hrs, hundisturbed⟩
    obtain ⟨ns, hns, -⟩ := registerAll_wellFormed wellFormed_start hrs
    refine ⟨ns, hns, fun before r after hsplit hkey => ?_⟩
    have hnone := hundisturbed before r after hsplit hkey
    subst hsplit
    obtain ⟨ns', hns', hlast⟩ := resolveReference_last wellFormed_start hrs hfree hkey
    cases hns.symm.trans hns'
    rw [hlast, if_neg]
    rintro ⟨s, hs, hdisturbs⟩
    exact hnone s hs hdisturbs

/-- Two components of one assembly, and one of another. -/
def assemblies : List (Registration ℕ) :=
  [⟨["assembly".toList, "sender".toList], "server".toList, 1⟩,
    ⟨["other".toList], "server".toList, 2⟩,
    ⟨["assembly".toList, "receiver".toList], "server".toList, 3⟩]

theorem resolves_iff_assemblies :
    Resolves assemblies ↔ (∀ r ∈ assemblies, r.objectName ≠ []) ∧ Undisturbed assemblies :=
  resolves_iff (by decide)

/-- The context `assembly` is made again, and the sender is not in it. -/
theorem not_resolves :
    PrefixFree assemblies ∧ ¬ Resolves assemblies := by
  refine ⟨by decide, ?_⟩
  rintro ⟨ns, hns, hfound⟩
  have hsender := hfound [] _ _ rfl (by decide)
  have hrun : (registerAll .start assemblies).bind (fun ns =>
      resolveReference ns ["assembly".toList, "sender".toList] "server".toList) = none := by
    decide
  rw [hns] at hrun
  cases hsender.symm.trans hrun

end Registration

end Sem.Tao
