import Sem.NodeManager.Replay

/-!
# A configuration that fails

After a `std::runtime_error` the container loses every component that the message names, also one
that it had before; what else throws leaves the new components in it. New logging clients stay in
any case.

* `configure_of_fails`: what a call that fails at a step leaves.
* `succeeds_of_failed`: after a call that loses and adds nothing, the same message succeeds where
  it would have.
* `atomicOnFailure_iff`: a failed call leaves the container as it was exactly if it fails before
  anything is added that stays, and takes nothing away (`FailsCleanly`).
* `not_atomicOnFailure`: a component that is lost with a new one.
-/

namespace Sem.NodeManager.DeploymentContainer

open Xml (Text)
open Throwing (bind_ok bind_error tryCatch_ok tryCatch_error)

/-! ## The law of a failed call -/

/-- The call returns. -/
def Succeeds (env : Environment) (container : ContainerPb) (c : DeploymentContainer) : Prop :=
  ∃ c', configure env container c = some (.ok ⟨⟩, c')

/-- A call that throws leaves the components and the logging clients that there were, and the same
message succeeds later wherever it would have succeeded before. -/
def AtomicOnFailure (env : Environment) (container : ContainerPb) (c : DeploymentContainer) : Prop :=
  ∀ e c', configure env container c = some (.error e, c') →
    (∀ id, id ∈ c'.components ↔ id ∈ c.components) ∧
      (∀ id, id ∈ c'.loganClients ↔ id ∈ c.loganClients) ∧
      ∀ env', env'.library = env.library → Succeeds env' container c → Succeeds env' container c'

/-- The first step that throws. -/
structure FailsAt (env : Environment) (container : ContainerPb) (c : DeploymentContainer)
    (passed : List Step) (s : Step) : Prop where
  split : ∃ rest, steps container = passed ++ s :: rest
  passes : Passes env c.inventory passed
  fails : s.Fails env (applyAll env.library c.inventory passed)

/-- When a step throws, no new logging client comes before it. If it throws a
`std::runtime_error`, no component of the message is there yet; else no new one comes before it. -/
def FailsCleanly (env : Environment) (container : ContainerPb) (c : DeploymentContainer) : Prop :=
  ∀ passed s, FailsAt env container c passed s →
    (∀ loggerPb id, .logger loggerPb ∈ passed → loggerPb.IsClient id → id ∈ c.loganClients) ∧
      (s.ThrowsOther env → ∀ k, .component k ∈ passed → k.info.id ∈ c.components) ∧
      (¬ s.ThrowsOther env → ∀ k ∈ container.components, k.info.id ∉ c.components)

variable {env : Environment} {c c' : DeploymentContainer} {container : ContainerPb}

/-! ## Calls -/

/-- The state that the steps start from. -/
def named (c : DeploymentContainer) (container : ContainerPb) : DeploymentContainer :=
  { c with name := container.info.name, id := container.info.id }

theorem configureBody_run (env : Environment) (container : ContainerPb) (c : DeploymentContainer) :
    configureBody env container c =
      ((steps container).forM (Step.run env) >>= fun _ =>
        Throwing.update (activatableConfigure env)) (named c container) := by
  rw [configureBody_eq, bind_ok (p := Throwing.update _) rfl]
  rfl

theorem forM_removeComponent (l : List ComponentPb) (c : DeploymentContainer) :
    ∃ c', (l.forM fun k => removeComponent k.info.id) c = some (.ok ⟨⟩, c') ∧
      (∀ id, c'.components.lookup id =
        if ∃ k ∈ l, k.info.id = id then none else c.components.lookup id) ∧
      c'.loganClients = c.loganClients ∧ c'.loganLogger = c.loganLogger := by
  induction l generalizing c with
  | nil => exact ⟨c, rfl, fun id => by simp, rfl, rfl⟩
  | cons k l ih =>
    obtain ⟨c', hc', hlookup, hclients, hlogger⟩ :=
      ih { c with components := c.components.erase k.info.id }
    refine ⟨c', (bind_ok rfl).trans hc', fun id => ?_, hclients, hlogger⟩
    rw [hlookup]
    show (if _ then none else AList.lookup id (AList.erase k.info.id c.components)) = _
    rw [Table.lookup_erase]
    by_cases hk : id = k.info.id
    · subst hk
      simp
    · simp [hk, Ne.symm hk]

/-- The components that stay after an exception: all of them, or those that the message does not
name. -/
def Stays (env : Environment) (container : ContainerPb) (s : Step) (id : Text) : Prop :=
  ¬ s.ThrowsOther env → ∀ k ∈ container.components, k.info.id ≠ id

/-- What a call leaves whose steps succeed. -/
theorem configure_of_ok
    (h : (steps container).forM (Step.run env) (named c container) = some (.ok ⟨⟩, c')) :
    configure env container c = some (.ok ⟨⟩, activatableConfigure env c') := by
  refine tryCatch_ok ?_
  rw [configureBody_run, bind_ok h]
  rfl

/-- A call returns if no step throws. -/
theorem succeeds_of_passes (h : Passes env c.inventory (steps container)) :
    Succeeds env container c := by
  obtain ⟨-, c', hc', -⟩ | ⟨hnot, -⟩ := forM_cases env (steps container) (named c container)
  · exact ⟨_, configure_of_ok hc'⟩
  · exact absurd h hnot

/-- What a call leaves that throws at a step. -/
theorem configure_of_fails {passed : List Step} {s : Step} (h : FailsAt env container c passed s) :
    ∃ e c', configure env container c = some (.error e, c') ∧
      (∀ e', (c'.inventory.attributes e').isSome → Stays env container s e'.owner) ∧
      (∀ e', Stays env container s e'.owner → c'.inventory.attributes e' =
        (applyAll env.library c.inventory passed).attributes e') ∧
      c'.inventory.clients = (applyAll env.library c.inventory passed).clients ∧
      c'.inventory.logger = (applyAll env.library c.inventory passed).logger := by
  obtain ⟨rest, hsplit⟩ := h.split
  obtain ⟨hpasses, -⟩ | ⟨-, passed', s', rest', e, c₁, hsplit', hpassed, happly, hs', hother, hrun⟩ :=
    forM_cases env (steps container) (named c container)
  · rw [hsplit] at hpasses
    exact absurd h.fails (passes_append.mp hpasses).2.1
  rw [happly] at hs'
  obtain ⟨rfl, rfl⟩ := fails_unique (hsplit.symm.trans hsplit') h.passes h.fails hpassed hs'
  have hbody : configureBody env container c = some (.error e, c₁) := by
    rw [configureBody_run, bind_error hrun]
  have happly' : c₁.inventory = applyAll env.library c.inventory passed := happly
  refine ⟨e, ?_⟩
  unfold configure
  rw [tryCatch_error hbody, ← happly']
  cases e with
  | other what =>
    have hstays : ∀ id, Stays env container s id := fun id hnot => absurd (hother.mpr ⟨_, rfl⟩) hnot
    exact ⟨c₁, rfl, fun e' _ => hstays _, fun _ _ => rfl, rfl, rfl⟩
  | runtimeError what =>
    obtain ⟨c', hc', hlookup, hclients, hlogger⟩ := forM_removeComponent container.components c₁
    have hstays : ∀ id, Stays env container s id ↔
        ¬ ∃ k ∈ container.components, k.info.id = id := by
      intro id
      have hnot : ¬ s.ThrowsOther env := fun h => by
        obtain ⟨_, h⟩ := hother.mp h
        cases h
      refine (imp_iff_right hnot).trans ?_
      simp
    have hattributes : ∀ e' : Entity, c'.inventory.attributes e' =
        if ∃ k ∈ container.components, k.info.id = e'.owner then none
        else c₁.inventory.attributes e' := by
      intro e'
      show Option.map _ (Option.bind (c'.components.lookup e'.owner) _) = _
      rw [hlookup]
      by_cases hnamed : ∃ k ∈ container.components, k.info.id = e'.owner
      · rw [if_pos hnamed, if_pos hnamed]
        rfl
      · rw [if_neg hnamed, if_neg hnamed]
        rfl
    refine ⟨c', bind_ok hc', fun e' he' => ?_, fun e' he' => ?_, ?_, ?_⟩
    · rw [hstays]
      intro hnamed
      rw [hattributes, if_pos hnamed] at he'
      cases he'
    · rw [hattributes, if_neg ((hstays _).mp he')]
    · show { id | id ∈ c'.loganClients } = { id | id ∈ c₁.loganClients }
      rw [hclients]
    · show (c'.loganLogger.isSome : Prop) = c₁.loganLogger.isSome
      rw [hlogger]

theorem exists_failsAt {e : Exception} (h : configure env container c = some (.error e, c')) :
    ∃ passed s, FailsAt env container c passed s := by
  obtain ⟨hpasses, -⟩ | ⟨-, passed, s, rest, e, c₁, hsplit, hpassed, happly, hs, -⟩ :=
    forM_cases env (steps container) (named c container)
  · obtain ⟨c₂, hc₂⟩ := succeeds_of_passes hpasses
    cases h.symm.trans hc₂
  · rw [happly] at hs
    exact ⟨passed, s, ⟨rest, hsplit⟩, hpassed, hs⟩

/-- A call returns exactly if no step throws. -/
theorem succeeds_iff : Succeeds env container c ↔ Passes env c.inventory (steps container) := by
  refine ⟨fun ⟨c₁, hc₁⟩ => ?_, succeeds_of_passes⟩
  by_contra hnot
  obtain ⟨hpasses, -⟩ | ⟨-, passed, s, rest, e, c₁, hsplit, hpassed, happly, hs, -⟩ :=
    forM_cases env (steps container) (named c container)
  · exact hnot hpasses
  · rw [happly] at hs
    obtain ⟨e, c₂, hc₂, -⟩ := configure_of_fails ⟨⟨rest, hsplit⟩, hpassed, hs⟩
    cases hc₁.symm.trans hc₂

/-! ## The exact condition -/

/-- Which components there are after a call that throws at a step. -/
theorem mem_components_of_fails {passed : List Step} {s : Step}
    (h : FailsAt env container c passed s) : ∃ e c', configure env container c = some (.error e, c') ∧
      (∀ id, id ∈ c'.components ↔ Stays env container s id ∧
        (id ∈ c.components ∨ ∃ k, .component k ∈ passed ∧ k.info.id = id)) ∧
      ∀ id, id ∈ c'.loganClients ↔ id ∈ c.loganClients ∨
        ∃ loggerPb, .logger loggerPb ∈ passed ∧ loggerPb.IsClient id := by
  obtain ⟨e, c', hc', hstays, hattributes, hclients, -⟩ := configure_of_fails h
  refine ⟨e, c', hc', fun id => ?_, fun id => ?_⟩
  · rw [← attributes_component_isSome, ← attributes_component_isSome (c := c),
      ← component_applyAll env.library]
    refine ⟨fun h => ⟨hstays _ h, ?_⟩, fun ⟨hs, h⟩ => ?_⟩
    · rw [← hattributes _ (hstays _ h)]
      exact h
    · rw [hattributes (.component id) hs]
      exact h
  · refine Iff.trans ?_ (clients_applyAll env.library (v := c.inventory) (l := passed))
    rw [← hclients]
    exact Iff.rfl

/-- After a call that fails cleanly the same message succeeds wherever it would have before. -/
theorem succeeds_of_failed {env' : Environment} {passed : List Step} {s : Step}
    (hlibrary : env'.library = env.library) (h : FailsAt env container c passed s)
    (hclean : FailsCleanly env container c) {e : Exception}
    (hc' : configure env container c = some (.error e, c')) (hold : Succeeds env' container c) :
    Succeeds env' container c' := by
  rw [succeeds_iff] at hold ⊢
  obtain ⟨rest, hsplit⟩ := h.split
  obtain ⟨hloggers, -, hruntime⟩ := hclean passed s h
  obtain ⟨e', c'', hc'', hstays, hattributes, hclients, hlogger⟩ := configure_of_fails h
  cases hc'.symm.trans hc''
  by_cases hother : s.ThrowsOther env
  · -- nothing is taken away, and the message goes on from where it stopped
    have hsame : c'.inventory = applyAll env.library c.inventory passed :=
      Inventory.ext (funext fun e' => hattributes e' fun hnot => absurd hother hnot) hclients hlogger
    have hgrounded := grounded_steps container
    rw [hsplit] at hgrounded hold ⊢
    rw [hsame]
    exact replay hlibrary hgrounded.of_append h.passes hold
  · -- only a logger may be new
    refine hold.mono ⟨funext fun e' => ?_, Set.ext fun id => ?_, fun hl => ?_⟩
    · by_cases hnamed : ∃ k ∈ container.components, k.info.id = e'.owner
      · obtain ⟨k, hk, howner⟩ := hnamed
        have hnone : c.inventory.attributes e' = none :=
          congrArg (Option.map _) (find_eq_none (hruntime hother k hk) howner.symm)
        rw [hnone, ← Option.not_isSome_iff_eq_none]
        exact fun hsome => hstays e' hsome hother k hk howner
      · rw [hattributes e' fun _ k hk howner => hnamed ⟨k, hk, howner⟩]
        refine attributes_applyAll fun s' hs' howner => hnamed ?_
        refine exists_of_owner ?_ howner
        rw [hsplit]
        exact List.mem_append_left _ hs'
    · rw [hclients, clients_applyAll]
      refine or_iff_left_of_imp ?_
      rintro ⟨loggerPb, hmem, hid⟩
      exact hloggers loggerPb id hmem hid
    · rw [hlogger]
      exact (extends_applyAll env.library c.inventory passed).logger hl

/-- A failed call leaves the container as it was exactly if, whenever a step throws, no new logging
client comes before it, and the message names no component that was there (after a
`std::runtime_error`) or constructs none before the step (after another exception). -/
theorem atomicOnFailure_iff (env : Environment) (container : ContainerPb)
    (c : DeploymentContainer) : AtomicOnFailure env container c ↔ FailsCleanly env container c := by
  constructor
  · intro hatomic passed s h
    obtain ⟨e, c', hc', hcomponents, hclients⟩ := mem_components_of_fails h
    obtain ⟨hsame, hsameClients, -⟩ := hatomic e c' hc'
    refine ⟨fun loggerPb id hmem hid => ?_, fun hother k hmem => ?_, fun hother k hk hmem => ?_⟩
    · exact (hsameClients id).mp ((hclients id).mpr (.inr ⟨loggerPb, hmem, hid⟩))
    · refine (hsame _).mp ((hcomponents _).mpr ⟨fun hnot => absurd hother hnot, ?_⟩)
      exact .inr ⟨k, hmem, rfl⟩
    · exact ((hcomponents _).mp ((hsame _).mpr hmem)).1 hother k hk rfl
  · intro hclean e c' hc'
    obtain ⟨passed, s, h⟩ := exists_failsAt hc'
    obtain ⟨hloggers, hnew, hold⟩ := hclean passed s h
    obtain ⟨e', c'', hc'', hcomponents, hclients⟩ := mem_components_of_fails h
    cases hc'.symm.trans hc''
    refine ⟨fun id => ?_, fun id => ?_, fun env' hlibrary => succeeds_of_failed hlibrary h hclean hc'⟩
    · rw [hcomponents]
      by_cases hother : s.ThrowsOther env
      · have hstays : Stays env container s id := fun hnot => absurd hother hnot
        rw [and_iff_right hstays]
        refine or_iff_left_of_imp ?_
        rintro ⟨k, hk, rfl⟩
        exact hnew hother k hk
      · constructor
        · rintro ⟨hstays, hmem | ⟨k, hk, rfl⟩⟩
          · exact hmem
          · obtain ⟨rest, hsplit⟩ := h.split
            obtain ⟨k', hk', hid⟩ := exists_of_owner
              (s := .component k) (hsplit ▸ List.mem_append_left (s :: rest) hk) rfl
            exact absurd hid (hstays hother k' hk')
        · intro hmem
          refine ⟨fun _ k hk hid => ?_, .inl hmem⟩
          rw [← hid] at hmem
          exact hold hother k hk hmem
    · rw [hclients]
      refine or_iff_left_of_imp ?_
      rintro ⟨loggerPb, hmem, hid⟩
      exact hloggers loggerPb id hmem hid

/-! ## A component that is lost -/

/-- No library has the second component. -/
def secondMissing : Environment where
  library := ⟨fun _ => ⟨∅, ∅⟩, fun _ => ∅⟩
  component := fun componentPb =>
    if componentPb.info.id = ['b'] then .error (.runtimeError "no library".toList) else .ok true
  port := fun _ _ => .ok true
  periodicPort := fun _ _ => .ok ⟨⟩
  loganClient := fun _ => .ok ⟨⟩
  bindPublisherSocket := fun _ => true
  handlerFails := fun _ _ _ _ => false

/-- A component without parts. -/
def componentNamed (id : Text) : ComponentPb := ⟨⟨id, id, id, []⟩, [], [], [], [], []⟩

/-- A container with components without parts. -/
def containerOf (ids : List Text) : ContainerPb :=
  ⟨⟨['c'], ['c'], ['c'], []⟩, ids.map componentNamed, []⟩

/-- A slave that runs one component. -/
def oneRunning : DeploymentContainer where
  name := ['c']
  id := ['c']
  state := .running
  components := AList.singleton ['a'] ⟨['a'], ['a'], [], [], .running, ∅, ∅, ∅⟩
  loganClients := ∅
  loganLogger := none

/-- The running component is removed because the other one cannot be constructed. -/
theorem not_atomicOnFailure :
    ¬ AtomicOnFailure secondMissing (containerOf [['a'], ['b']]) oneRunning := by
  intro h
  have hold : ['a'] ∈ oneRunning.components := List.mem_singleton_self _
  obtain ⟨hsame, -⟩ := h (.runtimeError "no library".toList) _ rfl
  have hlost := (hsame ['a']).mpr hold
  cases AList.mem_keys.mp hlost

end Sem.NodeManager.DeploymentContainer
