import Sem.NodeManager.ConfigureAtomicity

/-!
# Ports of a component that is reconfigured

A message restarts every port that it mentions and that is configured: it is terminated, configured
and activated, in whatever state its component is. A port that it adds is left as it was
constructed, also if the component runs.

* `portState_run`, `portState_forM`: what a step, and a list of steps, does to a port.
* `runs_iterate_iff`: when a port runs after its restarts.
* `not_restartRuns_one`, `exists_fails_of_not_restartRuns`: which handlers must fail for it not to.
* `inStep_iff`: the ports of the message's components run exactly when the components do, if and
  only if none of these goes wrong (`StaysInStep`).
* `not_inStep`: an update between configuration and activation.
-/

namespace Sem.NodeManager

open Ports (State Transition)
open Xml (Text)

/-! ## Restarts -/

/-- The port runs after that many restarts; `state` is its state and `attempts` how many of its
handlers have run. -/
def RestartRuns (fails : ℕ → Transition → Bool) : ℕ → State → ℕ → Prop
  | 0, state, _ => state = .running
  | _ + 1, .notConfigured, _ => False
  | m + 1, state, attempts =>
    if fails attempts .terminate then
      -- it is not configured again, and only a configured port is activated
      if state = .configured then
        if fails (attempts + 1) .activate then RestartRuns fails m .configured (attempts + 2)
        else RestartRuns fails m .running (attempts + 2)
      else RestartRuns fails m state (attempts + 1)
    else
      ¬ fails (attempts + 1) .configure ∧
        if fails (attempts + 2) .activate then RestartRuns fails m .configured (attempts + 3)
        else RestartRuns fails m .running (attempts + 3)

section Restart

variable {fails : ℕ → Transition → Bool} {m attempts : ℕ} {state : State}

/-- Which handlers must fail in a single restart, for the port not to run. -/
theorem not_restartRuns_one (hstate : state ≠ .notConfigured) :
    ¬ RestartRuns fails 1 state attempts ↔
      if fails attempts .terminate then
        state = .configured ∧ fails (attempts + 1) .activate ∨ state = .notRunning
      else fails (attempts + 1) .configure ∨ fails (attempts + 2) .activate := by
  cases state with
  | notConfigured => exact absurd rfl hstate
  | configured | running | notRunning =>
    cases hterminate : fails attempts .terminate <;>
      cases hactivate : fails (attempts + 1) .activate <;>
        cases hconfigure : fails (attempts + 1) .configure <;>
          cases hactivate' : fails (attempts + 2) .activate <;>
            simp [RestartRuns, hterminate, hactivate, hconfigure, hactivate']

/-- A restart that does not end in running has failed on the way. -/
theorem exists_fails_of_running (h : ¬ RestartRuns fails m .running attempts) :
    ∃ i < 3 * m, fails (attempts + i) .configure ∨ fails (attempts + i) .activate := by
  induction m generalizing attempts with
  | zero => exact absurd rfl h
  | succ m ih =>
    -- the port runs on, unless the new configuration or activation fails
    have hlater : ∀ d ≤ 3, ¬ RestartRuns fails m .running (attempts + d) → ∃ i < 3 * (m + 1),
        fails (attempts + i) .configure ∨ fails (attempts + i) .activate := by
      intro d hd hnot
      obtain ⟨i, hi, hfails⟩ := ih hnot
      exact ⟨d + i, by omega, by rwa [Nat.add_assoc] at hfails⟩
    by_cases hterminate : fails attempts .terminate
    · exact hlater 1 (by omega) (by simpa [RestartRuns, hterminate] using h)
    · by_cases hconfigure : fails (attempts + 1) .configure
      · exact ⟨1, by omega, .inl hconfigure⟩
      · by_cases hactivate : fails (attempts + 2) .activate
        · exact ⟨2, by omega, .inr hactivate⟩
        · exact hlater 3 le_rfl
            (by simpa [RestartRuns, hterminate, hconfigure, hactivate] using h)

/-- If a port does not run after its restarts, a handler has failed in one of them: that of the
configuration, that of the activation, or, in a port that has been passivated, that of the
termination. -/
theorem exists_fails_of_not_restartRuns (hstate : state ≠ .notConfigured) (hm : 0 < m)
    (h : ¬ RestartRuns fails m state attempts) : ∃ i < 3 * m,
      fails (attempts + i) .configure ∨ fails (attempts + i) .activate ∨
        state = .notRunning ∧ fails (attempts + i) .terminate := by
  obtain ⟨m, rfl⟩ := Nat.exists_eq_succ_of_ne_zero hm.ne'
  have hlater : ∀ d ≤ 3, ¬ RestartRuns fails m .running (attempts + d) → ∃ i < 3 * (m + 1),
      fails (attempts + i) .configure ∨ fails (attempts + i) .activate ∨
        state = .notRunning ∧ fails (attempts + i) .terminate := by
    intro d hd hnot
    obtain ⟨i, hi, hfails⟩ := exists_fails_of_running hnot
    refine ⟨d + i, by omega, ?_⟩
    rw [Nat.add_assoc] at hfails
    exact hfails.imp_right .inl
  by_cases hterminate : fails attempts .terminate
  · cases state with
    | notConfigured => exact absurd rfl hstate
    | notRunning => exact ⟨0, by omega, .inr (.inr ⟨rfl, hterminate⟩)⟩
    | running => exact hlater 1 (by omega) (by simpa [RestartRuns, hterminate] using h)
    | configured =>
      by_cases hactivate : fails (attempts + 1) .activate
      · exact ⟨1, by omega, .inr (.inl hactivate)⟩
      · exact hlater 2 (by omega) (by simpa [RestartRuns, hterminate, hactivate] using h)
  · by_cases hconfigure : fails (attempts + 1) .configure
    · exact ⟨1, by omega, .inl hconfigure⟩
    · by_cases hactivate : fails (attempts + 2) .activate
      · exact ⟨2, by omega, .inr (.inl hactivate)⟩
      · refine hlater 3 le_rfl fun hruns => h ?_
        cases state with
        | notConfigured => exact absurd rfl hstate
        | _ => simpa [RestartRuns, hterminate, hconfigure, hactivate] using hruns

/-- If no handler fails, the port runs exactly if it has been restarted or has run before. -/
theorem restartRuns_iff_of_forall_not_fails (h : ∀ attempt t, fails attempt t = false) :
    RestartRuns fails m state attempts ↔
      state = .running ∨ 0 < m ∧ state ≠ .notConfigured := by
  by_cases hstate : state = .notConfigured
  · subst hstate
    cases m <;> simp [RestartRuns]
  · rcases Nat.eq_zero_or_pos m with rfl | hm
    · simp [RestartRuns]
    · refine iff_of_true (by_contra fun hnot => ?_) (.inr ⟨hm, hstate⟩)
      obtain ⟨i, -, hfails⟩ := exists_fails_of_not_restartRuns hstate hm hnot
      simp [h] at hfails

theorem reconfigure_notConfigured {port : Port} (h : port.state = .notConfigured) :
    port.reconfigure fails = port :=
  if_neg fun hne => hne h

theorem iterate_reconfigure_notConfigured {port : Port} (h : port.state = .notConfigured) (m : ℕ) :
    (Port.reconfigure fails)^[m] port = port :=
  Function.iterate_fixed (reconfigure_notConfigured h) m

/-- A restart, by the handlers that fail. -/
theorem reconfigure_eq {port : Port} (h : port.state ≠ .notConfigured) :
    port.reconfigure fails =
      if fails port.attempts .terminate then
        if port.state = .configured then
          if fails (port.attempts + 1) .activate then
            { port with attempts := port.attempts + 2 }
          else { port with state := .running, attempts := port.attempts + 2 }
        else { port with attempts := port.attempts + 1 }
      else if fails (port.attempts + 1) .configure then
        { port with state := .notConfigured, attempts := port.attempts + 2 }
      else if fails (port.attempts + 2) .activate then
        { port with state := .configured, attempts := port.attempts + 3 }
      else { port with state := .running, attempts := port.attempts + 3 } := by
  obtain ⟨id, type, attributes, state, attempts⟩ := port
  rw [Port.reconfigure, if_pos h]
  cases state with
  | notConfigured => exact absurd rfl h
  | configured | running | notRunning =>
    by_cases hterminate : fails attempts .terminate
    · by_cases hactivate : fails (attempts + 1) .activate <;>
        simp [Port.transitionState, State.next, hterminate, hactivate]
    · by_cases hconfigure : fails (attempts + 1) .configure
      · simp [Port.transitionState, State.next, hterminate, hconfigure]
      · by_cases hactivate : fails (attempts + 2) .activate <;>
          simp [Port.transitionState, State.next, hterminate, hconfigure, hactivate]

/-- When a port runs after its restarts. -/
theorem runs_iterate_iff (fails : ℕ → Transition → Bool) (m : ℕ) (port : Port) :
    ((Port.reconfigure fails)^[m] port).state = .running ↔
      RestartRuns fails m port.state port.attempts := by
  induction m generalizing port with
  | zero => exact Iff.rfl
  | succ m ih =>
    by_cases hstate : port.state = .notConfigured
    · rw [iterate_reconfigure_notConfigured hstate, hstate]
      exact iff_of_false nofun fun h => h
    rw [Function.iterate_succ_apply, ih, reconfigure_eq hstate]
    obtain ⟨id, type, attributes, state, attempts⟩ := port
    cases state with
    | notConfigured => exact absurd rfl hstate
    | configured | running | notRunning =>
      by_cases hterminate : fails attempts .terminate
      · by_cases hactivate : fails (attempts + 1) .activate <;>
          simp [RestartRuns, hterminate, hactivate]
      · by_cases hconfigure : fails (attempts + 1) .configure
        · have hnot : ¬ RestartRuns fails m .notConfigured (attempts + 2) := by
            cases m with
            | zero => nofun
            | succ m => exact fun h => h
          simp [RestartRuns, hterminate, hconfigure, hnot]
        · by_cases hactivate : fails (attempts + 2) .activate <;>
            simp [RestartRuns, hterminate, hconfigure, hactivate]

end Restart

/-- A port without its attributes. -/
def Port.bare (port : Port) : Port := { port with attributes := ∅ }

theorem bare_transitionState (fails : ℕ → Transition → Bool) (port : Port) (t : Transition) :
    (port.transitionState fails t).bare = port.bare.transitionState fails t := by
  have hbare : port.bare.state = port.state ∧ port.bare.attempts = port.attempts := ⟨rfl, rfl⟩
  unfold Port.transitionState
  rw [hbare.1, hbare.2]
  cases port.state.next t with
  | none => rfl
  | some newState =>
    by_cases h : fails port.attempts t
    · simp only [if_pos h]
      rfl
    · simp only [if_neg h]
      rfl

theorem bare_reconfigure (fails : ℕ → Transition → Bool) (port : Port) :
    (port.reconfigure fails).bare = port.bare.reconfigure fails := by
  by_cases h : port.state = .notConfigured
  · have hbare : port.bare.state = .notConfigured := h
    rw [reconfigure_notConfigured h, reconfigure_notConfigured hbare]
  · have hbare : port.bare.state ≠ .notConfigured := h
    rw [Port.reconfigure, Port.reconfigure, if_pos h, if_pos hbare]
    simp only [bare_transitionState]

namespace DeploymentContainer

open Throwing (bind_ok bind_error)

/-! ## What a step does to the states -/

/-- The state of a component, where it is there. -/
def componentState (c : DeploymentContainer) (id : Text) : Option State :=
  (c.components.lookup id).map (·.state)

/-- A port of a component, without its attributes. -/
def barePort (c : DeploymentContainer) (id name : Text) : Option Port :=
  (c.components.lookup id).bind fun k => (k.ports.lookup name).map Port.bare

variable {env : Environment} {c c' : DeploymentContainer} {container : ContainerPb} {id name : Text}

/-- What a step does to a component and its ports: they may be new, and a port may be restarted. -/
structure StateEffect (env : Environment) (s : Step) (c c' : DeploymentContainer) : Prop where
  component : ∀ id, componentState c' id = componentState c id ∨
    componentState c id = none ∧ componentState c' id = some .notConfigured
  port : ∀ id name, barePort c' id name =
      (if s = .reconfigure id name then
        (barePort c id name).map (Port.reconfigure (env.handlerFails id name))
      else barePort c id name) ∨
    barePort c id name = none ∧ (∃ port, barePort c' id name = some port ∧
      port.state = .notConfigured) ∧ ∃ portPb, s = .port id portPb ∧ portPb.info.name = name

theorem StateEffect.of_components {s : Step} (h : c'.components = c.components)
    (hs : ∀ id name, s ≠ .reconfigure id name) : StateEffect env s c c' := by
  refine ⟨fun id => .inl ?_, fun id name => .inl ?_⟩
  · rw [componentState, componentState, h]
  · rw [if_neg (hs id name), barePort, barePort, h]

theorem componentState_adjust {f : Component → Component} (hf : ∀ k, (f k).state = k.state)
    (id' : Text) : componentState { c with components := c.components.adjust id f } id' =
      componentState c id' := by
  show Option.map _ ((c.components.adjust id f).lookup id') = Option.map _ _
  rw [Table.lookup_adjust]
  by_cases h : id' = id
  · rw [if_pos h, h, Option.map_map]
    simp only [Function.comp_def, hf]
  · rw [if_neg h]

theorem barePort_adjust (f : Component → Component) (id' name : Text) :
    barePort { c with components := c.components.adjust id f } id' name =
      if id' = id then
        (c.components.lookup id).bind fun k => ((f k).ports.lookup name).map Port.bare
      else barePort c id' name := by
  show Option.bind ((c.components.adjust id f).lookup id') _ = _
  rw [Table.lookup_adjust]
  by_cases h : id' = id
  · rw [if_pos h, if_pos h, h, Option.bind_map]
    rfl
  · rw [if_neg h, if_neg h]
    rfl

/-- A change of a component that hides nothing but attributes. -/
theorem StateEffect.of_adjust {s : Step} {f : Component → Component}
    (hs : ∀ id name, s ≠ .reconfigure id name) (hstate : ∀ k, (f k).state = k.state)
    (hports : ∀ k name, ((f k).ports.lookup name).map Port.bare =
      (k.ports.lookup name).map Port.bare) :
    StateEffect env s c { c with components := c.components.adjust id f } := by
  refine ⟨fun id' => .inl (componentState_adjust hstate id'), fun id' name => .inl ?_⟩
  rw [if_neg (hs id' name), barePort_adjust]
  simp only [hports]
  by_cases h : id' = id
  · rw [if_pos h, h]
    rfl
  · rw [if_neg h]

/-- A logger leaves the components alone. -/
theorem triple_configureLogger (env : Environment) (loggerPb : LoggerPb)
    (components : Table Text Component) :
    Throwing.Triple (fun c => c.components = components) (configureLogger env loggerPb)
      (fun _ c => c.components = components) (fun c => c.components = components) := by
  unfold configureLogger
  cases loggerPb.type with
  | client =>
    unfold getConfiguredLoganClient
    refine .ite (fun _ => .read fun c hc => ?_) fun _ => .pure fun _ h => h
    cases c.loganClients.lookup loggerPb.id with
    | some client =>
      refine .update fun c' hc' => ?_
      subst hc'
      exact hc
    | none =>
      cases env.loganClient loggerPb.id with
      | error e =>
        refine .bind (R := fun _ c => c.components = components) (.throw fun c' hc' => ?_) ?_
        · subst hc'
          exact hc
        · exact fun _ => .update fun _ h => h
      | ok u =>
        refine .bind (R := fun _ c => c.components = components) (.update fun c' hc' => ?_) ?_
        · subst hc'
          exact hc
        · exact fun _ => .update fun _ h => h
  | model =>
    refine .read fun c hc => ?_
    cases c.loganLogger with
    | some endpoint =>
      refine .pure fun c' hc' => ?_
      subst hc'
      exact hc
    | none =>
      cases newLoganLogger env loggerPb with
      | error e =>
        refine .throw fun c' hc' => ?_
        subst hc'
        exact hc
      | ok logger =>
        refine .update fun c' hc' => ?_
        subst hc'
        exact hc
  | none | server | experiment | unknown => exact .pure fun _ h => h

theorem stateEffect_logger {loggerPb : LoggerPb}
    (h : configureLogger env loggerPb c = some (.ok ⟨⟩, c')) :
    StateEffect env (.logger loggerPb) c c' := by
  obtain ⟨r, c'', hrun, hcomponents⟩ := triple_configureLogger env loggerPb c.components rfl
  cases h.symm.trans hrun
  exact .of_components hcomponents nofun

theorem stateEffect_component {componentPb : ComponentPb}
    (h : getComponent env componentPb c = some (.ok ⟨⟩, c')) :
    StateEffect env (.component componentPb) c c' := by
  rw [getComponent, bind_ok (p := Throwing.read) rfl] at h
  cases hlookup : c.components.lookup componentPb.info.id with
  | some k =>
    rw [hlookup] at h
    cases h
    exact .of_components rfl (by simp)
  | none =>
    rw [hlookup] at h
    unfold constructComponent at h
    cases hnew : env.component componentPb with
    | error e =>
      simp only [hnew] at h
      cases h
    | ok made =>
      cases made with
      | false =>
        simp only [hnew] at h
        cases h
      | true =>
        simp only [hnew] at h
        cases h
        refine ⟨fun id => ?_, fun id name => .inl ?_⟩
        · by_cases hid : id = componentPb.info.id
          · refine .inr ⟨by rw [componentState, hid, hlookup]; rfl, ?_⟩
            show Option.map _ (AList.lookup id (AList.insert componentPb.info.id (_ : Component)
              c.components)) = _
            rw [Table.lookup_insert, if_pos hid]
            rfl
          · refine .inl ?_
            show Option.map _ (AList.lookup id (AList.insert componentPb.info.id (_ : Component)
              c.components)) = _
            rw [Table.lookup_insert, if_neg hid]
            rfl
        · rw [if_neg (by simp)]
          show Option.bind (AList.lookup id (AList.insert componentPb.info.id (_ : Component)
            c.components)) _ = _
          rw [Table.lookup_insert]
          by_cases hid : id = componentPb.info.id
          · rw [if_pos hid, barePort, hid, hlookup]
            rfl
          · rw [if_neg hid]
            rfl

theorem stateEffect_attribute {entity : Entity} {attributePb : AttributePb}
    (h : setAttributeFromPb entity attributePb c = some (.ok ⟨⟩, c')) :
    StateEffect env (.attribute entity attributePb) c c' := by
  rw [setAttributeFromPb, bind_ok (p := Throwing.read) rfl] at h
  cases hentity : c.find entity with
  | none =>
    simp only [hentity] at h
    cases h
    exact .of_components rfl (by simp)
  | some found =>
    obtain ⟨name, attributes⟩ := found
    simp only [hentity] at h
    cases hlookup : attributes.lookup attributePb.info.name with
    | some type =>
      simp only [hlookup] at h
      by_cases htype : type = attributePb.kind.type
      · rw [if_pos htype] at h
        cases h
        exact .of_components rfl (by simp)
      · rw [if_neg htype] at h
        cases h
    | none =>
      simp only [hlookup] at h
      cases h
      cases entity with
      | component id => exact .of_adjust (by simp) (fun _ => rfl) fun _ _ => rfl
      | worker id workerName => exact .of_adjust (by simp) (fun _ => rfl) fun _ _ => rfl
      | port id portName =>
        refine .of_adjust (by simp) (fun _ => rfl) fun k portName' => ?_
        show Option.map Port.bare ((k.ports.adjust portName _).lookup portName') = _
        rw [Table.lookup_adjust]
        by_cases hname : portName' = portName
        · rw [if_pos hname, hname, Option.map_map]
          rfl
        · rw [if_neg hname]

theorem stateEffect_port {portPb : PortPb} (h : getPort env id portPb c = some (.ok ⟨⟩, c')) :
    StateEffect env (.port id portPb) c c' := by
  rw [getPort, bind_ok (p := Throwing.read) rfl] at h
  cases hlookup : c.components.lookup id with
  | none =>
    simp only [hlookup] at h
    cases h
    exact .of_components rfl (by simp)
  | some k =>
    simp only [hlookup] at h
    cases hport : k.ports.lookup portPb.info.name with
    | some port =>
      simp only [hport] at h
      cases h
      exact .of_components rfl (by simp)
    | none =>
      simp only [hport] at h
      cases hnew : constructPort env k id portPb with
      | error e =>
        simp only [hnew] at h
        cases h
      | ok made =>
        cases made with
        | false =>
          simp only [hnew] at h
          cases h
        | true =>
          simp only [hnew] at h
          cases h
          refine ⟨fun id' => .inl (componentState_adjust (fun _ => by rfl) id'), fun id' name => ?_⟩
          rw [if_neg (by simp)]
          show barePort { c with components := c.components.adjust id _ } id' name = _ ∨ _ ∧
            (∃ port, barePort { c with components := c.components.adjust id _ } id' name = _ ∧ _) ∧ _
          rw [barePort_adjust]
          by_cases hid : id' = id
          · rw [if_pos hid, hlookup, barePort, hid, hlookup]
            show Option.map _ (AList.lookup name (AList.insert portPb.info.name (_ : Port) k.ports)) =
              Option.map _ (k.ports.lookup name) ∨ Option.map _ (k.ports.lookup name) = none ∧
              (∃ port, Option.map _ (AList.lookup name (AList.insert portPb.info.name (_ : Port)
                k.ports)) = some port ∧ _) ∧ _
            rw [Table.lookup_insert]
            by_cases hname : name = portPb.info.name
            · rw [if_pos hname, hname, hport]
              exact .inr ⟨rfl, ⟨_, rfl, rfl⟩, portPb, rfl, rfl⟩
            · rw [if_neg hname]
              exact .inl rfl
          · rw [if_neg hid]
            exact .inl rfl

theorem stateEffect_reconfigure (h : reconfigurePort env id name c = some (.ok ⟨⟩, c')) :
    StateEffect env (.reconfigure id name) c c' := by
  cases h
  refine ⟨fun id' => .inl (componentState_adjust (fun _ => by rfl) id'), fun id' name' => .inl ?_⟩
  rw [barePort_adjust]
  by_cases hid : id' = id
  · rw [if_pos hid, hid]
    unfold barePort
    cases c.components.lookup id with
    | none => exact (ite_self _).symm
    | some k =>
      show Option.map _ ((k.ports.adjust name _).lookup name') = _
      rw [Table.lookup_adjust]
      by_cases hname : name' = name
      · subst hname
        rw [if_pos rfl, if_pos rfl, Option.map_map]
        show _ = Option.map _ (Option.map _ _)
        rw [Option.map_map]
        simp only [Function.comp_def, bare_reconfigure]
      · rw [if_neg hname, if_neg fun h => hname (Step.reconfigure.inj h).2.symm]
        rfl
  · rw [if_neg hid, if_neg fun h => hid (Step.reconfigure.inj h).1.symm]

theorem stateEffect_worker {workerPb : WorkerPb}
    (h : getWorker id workerPb c = some (.ok ⟨⟩, c')) :
    StateEffect env (.worker id workerPb) c c' := by
  rw [getWorker, bind_ok (p := Throwing.read) rfl] at h
  refine .of_components ?_ (by simp)
  cases hlookup : c.components.lookup id with
  | none =>
    simp only [hlookup] at h
    cases h
    rfl
  | some k =>
    by_cases hmem : workerPb.info.name ∈ k.workers
    · simp only [hlookup, if_pos hmem] at h
      cases h
      rfl
    · simp only [hlookup, if_neg hmem] at h
      cases h

/-- What a step does to states, by its kind. -/
theorem Step.stateEffect {s : Step} (h : s.run env c = some (.ok ⟨⟩, c')) :
    StateEffect env s c c' := by
  cases s with
  | logger loggerPb => exact stateEffect_logger h
  | component componentPb => exact stateEffect_component h
  | «attribute» entity attributePb => exact stateEffect_attribute h
  | port id portPb => exact stateEffect_port h
  | reconfigure id name => exact stateEffect_reconfigure h
  | worker id workerPb => exact stateEffect_worker h

/-! ## What a list of steps does to the states -/

/-- A component keeps its state, or is new. -/
theorem componentState_forM {l : List Step} (h : l.forM (Step.run env) c = some (.ok ⟨⟩, c'))
    (id : Text) : componentState c' id = componentState c id ∨
      componentState c id = none ∧ componentState c' id = some .notConfigured := by
  induction l generalizing c with
  | nil =>
    cases h
    exact .inl rfl
  | cons s l ih =>
    obtain ⟨-, e, he, -⟩ | ⟨-, c₁, hc₁, -⟩ := s.run_cases env c
    · cases (Throwing.forM_cons_error he).symm.trans h
    · have hrest := ih ((bind_ok hc₁).symm.trans h)
      obtain hsame | ⟨hnone, hnew⟩ := (Step.stateEffect hc₁).component id
      · rw [hsame] at hrest
        exact hrest
      · refine .inr ⟨hnone, ?_⟩
        obtain hsame | ⟨hnone', -⟩ := hrest
        · exact hsame.trans hnew
        · cases hnew.symm.trans hnone'

/-- A port is restarted as often as the list says, or it is new and not configured. -/
theorem barePort_forM {l : List Step} (h : l.forM (Step.run env) c = some (.ok ⟨⟩, c'))
    (id name : Text) :
    barePort c' id name = (barePort c id name).map
        (Port.reconfigure (env.handlerFails id name))^[l.count (.reconfigure id name)] ∨
      barePort c id name = none ∧ (∃ port, barePort c' id name = some port ∧
        port.state = .notConfigured) ∧ ∃ portPb, .port id portPb ∈ l ∧ portPb.info.name = name := by
  induction l generalizing c with
  | nil =>
    cases h
    exact .inl Option.map_id'.symm
  | cons s l ih =>
    obtain ⟨-, e, he, -⟩ | ⟨-, c₁, hc₁, -⟩ := s.run_cases env c
    · cases (Throwing.forM_cons_error he).symm.trans h
    · have hrest := ih ((bind_ok hc₁).symm.trans h)
      have hmem : (∃ portPb, .port id portPb ∈ l ∧ portPb.info.name = name) →
          ∃ portPb, .port id portPb ∈ s :: l ∧ portPb.info.name = name :=
        fun ⟨portPb, hl, hname⟩ => ⟨portPb, List.mem_cons_of_mem s hl, hname⟩
      obtain hold | ⟨hnone, ⟨port, hport, hstate⟩, portPb, rfl, hname⟩ :=
        (Step.stateEffect hc₁).port id name
      · rw [hold] at hrest
        by_cases hs : s = .reconfigure id name
        · subst hs
          rw [if_pos rfl, Option.map_map, ← Function.iterate_succ] at hrest
          rw [List.count_cons_self]
          exact hrest.imp_right fun ⟨hnone, hnew, hl⟩ =>
            ⟨Option.map_eq_none_iff.mp hnone, hnew, hmem hl⟩
        · rw [if_neg hs] at hrest
          rw [List.count_cons_of_ne hs]
          exact hrest.imp_right fun ⟨hnone, hnew, hl⟩ => ⟨hnone, hnew, hmem hl⟩
      · refine .inr ⟨hnone, ?_, portPb, List.mem_cons_self, hname⟩
        rw [hport] at hrest
        obtain hsame | ⟨hnone', -⟩ := hrest
        · refine ⟨port, hsame.trans ?_, hstate⟩
          exact congrArg some (iterate_reconfigure_notConfigured hstate _)
        · cases hnone'

/-! ## The law -/

/-- The ports of the component run exactly if it does. -/
def InStepAt (c : DeploymentContainer) (id : Text) : Prop :=
  ∀ k, c.components.lookup id = some k → ∀ name port, k.ports.lookup name = some port →
    (port.state = .running ↔ k.state = .running)

/-- After a call that returns, the ports of every component of the message run exactly if it does. -/
def InStep (env : Environment) (container : ContainerPb) (c : DeploymentContainer) : Prop :=
  ∀ c', configure env container c = some (.ok ⟨⟩, c') →
    ∀ componentPb ∈ container.components, InStepAt c' componentPb.info.id

/-- How often the message mentions a port of a component. -/
def mentions (container : ContainerPb) (id name : Text) : ℕ :=
  (steps container).count (.reconfigure id name)

/-- If the message is carried out, of every component in it that was there the ports that were
there run after their restarts exactly if the component runs, and if it runs, no port is new. -/
def StaysInStep (env : Environment) (container : ContainerPb) (c : DeploymentContainer) : Prop :=
  Passes env c.inventory (steps container) → ∀ componentPb ∈ container.components, ∀ k,
    c.components.lookup componentPb.info.id = some k →
    (∀ name port, k.ports.lookup name = some port →
      (RestartRuns (env.handlerFails componentPb.info.id name)
        (mentions container componentPb.info.id name) port.state port.attempts ↔
          k.state = .running)) ∧
    (k.state = .running → ∀ portPb ∈ componentPb.ports, portPb.info.name ∈ k.ports)

theorem barePort_of_lookup {k : Component} (h : c.components.lookup id = some k) (name : Text) :
    barePort c id name = (k.ports.lookup name).map Port.bare := by
  rw [barePort, h]
  rfl

/-- Configuring what is not configured does not make it run. -/
theorem running_transitionState_configure {fails : ℕ → Transition → Bool} (port : Port) :
    (port.transitionState fails .configure).state = .running ↔ port.state = .running := by
  obtain ⟨id, type, attributes, state, attempts⟩ := port
  cases state with
  | notConfigured =>
    by_cases h : fails attempts .configure <;> simp [Port.transitionState, State.next, h]
  | configured | running | notRunning => exact Iff.rfl

/-- Configuring the container starts and stops neither components nor ports. -/
theorem inStepAt_activatableConfigure :
    InStepAt (activatableConfigure env c) id ↔ InStepAt c id := by
  unfold activatableConfigure
  cases c.state.next .configure with
  | none => exact Iff.rfl
  | some newState =>
    unfold InStepAt
    show (∀ k', (c.components.mapEntries fun id k => (k.configure (env.handlerFails id)).1).lookup
      id = some k' → _) ↔ _
    rw [Table.lookup_mapEntries]
    cases c.components.lookup id with
    | none => exact iff_of_true nofun nofun
    | some k =>
      show (∀ k', some (k.configure (env.handlerFails id)).1 = some k' → _) ↔
        ∀ k', some k = some k' → _
      simp only [Option.some.injEq, forall_eq']
      unfold Component.configure
      cases hstate : k.state with
      | notConfigured =>
        show (∀ name port', (k.ports.mapEntries fun name port =>
          port.transitionState (env.handlerFails id name) .configure).lookup name = some port' →
            (_ ↔ State.configured = .running)) ↔ _
        simp only [Table.lookup_mapEntries, Option.map_eq_some_iff, forall_exists_index, and_imp]
        constructor
        · intro h name port hport
          have hrun := h name _ port hport rfl
          rw [running_transitionState_configure] at hrun
          simpa using hrun
        · rintro h name port' port hport rfl
          rw [running_transitionState_configure]
          simpa using h name port hport
      | configured | running | notRunning =>
        simp only [State.next, hstate]

theorem exists_of_port_mem {portPb : PortPb} (h : .port id portPb ∈ steps container) :
    ∃ componentPb ∈ container.components, componentPb.info.id = id ∧ portPb ∈ componentPb.ports := by
  rcases List.mem_append.mp h with h | h
  · obtain ⟨loggerPb, -, h⟩ := List.mem_map.mp h
    cases h
  · obtain ⟨k, hk, h⟩ := List.mem_flatMap.mp h
    refine ⟨k, hk, ?_⟩
    simp only [componentSteps, partSteps, portSteps, workerSteps, List.mem_cons, List.mem_append,
      List.mem_map, List.mem_flatMap, List.not_mem_nil, or_false] at h
    obtain h | (⟨a, -, h⟩ | ⟨portPb, hp, h | ⟨a, -, h⟩ | h⟩) |
      ⟨workerPb, -, h | ⟨a, -, h⟩⟩ := h <;> cases h
    exact ⟨rfl, hp⟩

theorem port_mem_steps {componentPb : ComponentPb} (h : componentPb ∈ container.components)
    {portPb : PortPb} (hport : portPb ∈ componentPb.ports) :
    .port componentPb.info.id portPb ∈ steps container := by
  refine List.mem_append_right _ (List.mem_flatMap.mpr ⟨componentPb, h, ?_⟩)
  refine List.mem_cons_of_mem _ (List.mem_append_left _ (List.mem_append_right _ ?_))
  exact List.mem_flatMap.mpr ⟨portPb, hport, List.mem_cons_self⟩

/-- After the steps, a component that is new is in step with its ports. -/
theorem inStepAt_of_notMem (h : (steps container).forM (Step.run env) c = some (.ok ⟨⟩, c'))
    (hid : c.components.lookup id = none) : InStepAt c' id := by
  intro k' hk' name port hport
  have hstate := componentState_forM h id
  have hbare := barePort_forM h id name
  rw [componentState, componentState, hid, hk'] at hstate
  rw [barePort_of_lookup hk', barePort, hid, hport] at hbare
  obtain hstate | ⟨-, hstate⟩ := hstate
  · cases hstate
  obtain hbare | ⟨-, ⟨port', hport', hnew⟩, -⟩ := hbare
  · cases hbare
  · cases hport'
    have hk : k'.state = .notConfigured := Option.some.inj hstate
    have hp : port.state = .notConfigured := hnew
    rw [hk, hp]

/-- After the steps, the ports of the message are there. -/
theorem port_mem_of_forM (h : (steps container).forM (Step.run env) c = some (.ok ⟨⟩, c'))
    {portPb : PortPb} (hmem : .port id portPb ∈ steps container) {k' : Component}
    (hk' : c'.components.lookup id = some k') : portPb.info.name ∈ k'.ports := by
  obtain ⟨hpasses, c'', hc'', hinventory⟩ | ⟨-, _, _, _, _, _, -, -, -, -, -, herror⟩ :=
    forM_cases env (steps container) c
  · cases h.symm.trans hc''
    have hmet := met_of_passes (grounded_steps container) nofun hpasses _ hmem
    have hsome : (c'.inventory.attributes (.port id portPb.info.name)).isSome := by
      rw [hinventory]
      exact hmet
    rw [attributes_port hk', Option.isSome_map] at hsome
    exact AList.lookup_isSome.mp hsome
  · cases h.symm.trans herror

/-- After the steps, a component that was there is in step with its ports exactly if they were
restarted so, and none is new while it runs. -/
theorem inStepAt_iff_of_lookup (h : (steps container).forM (Step.run env) c = some (.ok ⟨⟩, c'))
    {k : Component} (hk : c.components.lookup id = some k) : InStepAt c' id ↔
      (∀ name port, k.ports.lookup name = some port →
        (RestartRuns (env.handlerFails id name) (mentions container id name) port.state
          port.attempts ↔ k.state = .running)) ∧
      (k.state = .running → ∀ portPb, .port id portPb ∈ steps container →
        portPb.info.name ∈ k.ports) := by
  have hstate := componentState_forM h id
  rw [componentState, componentState, hk] at hstate
  obtain hstate | ⟨hstate, -⟩ := hstate
  swap
  · cases hstate
  obtain ⟨k', hk', hsame⟩ := Option.map_eq_some_iff.mp hstate
  -- the ports that there are in the end
  have hports : ∀ name, (k'.ports.lookup name).map Port.bare = ((k.ports.lookup name).map
        Port.bare).map (Port.reconfigure (env.handlerFails id name))^[mentions container id name] ∨
      (k.ports.lookup name).map Port.bare = none ∧ (∃ port,
        (k'.ports.lookup name).map Port.bare = some port ∧ port.state = .notConfigured) ∧
        ∃ portPb, .port id portPb ∈ steps container ∧ portPb.info.name = name := by
    intro name
    have hbare := barePort_forM h id name
    rw [barePort_of_lookup hk', barePort_of_lookup hk] at hbare
    exact hbare
  constructor
  · intro hstep
    refine ⟨fun name port hport => ?_, fun hrunning portPb hmem => ?_⟩
    · have hbare := hports name
      rw [hport] at hbare
      obtain hbare | ⟨hnone, -⟩ := hbare
      · obtain ⟨port', hport', heq⟩ := Option.map_eq_some_iff.mp hbare
        have hrun := hstep k' hk' name port' hport'
        rw [hsame] at hrun
        have hruns := runs_iterate_iff (env.handlerFails id name)
          (mentions container id name) port.bare
        rw [← hrun]
        exact hruns.symm.trans (iff_of_eq (congrArg (·.state = State.running) heq.symm))
      · cases hnone
    · by_contra hnot
      have hbare := hports portPb.info.name
      rw [AList.lookup_eq_none.mpr hnot] at hbare
      obtain hbare | ⟨-, ⟨port, hport, hnew⟩, -⟩ := hbare
      · have hmem' := AList.lookup_isSome.mpr (port_mem_of_forM h hmem hk')
        rw [Option.map_eq_none_iff.mp hbare] at hmem'
        cases hmem'
      · obtain ⟨port', hport', rfl⟩ := Option.map_eq_some_iff.mp hport
        have hrun := (hstep k' hk' _ port' hport').mpr (hsame.trans hrunning)
        cases hrun.symm.trans hnew
  · rintro ⟨hold, hnew⟩ k₁ hk₁ name port hport
    cases hk'.symm.trans hk₁
    have hbare := hports name
    rw [hport] at hbare
    rw [hsame]
    obtain hbare | ⟨hnone, ⟨port', hport', hstate'⟩, portPb, hmem, rfl⟩ := hbare
    · obtain ⟨port', hport', heq⟩ := Option.map_eq_some_iff.mp hbare.symm
      obtain ⟨port₀, hport₀, rfl⟩ := Option.map_eq_some_iff.mp hport'
      have hruns := runs_iterate_iff (env.handlerFails id name)
        (mentions container id name) port₀.bare
      rw [← hold name port₀ hport₀]
      exact (iff_of_eq (congrArg (·.state = State.running) heq.symm)).trans hruns
    · cases hport'
      have hp : port.state = .notConfigured := hstate'
      rw [hp]
      refine iff_of_false nofun fun hrunning => ?_
      exact AList.lookup_eq_none.mp (Option.map_eq_none_iff.mp hnone) (hnew hrunning portPb hmem)

/-- After a call that returns, the ports of the message's components run exactly if the components
do, if and only if none of them was restarted otherwise, and no component that runs got a new port. -/
theorem inStep_iff (env : Environment) (container : ContainerPb) (c : DeploymentContainer) :
    InStep env container c ↔ StaysInStep env container c := by
  obtain ⟨hpasses, c₁, hc₁, -⟩ | ⟨hnot, -⟩ :=
    forM_cases env (steps container) (named c container)
  · have hconfigure := configure_of_ok hc₁
    have hiff : ∀ componentPb ∈ container.components,
        InStepAt (activatableConfigure env c₁) componentPb.info.id ↔ ∀ k,
          c.components.lookup componentPb.info.id = some k →
          (∀ name port, k.ports.lookup name = some port →
            (RestartRuns (env.handlerFails componentPb.info.id name)
              (mentions container componentPb.info.id name) port.state port.attempts ↔
                k.state = .running)) ∧
          (k.state = .running → ∀ portPb, .port componentPb.info.id portPb ∈ steps container →
            portPb.info.name ∈ k.ports) := by
      intro componentPb hmem
      rw [inStepAt_activatableConfigure]
      cases hlookup : c.components.lookup componentPb.info.id with
      | none => exact iff_of_true (inStepAt_of_notMem hc₁ hlookup) nofun
      | some k =>
        rw [inStepAt_iff_of_lookup hc₁ hlookup]
        simp only [Option.some.injEq, forall_eq']
    constructor
    · intro hstep _ componentPb hmem k hk
      obtain ⟨hports, hnew⟩ := (hiff componentPb hmem).mp (hstep _ hconfigure _ hmem) k hk
      exact ⟨hports, fun hrunning portPb hport => hnew hrunning portPb (port_mem_steps hmem hport)⟩
    · intro hstays c' hc' componentPb hmem
      cases hc'.symm.trans hconfigure
      refine (hiff componentPb hmem).mpr fun k hk => ?_
      obtain ⟨hports, -⟩ := hstays hpasses componentPb hmem k hk
      refine ⟨hports, fun hrunning portPb hport => ?_⟩
      obtain ⟨componentPb', hmem', hid, hport'⟩ := exists_of_port_mem hport
      exact (hstays hpasses componentPb' hmem' k (hid ▸ hk)).2 hrunning portPb hport'
  · exact iff_of_true (fun c' hc' => absurd (succeeds_iff.mp ⟨c', hc'⟩) hnot)
      fun hpasses => absurd hpasses hnot

/-! ## An update between configuration and activation -/

/-- Every constructor returns, and no handler throws. -/
def nothingFails : Environment where
  library := ⟨fun _ => ⟨∅, ∅⟩, fun _ => ∅⟩
  component := fun _ => .ok true
  port := fun _ _ => .ok true
  periodicPort := fun _ _ => .ok ⟨⟩
  loganClient := fun _ => .ok ⟨⟩
  bindPublisherSocket := fun _ => true
  handlerFails := fun _ _ _ _ => false

/-- A component with one port. -/
def withPort : ContainerPb where
  info := ⟨['c'], ['c'], ['c'], []⟩
  components := [⟨⟨['a'], ['a'], ['a'], []⟩, [], [⟨⟨['p'], ['p'], ['p'], []⟩, .publisher, .zmq, []⟩],
    [], [], []⟩]
  loggers := []

/-- The container after the message, before it is activated. -/
def configuredOnce : DeploymentContainer where
  name := ['c']
  id := ['c']
  state := .configured
  components := AList.singleton ['a'] ⟨['a'], ['a'], [], [], .configured, ∅,
    AList.singleton ['p'] ⟨['p'], ['p'], ∅, .configured, 1⟩, ∅⟩
  loganClients := ∅
  loganLogger := none

/-- The message again activates the port of the component, which is only configured. -/
theorem not_inStep : ¬ InStep nothingFails withPort configuredOnce := by
  intro h
  have hrun := h _ rfl _ List.mem_cons_self _ rfl ['p'] _ rfl
  cases hrun.mp rfl

end DeploymentContainer

end Sem.NodeManager
