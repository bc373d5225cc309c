import Sem.EnvironmentManager.Server
import Sem.EnvironmentManager.Stable

/-!
# Rules for the runs of the environment manager

`PopulateExperiment` builds an experiment, completes it and publishes it; when one of its calls
throws, the experiment is removed. A property of the environment holds in every run when each of
these parts and each request keeps it. While an experiment is built, and between its completion and
its publication, more may be known of it.

* `BuildStable.runJob`: what the calls before the completion leave alone.
* `Server.Rules`: what the parts have to keep.
* `Server.Rules.reach`: what holds then in every run.
-/

namespace Sem.EnvironmentManager

open Xml (Text)
open Throwing (Ends Preserves read update undefined)

/-! ## The calls that build -/

/-- The calls before the completion. -/
def Job.Builds : Job → Bool
  | .complete | .publish | .removeExperiment => false
  | _ => true

/-- The experiment without its objects and external ports. -/
def Experiment.bare (e : Experiment) : Experiment :=
  { e with nodes := ∅, externalPorts := ∅, externalIdToInternalId := ∅ }

/-- What all steps of the calls that build an experiment keep. -/
structure BuildStable (name : Text) (I : Environment → Prop) : Prop extends Stable name I where
  modify : ∀ env f, (∀ e, Experiment.bare (f e) = e.bare) → I env →
    I { env with experimentMap := env.experimentMap.adjust name f }
  addNode : ∀ env ip, I env →
    I { env with nodeMap := env.nodeMap.insert ip ⟨env.availablePorts⟩ }

namespace BuildStable

variable {name : Text} {I : Environment → Prop} (h : BuildStable name I)

include h

theorem modifyExperiment {f : Experiment → Experiment} (hf : ∀ e, (f e).bare = e.bare) :
    Preserves I (modifyExperiment name f) :=
  .update fun env => h.modify env f hf

variable [HashOrder]

theorem addLoggerTo (ip container : Text) (c : Container) (msg : NodeManager.Logger) :
    Preserves I (addLoggerTo name ip container c msg) := by
  unfold EnvironmentManager.addLoggerTo
  cases c.addLogger msg with
  | error ex => exact .throw _
  | ok added => exact h.modifyExperiment fun _ => rfl

theorem addLoggingClient (ip : Text) (n : Node) (msg : NodeManager.Logger) :
    Preserves I (addLoggingClient name ip n msg) := by
  unfold EnvironmentManager.addLoggingClient
  cases n.containers.lookup n.implicitContainerId with
  | none => exact .throw _
  | some c =>
    refine .ite (h.addLoggerTo _ _ _ _) ?_
    cases n.containers.entries.find? fun c => c.2.getDeployedComponentCount ≠ 0 with
    | none => exact .pure _
    | some found => exact h.addLoggerTo _ _ _ _

theorem runJob {job : Job} (hjob : job.Builds) : Preserves I (runJob name job) := by
  cases job with
  | addExternalPorts externalPorts =>
    exact .forM fun port => .ite (.pure _) (getExperimentInternal_preserves fun e =>
      .ite (.throw _) (h.modifyExperiment fun _ => rfl))
  | addNodeToExperiment msg =>
    refine Preserves.bind (.update fun env hI => ?_) fun _ =>
      getExperimentInternal_preserves fun e => .ite (.throw _)
        ((h.constructNode msg).bind fun _ => h.modifyExperiment fun _ => rfl)
    split
    · exact hI
    · exact h.addNode env _ hI
  | deployContainer msg =>
    refine getExperimentInternal_preserves fun e => ?_
    cases e.getLeastDeployedToNode false with
    | none => exact .undefined
    | some n =>
      refine Preserves.bind (h.modifyExperiment fun _ => rfl) fun _ =>
        (h.constructContainer n.ip msg).bind fun c => .ite ?_ ?_
      · exact (LabelStable.liveExternalPorts name).bind fun _ => h.destroyContainer n.ip c
      · exact h.modifyExperiment fun _ => rfl
  | addComponentToImplicitContainer msg =>
    refine getExperimentInternal_preserves fun e => ?_
    cases e.getLeastDeployedToNode false with
    | none => exact .undefined
    | some n =>
      dsimp only
      cases n.containers.lookup n.implicitContainerId with
      | none => exact .throw _
      | some c =>
        refine (h.constructComponent n.ip c.orbPort msg).bind fun built =>
          Preserves.bind (h.modifyExperiment fun _ => rfl) fun _ => .ite ?_ ?_
        · exact (LabelStable.liveExternalPorts name).bind fun _ => h.destroyComponent built.1
        · exact h.modifyExperiment fun _ => rfl
  | addLoggingClientToNodes logger =>
    exact getExperimentInternal_preserves fun e => .forM fun n => h.addLoggingClient n.1 n.2 logger
  | addLoggingServerToImplicitContainer logger =>
    refine getExperimentInternal_preserves fun e => ?_
    cases e.getLeastDeployedToNode true with
    | none => exact .undefined
    | some n =>
      dsimp only
      cases n.containers.lookup n.implicitContainerId with
      | none => exact .throw _
      | some c => exact h.addLoggerTo _ _ _ _
  | complete => cases hjob
  | publish => cases hjob
  | removeExperiment => cases hjob

end BuildStable

/-- The completion comes once, after the calls that build. -/
theorem NodeManager.Experiment.jobs_builds (message : NodeManager.Experiment) :
    ∃ building : List Job, (∀ job ∈ building, job.Builds) ∧
      message.jobs = building ++ [.complete, .publish] := by
  refine ⟨.addExternalPorts message.externalPorts ::
    message.clusters.flatMap NodeManager.Cluster.jobs, fun job hjob => ?_, rfl⟩
  obtain rfl | hjob := List.mem_cons.mp hjob
  · rfl
  · obtain ⟨cluster, -, hjob⟩ := List.mem_flatMap.mp hjob
    unfold NodeManager.Cluster.jobs at hjob
    obtain hjob | hjob := List.mem_append.mp hjob
    · obtain hjob | hjob := List.mem_append.mp hjob
      · obtain ⟨node, -, rfl⟩ := List.mem_map.mp hjob
        rfl
      · obtain ⟨container, -, rfl⟩ := List.mem_map.mp hjob
        rfl
    · obtain ⟨container, -, hjob⟩ := List.mem_flatMap.mp hjob
      obtain hjob | hjob := List.mem_append.mp hjob
      · obtain ⟨component, -, rfl⟩ := List.mem_map.mp hjob
        rfl
      · obtain ⟨logger, -, hjob⟩ := List.mem_filterMap.mp hjob
        cases htype : logger.type <;> rw [htype] at hjob <;> cases hjob <;> rfl

/-! ## Runs -/

/-- How far a call of `PopulateExperiment` has come: `building` holds of its experiment before the
completion, `completed` after it. -/
def Task.Stage (building completed : Text → Environment → Prop) (t : Task) (env : Environment) :
    Prop :=
  (∃ jobs : List Job, (∀ job ∈ jobs, job.Builds) ∧ t.jobs = jobs ++ [.complete, .publish] ∧
    building t.name env) ∨
  (t.jobs = [.publish] ∧ completed t.name env) ∨ t.jobs = [.removeExperiment]

namespace Server

/-- Actions are taken where they are allowed. -/
def TakenWhere (allowed : Action → Environment → Prop) (s : Server) (a : Action) : Prop :=
  allowed a s.env

/-- What the programs have to do to keep `I`. -/
structure Rules [HashOrder] (allowed : Action → Environment → Prop)
    (building completed : Text → Environment → Prop) (I : Environment → Prop) : Prop where
  register : ∀ name, Ends (fun env => name ∉ env.experimentMap ∧ I env) (registerExperiment name)
    (fun _ env => building name env ∧ I env) I
  build : ∀ name job, job.Builds →
    Preserves (fun env => building name env ∧ I env) (runJob name job)
  complete : ∀ name, Ends (fun env => building name env ∧ I env) (complete name)
    (fun _ env => completed name env ∧ I env) I
  publish : ∀ name, Ends (fun env => completed name env ∧ I env) (runJob name .publish)
    (fun _ => I) I
  remove : ∀ name, Preserves I (removeExperimentInternal name)
  shutdown : ∀ name, Ends (fun env => allowed (.shutdownExperiment name) env ∧ I env)
    (EnvironmentManager.shutdownExperiment name) (fun _ => I) I
  heartbeat : ∀ name, Preserves I (EnvironmentManager.handleHeartbeat name)
  inspect : ∀ name, Ends (fun env => allowed (.handleInspectExperiment name) env ∧ I env)
    (EnvironmentManager.handleInspectExperiment name) (fun _ => I) I
  info : ∀ name, Ends (fun env => allowed (.handleGetExperimentInfo name) env ∧ I env)
    (EnvironmentManager.handleGetExperimentInfo name) (fun _ => I) I
  nodeManager : ∀ name ip container,
    Preserves I (EnvironmentManager.handleNodeManagerRegistration name ip container)
  logan : ∀ name ip, Preserves I (EnvironmentManager.handleLoganRegistration name ip)

/-- `I` holds, and the call that is under way is at one of its stages. -/
structure Kept (building completed : Text → Environment → Prop) (I : Environment → Prop)
    (s : Server) : Prop where
  env : I s.env
  task : ∀ t, s.task = some t → t.Stage building completed s.env

namespace Rules

variable {allowed : Action → Environment → Prop} {building completed : Text → Environment → Prop}
  {I : Environment → Prop}

theorem ends_run {α : Type} {P : Environment → Prop} {p : Program α} (h : Ends P p (fun _ => I) I)
    {env env' : Environment} {r : Except Exception α} (hP : P env) (hrun : p env = some (r, env')) :
    I env' := by
  have hend := h hP hrun
  cases r with
  | ok a => exact hend
  | error e => exact hend

theorem request {α : Type} {s s' : Server} {P : Environment → Prop} {p : Program α}
    (hp : Ends P p (fun _ => I) I) (hP : P s.env) (hstep : s.request p = some s') :
    s'.Kept building completed I := by
  unfold Server.request at hstep
  cases htask : s.task with
  | some t => rw [htask] at hstep; cases hstep
  | none =>
    rw [htask] at hstep
    obtain ⟨⟨r, env⟩, hrun, rfl⟩ := Option.map_eq_some_iff.mp hstep
    exact ⟨ends_run hp hP hrun, nofun⟩

theorem stage_failed {name : Text} {env : Environment} (t : Task)
    (ht : some ⟨name, [.removeExperiment]⟩ = some t) : t.Stage building completed env := by
  cases ht
  exact .inr (.inr rfl)

variable [HashOrder]

theorem populateExperiment (h : Rules allowed building completed I) {s s' : Server}
    {message : NodeManager.Experiment} (hs : s.Kept building completed I)
    (hstep : s.step (.populateExperiment message) = some s') : s'.Kept building completed I := by
  simp only [step] at hstep
  cases htask : s.task with
  | some t => rw [htask] at hstep; cases hstep
  | none =>
    rw [htask] at hstep
    dsimp only at hstep
    split at hstep
    · cases hstep
      exact hs
    · next hnew =>
      obtain ⟨⟨r, env⟩, hrun, rfl⟩ := Option.map_eq_some_iff.mp hstep
      have hend := h.register message.name ⟨hnew, hs.env⟩ hrun
      cases r with
      | error ex => exact ⟨hend, nofun⟩
      | ok u =>
        refine ⟨hend.2, ?_⟩
        rintro t ⟨⟩
        obtain ⟨jobs, hbuilds, hjobs⟩ := message.jobs_builds
        exact .inl ⟨jobs, hbuilds, hjobs, hend.1⟩

theorem advance (h : Rules allowed building completed I) {s s' : Server}
    (hs : s.Kept building completed I) (hstep : s.step .advance = some s') :
    s'.Kept building completed I := by
  simp only [step] at hstep
  cases htask : s.task with
  | none => rw [htask] at hstep; cases hstep
  | some t =>
    obtain ⟨name, jobs⟩ := t
    have hstage := hs.task _ htask
    rw [htask] at hstep
    cases jobs with
    | nil => cases hstep
    | cons job rest =>
      obtain ⟨⟨r, env⟩, hrun, rfl⟩ := Option.map_eq_some_iff.mp hstep
      obtain ⟨building', hbuilds, hjobs, hbuilding⟩ | ⟨hjobs, hcompleted⟩ | hjobs := hstage
      · cases building' with
        | nil =>
          obtain ⟨rfl, rfl⟩ := List.cons.inj hjobs
          have hend := h.complete name ⟨hbuilding, hs.env⟩ hrun
          cases r with
          | error ex => exact ⟨hend, stage_failed⟩
          | ok u =>
            refine ⟨hend.2, ?_⟩
            rintro t ⟨⟩
            exact .inr (.inl ⟨rfl, hend.1⟩)
        | cons b bs =>
          obtain ⟨rfl, rfl⟩ := List.cons.inj hjobs
          have hend := (h.build name job (hbuilds job List.mem_cons_self)).run ⟨hbuilding, hs.env⟩
            hrun
          cases r with
          | error ex => exact ⟨hend.2, stage_failed⟩
          | ok u =>
            have hnext : next name (bs ++ [.complete, .publish]) (.ok u) =
                some ⟨name, bs ++ [.complete, .publish]⟩ := if_neg (by simp)
            refine ⟨hend.2, fun t ht => ?_⟩
            obtain rfl := Option.some.inj (hnext.symm.trans ht)
            exact .inl ⟨bs, fun b hb => hbuilds b (List.mem_cons_of_mem _ hb), rfl, hend.1⟩
      · obtain ⟨rfl, rfl⟩ := List.cons.inj hjobs
        have hend := ends_run (h.publish name) ⟨hcompleted, hs.env⟩ hrun
        cases r with
        | error ex => exact ⟨hend, stage_failed⟩
        | ok u => exact ⟨hend, nofun⟩
      · obtain ⟨rfl, rfl⟩ := List.cons.inj hjobs
        have hend := (h.remove name).run hs.env hrun
        cases r with
        | error ex => exact ⟨hend, stage_failed⟩
        | ok u => exact ⟨hend, nofun⟩

theorem step (h : Rules allowed building completed I) {s s' : Server} {a : Action}
    (hs : s.Kept building completed I) (hallowed : TakenWhere allowed s a)
    (hstep : s.step a = some s') : s'.Kept building completed I := by
  cases a with
  | populateExperiment message => exact h.populateExperiment hs hstep
  | advance => exact h.advance hs hstep
  | shutdownExperiment name => exact request (h.shutdown name) ⟨hallowed, hs.env⟩ hstep
  | removeExperiment name => exact request (h.remove name) hs.env hstep
  | handleHeartbeat name => exact request (h.heartbeat name) hs.env hstep
  | handleInspectExperiment name => exact request (h.inspect name) ⟨hallowed, hs.env⟩ hstep
  | handleGetExperimentInfo name => exact request (h.info name) ⟨hallowed, hs.env⟩ hstep
  | handleNodeManagerRegistration name ip container =>
    exact request (h.nodeManager name ip container) hs.env hstep
  | handleLoganRegistration name ip => exact request (h.logan name ip) hs.env hstep

theorem reach (h : Rules allowed building completed I) {env : Environment} (hinit : I env)
    {s : Server} (hs : (system env).ReachBy (TakenWhere allowed) s) :
    s.Kept building completed I := by
  have hkept : (system env).InductiveBy (TakenWhere allowed) (Kept building completed I) := by
    refine ⟨?_, fun hs hok hstep => h.step hs hok hstep⟩
    rintro _ rfl
    exact ⟨hinit, nofun⟩
  exact hkept.reach hs

end Rules

end Server

end Sem.EnvironmentManager
