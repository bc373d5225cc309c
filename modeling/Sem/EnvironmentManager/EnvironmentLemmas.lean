import Sem.EnvironmentManager.Holdings

/-!
# Reading the environment

* `Environment.free`: the free ports of a node, and what a change of its tracker does to them.
* `getExperimentInternal_some`, `getExperimentInternal_none`: the lookup returns or throws.
-/

namespace Sem.EnvironmentManager

open Xml (Text)

variable {env : Environment}

namespace Environment

/-- The free ports of a node. -/
def free (env : Environment) (ip : Text) : List ℕ :=
  ((env.nodeMap.lookup ip).map PortTracker.availablePorts).getD []

theorem free_adjust {ip ip' : Text} {tracker : PortTracker}
    (h : env.nodeMap.lookup ip = some tracker) (f : PortTracker → PortTracker) :
    ({ env with nodeMap := env.nodeMap.adjust ip f } : Environment).free ip' =
      if ip' = ip then (f tracker).availablePorts else env.free ip' := by
  simp only [free, Table.lookup_adjust]
  by_cases hip : ip' = ip
  · subst hip
    simp [h]
  · simp [hip]

end Environment

theorem getExperimentInternal_some {name : Text} {e : Experiment}
    (h : env.experimentMap.lookup name = some e) :
    getExperimentInternal name env = some (.ok e, env) := by
  rw [getExperimentInternal, Throwing.bind_ok (p := Throwing.read) rfl]
  simp only [h]
  rfl

theorem getExperimentInternal_none {name : Text} (h : env.experimentMap.lookup name = none) :
    getExperimentInternal name env = some (.error .invalidArgument, env) := by
  rw [getExperimentInternal, Throwing.bind_ok (p := Throwing.read) rfl]
  simp only [h]
  rfl

end Sem.EnvironmentManager
