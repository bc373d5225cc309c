import Sem.EnvironmentManager.Construction
import Sem.EnvironmentManager.Holdings

/-!
# Adding a logger to a container

* `LoggersAdded`: no network port is taken, and nothing but the loggers changes.
* `Container.addLogger_eq`: `Container::AddLogger` in two steps.
-/

namespace Sem.EnvironmentManager

open Xml (Text)

/-- What adding a logger to a container does: no port is taken yet. -/
structure LoggersAdded (k k' : Container) : Prop where
  components : k'.components = k.components
  orbPort : k'.orbPort = k.orbPort
  ports : ∀ ip, (k'.loggers.values.flatMap fun l => portAt ip l.publisherPort).Perm
    (k.loggers.values.flatMap fun l => portAt ip l.publisherPort)

namespace LoggersAdded

variable {k k' k'' : Container}

theorem refl (k : Container) : LoggersAdded k k := ⟨rfl, rfl, fun _ => .refl _⟩

theorem trans (h : LoggersAdded k k') (h' : LoggersAdded k' k'') : LoggersAdded k k'' :=
  ⟨h'.components.trans h.components, h'.orbPort.trans h.orbPort,
    fun ip => (h'.ports ip).trans (h.ports ip)⟩

theorem held_perm (h : LoggersAdded k k') (ip : Text) : (k'.held ip).Perm (k.held ip) := by
  rw [Container.held, Container.held, h.orbPort, h.components]
  exact ((h.ports ip).append_right _).append_left _

end LoggersAdded

namespace Container

theorem loggersAdded_adjust (k : Container) (key : Text) {f : Logger → Logger}
    (h : ∀ l, (f l).publisherPort = l.publisherPort) :
    LoggersAdded k { k with loggers := k.loggers.adjust key f } where
  components := rfl
  orbPort := rfl
  ports ip := .of_eq (Table.flatMap_adjust_eq fun l => by rw [h])

variable [HashOrder]

theorem loggersAdded_emplaceLogger (k : Container) (key : Text) {logger : Logger}
    (h : logger.publisherPort = none) : LoggersAdded k (k.emplaceLogger key logger) := by
  unfold emplaceLogger
  split
  · exact LoggersAdded.refl k
  · rename_i hkey
    refine ⟨rfl, rfl, fun ip => ?_⟩
    have hplaced := Table.flatMap_place_perm hkey logger fun l => portAt ip l.publisherPort
    rwa [h] at hplaced

theorem loggersAdded_addModelLogger (k : Container) : LoggersAdded k k.addModelLogger :=
  k.loggersAdded_emplaceLogger MODEL_LOGGER_ID rfl

theorem loggersAdded_setNodeManagerMaster (k : Container) :
    LoggersAdded k k.setNodeManagerMaster := by
  have hmark : LoggersAdded k { k with isNodeManagerMaster := true } :=
    ⟨rfl, rfl, fun _ => .refl _⟩
  exact hmark.trans (loggersAdded_emplaceLogger _ EXPERIMENT_LOGGER_ID rfl)

/-- `AddLogger` after the logger was made. -/
def addNewLogger (k : Container) (id : Text) (logger : Logger) : Container :=
  match (k.emplaceLogger id logger).loggers.lookup id with
  | some found =>
    if found.type = .client then
      { k.emplaceLogger id logger with
        loggers := (k.emplaceLogger id logger).loggers.adjust MODEL_LOGGER_ID
          fun l => { l with mode := found.mode } }
    else k.emplaceLogger id logger
  | none => k.emplaceLogger id logger

theorem addLogger_eq (k : Container) (msg : NodeManager.Logger) :
    k.addLogger msg = (newLogger msg).map (k.addNewLogger msg.id) := by
  unfold addLogger
  cases newLogger msg with
  | error ex => rfl
  | ok logger =>
    show (match (k.emplaceLogger msg.id logger).loggers.lookup msg.id with
      | some found =>
        if found.type = .client then _ else .ok (k.emplaceLogger msg.id logger)
      | none => .ok (k.emplaceLogger msg.id logger)) = Except.ok (k.addNewLogger msg.id logger)
    unfold addNewLogger
    cases (k.emplaceLogger msg.id logger).loggers.lookup msg.id with
    | none => rfl
    | some found =>
      by_cases hclient : found.type = .client
      · simp only [if_pos hclient]
        rfl
      · simp only [if_neg hclient]

theorem loggersAdded_addLogger {k k' : Container} {msg : NodeManager.Logger}
    (h : k.addLogger msg = .ok k') : LoggersAdded k k' := by
  rw [addLogger_eq] at h
  cases hnew : newLogger msg with
  | error ex =>
    rw [hnew] at h
    cases h
  | ok logger =>
    have hport : logger.publisherPort = none := by
      unfold newLogger at hnew
      split at hnew <;> cases hnew <;> rfl
    have hplaced := k.loggersAdded_emplaceLogger msg.id hport
    rw [hnew] at h
    cases h
    unfold addNewLogger
    split
    · split
      · exact hplaced.trans (loggersAdded_adjust _ _ fun _ => rfl)
      · exact hplaced
    · exact hplaced

end Container

end Sem.EnvironmentManager
