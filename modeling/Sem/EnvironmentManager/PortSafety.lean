import Mathlib.Algebra.Order.Group.Nat
import Mathlib.Algebra.Order.Pi
import Sem.EnvironmentManager.Definedness
import Sem.EnvironmentManager.LoggersAdded
import Sem.EnvironmentManager.Server
import Sem.EnvironmentManager.Stable

/-!
# No network port is given twice

What a constructor takes from the free ports of a node is what the new object holds, and a
destructor gives back no more than the object held, also when a constructor throws. Ports may get
lost on the way, but a port that an object holds is never free and never held by another one, in
every run and whatever fails in it.

* `freePorts`, `amount`: how often a port is free or in a list.
* `constructContainer_balanced`, `constructNode_balanced`, `destroyNode_balanced`: the balance of
  the constructors and destructors.
-/

namespace Sem.EnvironmentManager

open Xml (Text)
open Throwing (Balanced Ends Keeps Preserves read update undefined)

/-- How often a port of a node is free. -/
def freePorts (env : Environment) : Text × ℕ → ℕ := fun k => (env.free k.1).count k.2

/-- How often a port of a node is in a list. -/
def amount (ports : List (Text × ℕ)) : Text × ℕ → ℕ := fun k => ports.count k

@[simp] theorem amount_nil : amount [] = 0 := rfl

/-- The order of ports does not matter. -/
theorem amount_of_perm {l l' : List (Text × ℕ)} (h : l.Perm l') : amount l = amount l' :=
  funext fun _ => h.count_eq _

@[simp] theorem amount_append (l l' : List (Text × ℕ)) : amount (l ++ l') = amount l + amount l' :=
  funext fun _ => List.count_append

/-! ## Network ports -/

/-- A port that is taken is free no more. -/
theorem getPort_balanced (ip : Text) :
    Balanced freePorts 0 (getPort ip) (fun port => amount (portAt ip port)) 0 := by
  intro T
  refine Ends.read fun env hfree => ?_
  cases hip : env.nodeMap.lookup ip with
  | none => exact Ends.throw fun _ heq => heq ▸ hfree
  | some tracker =>
    obtain ⟨queue⟩ := tracker
    cases queue with
    | nil => exact Ends.pure fun _ heq => heq ▸ hfree
    | cons p ps =>
      refine (Ends.update (Q := fun _ env => freePorts env + amount [(ip, p)] ≤ T) ?_).bind fun _ =>
        Ends.pure fun _ => id
      rintro _ rfl ⟨ip', q⟩
      have hold := hfree (ip', q)
      simp only [Pi.add_apply, freePorts, amount, Environment.free_adjust hip, Pi.zero_apply,
        List.count_singleton, beq_iff_eq, Prod.mk.injEq] at hold ⊢
      by_cases heq : ip' = ip
      · subst heq
        simp only [Environment.free, hip, Option.map_some, Option.getD_some, List.count_cons,
          beq_iff_eq] at hold
        simp only [if_true, true_and]
        omega
      · simp only [if_neg heq, Ne.symm heq, false_and, if_false]
        exact hold

/-- A port that is free already is not pushed again. -/
theorem count_push_le (queue : List ℕ) (p q : ℕ) :
    (push queue p).count q ≤ queue.count q + [p].count q := by
  unfold push
  split
  · exact Nat.le_add_right _ _
  · rw [List.count_append]

/-- A port that is freed was held. -/
theorem freePort_balanced (ip : Text) (port : Option ℕ) (thrown : Text × ℕ → ℕ) :
    Balanced freePorts (amount (portAt ip port)) (freePort ip port) (fun _ => 0) thrown := by
  cases port with
  | none => exact .pure le_rfl
  | some p =>
    refine fun T => Ends.update fun env hfree => ?_
    rintro ⟨ip', q⟩
    have hold := hfree (ip', q)
    simp only [Pi.add_apply, freePorts, amount, Pi.zero_apply, portAt_some, List.count_singleton,
      beq_iff_eq, Prod.mk.injEq] at hold ⊢
    cases hip : env.nodeMap.lookup ip with
    | none =>
      rw [Table.adjust_of_notMem (AList.lookup_eq_none.mp hip)]
      show (env.free ip').count q + 0 ≤ _
      omega
    | some tracker =>
      rw [Environment.free_adjust hip]
      by_cases heq : ip' = ip
      · subst heq
        have hpush := count_push_le tracker.availablePorts p q
        simp only [Environment.free, hip, Option.map_some, Option.getD_some, true_and] at hold
        simp only [List.count_singleton, beq_iff_eq] at hpush
        simp only [if_true]
        omega
      · rw [if_neg heq]
        omega

/-- Recording the use of an external port takes no network port. -/
theorem keeps_freePorts {α : Type} {p : Program α} (name : Text)
    (h : ∀ I, LabelStable name I → Preserves I p) : Keeps freePorts p :=
  .of_preserves fun x =>
    h (freePorts · = x) ⟨fun _ _ => id, fun _ _ _ _ => id, fun _ _ _ _ _ _ _ => id⟩

/-! ## Destructors -/

section Destroy

variable (externalPorts : Table Text ExternalPort) (name : Text)

/-- Each object of a list gives back what it holds. -/
theorem destroyAll_balanced {α : Type} {held : α → List (Text × ℕ)} {destroy : α → Program Unit}
    (h : ∀ a, Balanced freePorts (amount (held a)) (destroy a) (fun _ => 0) 0) (l : List α) :
    Balanced freePorts (amount (l.flatMap held)) (l.forM destroy) (fun _ => 0) 0 := by
  refine Balanced.forM (fun l => amount (l.flatMap held)) (fun a rest => ?_) l
  rw [List.flatMap_cons, amount_append, add_comm]
  refine ((h a).frame _).conseq le_rfl (fun _ => ?_) ?_
  · rw [add_zero]
  · rw [add_zero]
    exact fun _ => Nat.zero_le _

theorem unregisterPort_balanced (p : Port) :
    Balanced freePorts 0 (p.unregister externalPorts name) (fun _ => 0) 0 :=
  .of_keeps (keeps_freePorts name fun _ h => h.unregisterPort p)

/-- A port object frees what it holds. -/
theorem destroyPort_balanced (p : Port) :
    Balanced freePorts (amount p.held) (p.destroy externalPorts name) (fun _ => 0) 0 := by
  refine .ite (fun hzmq => ?_) fun hzmq => ?_
  · rw [Port.held, if_pos hzmq]
    exact (freePort_balanced p.ip p.producerPort 0).bind fun _ => unregisterPort_balanced _ _ p
  · rw [Port.held, if_neg hzmq]
    exact unregisterPort_balanced _ _ p

/-- A component frees what its ports hold. -/
theorem destroyComponent_balanced (k : Component) :
    Balanced freePorts (amount k.held) (k.destroy externalPorts name) (fun _ => 0) 0 :=
  destroyAll_balanced (destroyPort_balanced externalPorts name) k.ports.values

/-- The ports of a container but for its ORB port. -/
def Container.heldByMembers (ip : Text) (c : Container) : List (Text × ℕ) :=
  c.loggers.values.flatMap (fun l => portAt ip l.publisherPort) ++
    c.components.values.flatMap Component.held

/-- Components and loggers of a container free what they hold. -/
theorem destroyMembers_balanced (ip : Text) (c : Container) :
    Balanced freePorts (amount (c.heldByMembers ip)) (c.destroyMembers externalPorts name ip)
      (fun _ => 0) 0 := by
  have hloggers := destroyAll_balanced
    (fun l : Logger => freePort_balanced ip l.publisherPort 0) c.loggers.values
  rw [Container.heldByMembers, amount_append, add_comm]
  have hframed := hloggers.frame (amount (c.components.values.flatMap Component.held))
  refine (hframed.conseq le_rfl (fun _ => le_rfl) fun _ => Nat.zero_le _).bind fun _ => ?_
  rw [add_zero]
  exact destroyAll_balanced (destroyComponent_balanced externalPorts name) c.components.values

/-- An ORB port of a container that deploys nothing is lost. -/
theorem destroyContainer_balanced (ip : Text) (c : Container) :
    Balanced freePorts (amount (c.held ip)) (c.destroy externalPorts name ip) (fun _ => 0) 0 := by
  have hmembers := destroyMembers_balanced externalPorts name ip c
  have hheld : amount (c.held ip) =
      amount (c.heldByMembers ip) + amount (portAt ip c.orbPort) := by
    rw [Container.held, amount_append, add_comm]
    rfl
  rw [hheld]
  refine .ite (fun _ => ?_) fun _ => ?_
  · refine (((freePort_balanced ip c.orbPort 0).frame (amount (c.heldByMembers ip))).conseq le_rfl
      (fun _ => le_rfl) fun _ => Nat.zero_le _).bind fun _ => ?_
    rwa [add_zero]
  · exact hmembers.conseq (fun _ => Nat.le_add_right _ _) (fun _ => le_rfl) le_rfl

/-- A node frees what its containers hold. -/
theorem destroyNode_balanced (n : Node) :
    Balanced freePorts (amount n.held) (n.destroy externalPorts name) (fun _ => 0) 0 :=
  destroyAll_balanced (destroyContainer_balanced externalPorts name n.ip) n.containers.values

end Destroy

/-! ## Constructors -/

section Build

variable (name : Text)

theorem newPort_balanced (msg : NodeManager.Port) :
    Balanced freePorts 0 (newPort name msg) (fun p => amount p.held) 0 := by
  have hheld : ∀ p : Port, p.producerPort = none → amount p.held ≤ 0 := by
    intro p hp
    unfold Port.held
    rw [hp]
    split <;> exact le_rfl
  unfold newPort
  cases role msg.kind with
  | none => exact .pure (hheld _ rfl)
  | some r =>
    refine Balanced.bind (.of_keeps (keeps_freePorts name fun _ h => ?_)) fun _ =>
      .pure (hheld _ rfl)
    exact .forM fun id => h.addExternalPort r id msg.id

theorem liveExternalPorts_balanced (before thrown : Text × ℕ → ℕ) :
    Balanced freePorts before (liveExternalPorts name) (fun _ => before) thrown :=
  (Balanced.of_keeps (keeps_freePorts name fun _ _ =>
    LabelStable.liveExternalPorts name)).noThrow (liveExternalPorts_succeeds name).neverThrows thrown

/-- A port that fails is no object, and what its maker has in hand stays in hand. -/
theorem failPort_balanced (p : Port) (hand thrown : Text × ℕ → ℕ) :
    Balanced freePorts hand (failPort name p) (fun made => hand + amount (heldBy made)) thrown := by
  refine (liveExternalPorts_balanced name hand thrown).bind fun T => ?_
  refine ((Balanced.of_keeps (keeps_freePorts name fun _ h => h.unregisterPort p)).noThrow
    (p.unregister_succeeds name T).neverThrows thrown).bind fun _ => .pure ?_
  exact le_rfl

/-- A container takes an ORB port once. -/
theorem assignOrbPort_balanced (ip : Text) (orbPort : Option ℕ) :
    Balanced freePorts (amount (portAt ip orbPort)) (assignOrbPort ip orbPort)
      (fun orbPort' => amount (portAt ip orbPort')) (amount (portAt ip orbPort)) := by
  cases orbPort with
  | none => exact getPort_balanced ip
  | some p => exact .pure le_rfl

/-- The port takes its own network port or the container's ORB port. -/
theorem takePorts_balanced (ip : Text) (orbPort : Option ℕ) (p : Port) :
    Balanced freePorts (amount (portAt ip orbPort) + amount p.held) (takePorts ip orbPort p)
      (fun taken => amount (portAt ip taken.2) + amount taken.1.held)
      (amount (portAt ip orbPort)) := by
  have hsame : Balanced freePorts (amount (portAt ip orbPort) + amount p.held)
      (pure (p, orbPort) : Program (Port × Option ℕ))
      (fun taken => amount (portAt ip taken.2) + amount taken.1.held)
      (amount (portAt ip orbPort)) := .pure le_rfl
  unfold takePorts
  cases p.middleware with
  | zmq =>
    refine .ite (fun hrole => ?_) fun _ => hsame
    refine Balanced.bind (((getPort_balanced ip).frame (amount (portAt ip orbPort))).conseq
      (fun _ => Nat.add_le_add_left (Nat.zero_le _) _) (fun _ => le_rfl) le_rfl) fun port =>
        .pure ?_
    unfold Port.held
    rw [if_pos ⟨rfl, hrole⟩]
  | tao =>
    refine Balanced.bind (((assignOrbPort_balanced ip orbPort).frame (amount p.held)).conseq
      (add_comm _ _).le (fun _ => le_rfl) fun _ => Nat.le_add_left _ _) fun orbPort' =>
        .pure (add_comm _ _).le
  | qpid => exact hsame
  | rti => exact hsame
  | ospl => exact hsame
  | noMiddleware => exact hsame

/-- The ORB port comes in by reference and stays with the container. -/
theorem constructPort_balanced (ip : Text) (orbPort : Option ℕ) (msg : NodeManager.Port) :
    Balanced freePorts (amount (portAt ip orbPort)) (constructPort name ip orbPort msg)
      (fun made => amount (portAt ip made.2) + amount (heldBy made.1)) 0 := by
  unfold constructPort
  refine .ite (fun _ => .pure le_rfl) fun _ => ?_
  refine Balanced.bind (((newPort_balanced name msg).frame (amount (portAt ip orbPort))).conseq
    le_rfl (fun _ => le_rfl) fun _ => Nat.zero_le _) fun p => ?_
  refine .tryCatch (amount (portAt ip orbPort)) ?_ fun _ => ?_
  · refine (takePorts_balanced ip orbPort p).bind fun taken T => Ends.read fun env hfree => ?_
    have hhere : ∀ t, t = env →
        freePorts t + (amount (portAt ip taken.2) + amount taken.1.held) ≤ T :=
      fun t heq => heq ▸ hfree
    refine Ends.ite (fun _ => Ends.pure fun t heq => ?_) fun _ => ?_
    · have hheld : heldBy (some taken.1) = taken.1.held := List.append_nil _
      rw [hheld]
      exact hhere t heq
    · -- what the port took for itself is lost
      refine (Ends.bind (((failPort_balanced name p _ (amount (portAt ip orbPort))) T).pre hhere)
        fun made => Ends.pure fun t ht => ?_)
      exact fun k => (Nat.add_le_add_left (Nat.add_le_add_right (Nat.le_add_right _ _) _) _).trans
        (ht k)
  · exact (failPort_balanced name p _ 0).bind fun made => .pure le_rfl

theorem takePorts_orbPort (ip : Text) (orbPort : Option ℕ) (p : Port) :
    Ends (fun _ => True) (takePorts ip orbPort p)
      (fun taken _ => orbPort ≠ none → taken.2 = orbPort) fun _ => True := by
  have hsame : Ends (fun _ => True) (pure (p, orbPort) : Program (Port × Option ℕ))
      (fun taken _ => orbPort ≠ none → taken.2 = orbPort) fun _ => True :=
    .pure fun _ _ _ => rfl
  unfold takePorts
  cases p.middleware with
  | zmq => exact .ite (fun _ => Ends.any.bind fun _ => .pure fun _ _ _ => rfl) fun _ => hsame
  | tao =>
    cases orbPort with
    | none => exact Ends.any.bind fun _ => .pure fun _ _ hne => absurd rfl hne
    | some q => exact .pure fun _ _ _ => rfl
  | qpid => exact hsame
  | rti => exact hsame
  | ospl => exact hsame
  | noMiddleware => exact hsame

/-- An ORB port that was there is used again. -/
theorem constructPort_orbPort (ip : Text) (orbPort : Option ℕ) (msg : NodeManager.Port) :
    Ends (fun _ => True) (constructPort name ip orbPort msg)
      (fun made _ => orbPort ≠ none → made.2 = orbPort) fun _ => True := by
  refine .ite (fun _ => .pure fun _ _ _ => rfl) fun _ => Ends.any.bind fun p => ?_
  have hfailed : ∀ orbPort', (orbPort ≠ none → orbPort' = orbPort) →
      Ends (fun _ => True) (failPort name p >>= fun failed => pure (failed, orbPort'))
        (fun made _ => orbPort ≠ none → made.2 = orbPort) fun _ => True :=
    fun _ hkept => Ends.any.bind fun _ => .pure fun _ _ => hkept
  refine Ends.tryCatch ?_ fun _ => hfailed orbPort fun _ => rfl
  refine (takePorts_orbPort ip orbPort p).bind fun taken => Ends.read fun env hkept => ?_
  exact .ite (fun _ => .pure fun _ _ => hkept) fun _ => (hfailed _ hkept).pre fun _ _ => trivial

theorem amount_container (ip : Text) (c : Container) :
    amount (c.held ip) = amount (portAt ip c.orbPort) + amount (c.heldByMembers ip) :=
  amount_append _ _

theorem held_noteImplicit (n : Node) (msg : NodeManager.Container) :
    (n.noteImplicit msg).held = n.held := by
  unfold Node.noteImplicit
  split <;> rfl

variable [HashOrder]

/-- A second port under an id is destroyed at once. -/
theorem emplacePort_balanced (k : Component) (id : Text) (p : Port) :
    Balanced freePorts (amount p.held + amount k.held) (k.emplacePort name id p)
      (fun k' => amount k'.held) 0 := by
  refine .ite (fun _ => ?_) fun hnew => .pure ?_
  · refine (liveExternalPorts_balanced name _ _).bind fun T => ?_
    have hdestroy := (destroyPort_balanced T name p).frame (amount k.held)
    refine (hdestroy.conseq (add_comm _ _).le (fun _ => le_rfl) fun _ => Nat.zero_le _).bind
      fun _ => .pure ?_
    exact le_rfl
  · rw [Component.held, amount_of_perm (Table.flatMap_place_perm hnew p Port.held), amount_append]
    exact le_rfl

/-- A component that is thrown away frees the ports that it has by then. -/
theorem constructComponent_balanced (ip : Text) (orbPort : Option ℕ) (msg : NodeManager.Component) :
    Balanced freePorts (amount (portAt ip orbPort)) (constructComponent name ip orbPort msg)
      (fun built => amount (portAt ip built.2) + amount built.1.held) 0 := by
  unfold constructComponent
  refine (Balanced.foldlM (fun _ (built : Component × Option ℕ) =>
    amount (portAt ip built.2) + amount built.1.held) (fun port _ built => ?_) msg.ports _).conseq
      (add_zero _).le (fun _ => le_rfl) le_rfl
  obtain ⟨k, orbPort⟩ := built
  refine Balanced.bind (((constructPort_balanced name ip orbPort port).frame (amount k.held)).conseq
    (add_comm _ _).le (fun _ => le_rfl) fun _ => Nat.zero_le _) fun made => ?_
  obtain ⟨made, orbPort'⟩ := made
  cases made with
  | none => exact .pure (by rw [add_comm]; exact le_rfl)
  | some p =>
    have hheld : heldBy (some p) = p.held := List.append_nil _
    have hplace := (emplacePort_balanced name k port.id p).frame (amount (portAt ip orbPort'))
    refine Balanced.bind (hplace.conseq ?_ (fun _ => le_rfl) fun _ => Nat.zero_le _) fun k' =>
      .pure le_rfl
    rw [hheld, add_comm (amount k.held), add_assoc]

/-! The ORB port of a container is assigned once. -/

/-- An ORB port that was there is used again. -/
theorem constructComponent_orbPort (ip : Text) (orbPort : Option ℕ) (msg : NodeManager.Component) :
    Ends (fun _ => True) (constructComponent name ip orbPort msg)
      (fun built _ => orbPort ≠ none → built.2 = orbPort) fun _ => True := by
  refine (Ends.foldlM (fun _ (built : Component × Option ℕ) _ =>
    orbPort ≠ none → built.2 = orbPort) (fun port _ built => ?_) msg.ports _).pre
      fun _ _ _ => rfl
  refine Ends.given fun hbuilt => (constructPort_orbPort name ip built.2 port).bind fun made => ?_
  obtain ⟨made, orbPort'⟩ := made
  have hkept : (built.2 ≠ none → orbPort' = built.2) → orbPort ≠ none → orbPort' = orbPort := by
    intro hmade hne
    rw [hmade (by rwa [hbuilt hne]), hbuilt hne]
  cases made with
  | none => exact .pure fun _ => hkept
  | some p => exact .given fun hmade => Ends.any.bind fun _ => .pure fun _ _ => hkept hmade

/-- The component's constructor, of a container that has this ORB port. -/
theorem constructComponent_gained (ip : Text) (orbPort : Option ℕ) (msg : NodeManager.Component) :
    Balanced freePorts 0 (constructComponent name ip orbPort msg)
      (fun built => amount (gained ip orbPort built.2) + amount built.1.held) 0 := by
  have hbalanced := constructComponent_balanced name ip orbPort msg
  cases orbPort with
  | none => exact hbalanced
  | some q =>
    intro T s r s' hs hrun
    cases r with
    | error e => exact ((constructComponent_succeeds name ip _ msg).neverThrows trivial hrun).elim
    | ok built =>
      have hkept : built.2 = some q :=
        constructComponent_orbPort name ip (some q) msg trivial hrun (Option.some_ne_none q)
      have hrun := hbalanced.run_ok hrun
      intro key
      have hkey := hrun key
      have hold := hs key
      simp only [hkept, gained_self, amount_nil, Pi.add_apply, Pi.zero_apply] at hkey hold ⊢
      omega

/-- A second component under an id is destroyed at once. -/
theorem addComponent_balanced (ip : Text) (c : Container) (msg : NodeManager.Component) :
    Balanced freePorts (amount (c.held ip)) (Container.addComponent name ip c msg)
      (fun c' => amount (c'.held ip)) 0 := by
  rw [amount_container]
  refine Balanced.bind (((constructComponent_balanced name ip c.orbPort msg).frame
    (amount (c.heldByMembers ip))).conseq (add_comm _ _).le (fun _ => le_rfl)
      fun _ => Nat.zero_le _) fun built => ?_
  obtain ⟨k, orbPort⟩ := built
  refine .ite (fun _ => ?_) fun hnew => .pure ?_
  · refine (liveExternalPorts_balanced name _ 0).bind fun T => ?_
    have hdestroy := (destroyComponent_balanced T name k).frame
      (amount (c.heldByMembers ip) + amount (portAt ip orbPort))
    rw [add_assoc] at hdestroy
    refine Balanced.bind (hdestroy.conseq le_rfl (fun _ => le_rfl) fun _ => Nat.zero_le _)
      fun _ => .pure ?_
    rw [amount_container, add_zero, add_comm]
    exact le_rfl
  · rw [amount_container]
    simp only [Container.heldByMembers, amount_append,
      amount_of_perm (Table.flatMap_place_perm hnew k Component.held)]
    exact fun _ => by simp only [Pi.add_apply]; omega

/-- A logger takes its port later, when it is read. -/
theorem addLoggers_balanced (ip : Text) (c : Container) (msgs : List NodeManager.Logger) :
    Balanced freePorts (amount (c.held ip)) (addLoggers name ip c msgs)
      (fun c' => amount (c'.held ip)) 0 := by
  refine Balanced.foldlM (fun _ c => amount (Container.held ip c))
    (fun msg _ c => ?_) msgs c
  refine .ite (fun _ => ?_) fun _ => .pure le_rfl
  cases hlogger : c.addLogger msg with
  | ok added =>
    refine .pure ?_
    rw [amount_of_perm ((Container.loggersAdded_addLogger hlogger).held_perm ip)]
  | error ex =>
    -- the ORB port is lost
    refine (liveExternalPorts_balanced name _ 0).bind fun T => ?_
    refine Balanced.bind ((destroyMembers_balanced T name ip c).conseq ?_ (fun _ => le_rfl) le_rfl)
      fun _ => .throw le_rfl
    rw [amount_container]
    exact fun _ => Nat.le_add_left _ _

/-- A constructor that throws has destroyed the members that it had made. -/
theorem constructContainer_balanced (ip : Text) (msg : NodeManager.Container) :
    Balanced freePorts 0 (constructContainer name ip msg) (fun c => amount (c.held ip)) 0 := by
  unfold constructContainer
  refine Balanced.bind ((Balanced.foldlM (fun _ c => amount (Container.held ip c))
    (fun msg _ c => addComponent_balanced name ip c msg) msg.components _).conseq le_rfl
      (fun _ => le_rfl) le_rfl) fun c => ?_
  refine (addLoggers_balanced name ip _ msg.loggers).conseq ?_ (fun _ => le_rfl) le_rfl
  split
  · rw [amount_of_perm (c.loggersAdded_addModelLogger.held_perm ip)]
  · exact le_rfl

/-- A second container under an id is destroyed at once. -/
theorem addContainer_balanced (n : Node) (msg : NodeManager.Container) :
    Balanced freePorts (amount n.held) (Node.addContainer name n msg)
      (fun n' => amount n'.held) 0 := by
  unfold Node.addContainer
  have hbuild := (constructContainer_balanced name n.ip msg).frame (amount n.held)
  rw [add_zero] at hbuild
  refine (hbuild.tryCatch _ fun ex => ?_).bind fun c => .ite (fun _ => ?_) fun hnew => .pure ?_
  · refine (liveExternalPorts_balanced name _ 0).bind fun T => ?_
    exact Balanced.bind (destroyNode_balanced T name n) fun _ => .throw le_rfl
  · refine (liveExternalPorts_balanced name _ 0).bind fun T => ?_
    refine Balanced.bind (((destroyContainer_balanced T name n.ip c).frame (amount n.held)).conseq
      le_rfl (fun _ => le_rfl) fun _ => Nat.zero_le _) fun _ => .pure ?_
    rw [held_noteImplicit, add_zero]
  · have hplain : (((n.noteImplicit msg).emplaceContainer msg.id c).held).Perm
        (c.held n.ip ++ n.held) := by
      have hnote : (n.noteImplicit msg).containers = n.containers ∧
          (n.noteImplicit msg).ip = n.ip := by
        unfold Node.noteImplicit
        split <;> exact ⟨rfl, rfl⟩
      simp only [Node.emplaceContainer, Node.held, hnote]
      exact Table.flatMap_place_perm hnew c _
    rw [amount_of_perm hplain, amount_append, add_comm]

/-- A node that cannot be built frees what its containers took. -/
theorem constructNode_balanced (msg : NodeManager.Node) :
    Balanced freePorts 0 (constructNode name msg) (fun n => amount n.held) 0 := by
  refine .ite (fun _ => .throw le_rfl) fun _ => ?_
  refine (Balanced.foldlM (fun _ n => amount (Node.held n))
    (fun msg _ n => addContainer_balanced name n msg) msg.containers _).conseq ?_
      (fun _ => le_rfl) le_rfl
  exact le_rfl

end Build

end Sem.EnvironmentManager
