import Sem.NodeManager.ExecutionManager
import Sem.Zmq.ProtoRequester

/-!
# The start-up of one slave

A slave asks the master for its configuration and asks again when no reply comes in time. Its
requests and the replies to them travel over the network, which may lose them or be late. The
master meanwhile handles the requests of other slaves.

The requester's socket refuses to send after a request that timed out; the slave counts that as a
retry too, and the attempt after it has a new socket. What arrives at a socket that nobody polls
any more is never read.

* `step`: one attempt of the slave, one message that arrives or is lost, or something else at the
  master.
* `survives_of_reachBy`: the start-up survives in every run in which the master sees one request of
  the slave only; `Inv.clean`: with a second one it never does.
-/

namespace Sem.NodeManager

open Xml (Text)

/-- What the replier sends: a reply, or the text of the exception; a handler that returns no reply
gives an empty text. -/
abbrev Answer := Except (Option Exception) SlaveStartupReply

/-- Where a slave is in `RequestDeployment`. -/
inductive SlavePoint
  /-- At `SendRequest`. -/
  | sending (retryCount : ℕ)
  /-- At `get`, with the request sent. -/
  | polling (retryCount : ℕ) (attempt : ℕ)
  /-- It has the reply. -/
  | started (reply : SlaveStartupReply)
  /-- `RMIException`. -/
  | refused (exception : Option Exception)
  /-- "failed after three attempts" -/
  | failed
  deriving DecidableEq, Repr

/-- A slave, its master and the network between them; a request is named by its position among
those of the slave that were sent. -/
structure SlaveStartup where
  ipAddress : Text
  containerId : Text
  master : ExecutionManager
  slave : SlavePoint
  socket : Zmq.ReqSocket
  attempts : ℕ
  requests : List ℕ
  replies : List (ℕ × Answer)
  /-- History: what the master answered, and what of it came in time. -/
  answers : List (ℕ × Answer)
  inTime : List (ℕ × Answer)

namespace SlaveStartup

/-- What the slave, the network and the manager do. -/
inductive Action
  | send
  | expire
  | loseRequest (attempt : ℕ)
  | handle (attempt : ℕ)
  | loseReply (attempt : ℕ) (answer : Answer)
  | deliver (attempt : ℕ) (answer : Answer)
  | master (action : NodeManager.Action)

/-- The slave that a request is from. -/
def requester : NodeManager.Action → Option Text
  | .slaveStartup ip containerId | .slaveConfigured ip containerId _
  | .slaveTerminated ip containerId | .slaveHeartbeat ip containerId =>
    some (getSlaveKey ip containerId)
  | .terminate => none

/-- The name that the manager knows the slave by. -/
def key (s : SlaveStartup) : Text := getSlaveKey s.ipAddress s.containerId

/-- `retry_count++`, and the end of the loop. -/
def retry (retryCount : ℕ) : SlavePoint :=
  if 3 < retryCount + 1 then .failed else .sending (retryCount + 1)

/-- `SendRequest`, up to the `poll`. A socket that fails is replaced. -/
def send (s : SlaveStartup) : Option SlaveStartup :=
  match s.slave with
  | .sending retryCount =>
    match s.socket.send s.attempts with
    | some socket => some { s with
        socket := socket
        attempts := s.attempts + 1
        requests := s.attempts :: s.requests
        slave := .polling retryCount s.attempts }
    | none => some { s with socket := .ready, slave := retry retryCount }
  | _ => none

/-- `poll` returns without a reply: `TimeoutException`. -/
def expire (s : SlaveStartup) : Option SlaveStartup :=
  match s.slave with
  | .polling retryCount _ => some { s with slave := retry retryCount }
  | _ => none

/-- The answer to a request. -/
def answerOf : Except Exception (Option SlaveStartupReply) → Answer
  | .ok (some reply) => .ok reply
  | .ok none => .error none
  | .error ex => .error (some ex)

/-- The master handles a request that arrived. -/
def handle (s : SlaveStartup) (attempt : ℕ) : Option SlaveStartup :=
  if attempt ∈ s.requests then
    let handled := s.master.handleSlaveStartup s.ipAddress s.containerId
    some { s with
      master := ExecutionManager.note handled
      requests := s.requests.erase attempt
      replies := (attempt, answerOf handled.2) :: s.replies
      answers := (attempt, answerOf handled.2) :: s.answers }
  else none

/-- A reply arrives; the slave reads it if it still polls for it. -/
def deliver (s : SlaveStartup) (attempt : ℕ) (answer : Answer) : Option SlaveStartup :=
  if (attempt, answer) ∈ s.replies then
    let arrived := { s with replies := s.replies.erase (attempt, answer) }
    match s.slave with
    | .polling _ polled =>
      if polled = attempt then
        some { arrived with
          socket := .ready
          inTime := (attempt, answer) :: s.inTime
          slave := match answer with
            | .ok reply => .started reply
            | .error ex => .refused ex }
      else some arrived
    | _ => some arrived
  else none

/-- One of these. -/
def step (s : SlaveStartup) : Action → Option SlaveStartup
  | .send => s.send
  | .expire => s.expire
  | .loseRequest attempt =>
    if attempt ∈ s.requests then some { s with requests := s.requests.erase attempt } else none
  | .handle attempt => s.handle attempt
  | .loseReply attempt answer =>
    if (attempt, answer) ∈ s.replies then
      some { s with replies := s.replies.erase (attempt, answer) }
    else none
  | .deliver attempt answer => s.deliver attempt answer
  | .master action =>
    if requester action = some s.key then none
    else (s.master.step action).map fun master => { s with master := master }

/-- The slave before its first attempt, at a master that has just started. -/
def start (ipAddress containerId : Text) (controlMessage : List Node)
    (slaves : Table Text SlaveState) : SlaveStartup where
  ipAddress := ipAddress
  containerId := containerId
  master := ExecutionManager.start controlMessage slaves
  slave := .sending 0
  socket := .ready
  attempts := 0
  requests := []
  replies := []
  answers := []
  inTime := []

/-- The runs of a start-up. -/
def system (ipAddress containerId : Text) (controlMessage : List Node)
    (slaves : Table Text SlaveState) : Lts SlaveStartup Action :=
  Lts.ofFun (start ipAddress containerId controlMessage slaves) step

/-! ## The law of the start-up -/

/-- No request is refused for an earlier one, and a slave that has an answer in time has its own
container, with which it is registered, once. -/
structure Survives (s : SlaveStartup) : Prop where
  accepted : ∀ answer ∈ s.answers, answer.2 ≠ .error (some .incorrectState)
  started : s.inTime ≠ [] → ∃ reply,
    ExecutionManager.containersOf s.master.controlMessage s.ipAddress s.containerId = [reply] ∧
    s.slave = .started reply ∧ s.master.slaveStatus.lookup s.key = some .registered ∧
    (s.answers.filter fun answer => answer.2.isOk).length = 1

/-- The master sees no request of the slave after one that it handled. -/
def Clean (s : SlaveStartup) : Action → Prop
  | .handle _ => s.answers = []
  | _ => True

instance (s : SlaveStartup) : ∀ a, Decidable (s.Clean a)
  | .handle _ => inferInstanceAs (Decidable (_ = _))
  | .send | .expire | .loseRequest _ | .loseReply _ _ | .deliver _ _ | .master _ =>
    inferInstanceAs (Decidable True)

/-! ## The master's side -/

variable {m : ExecutionManager} {s s' : SlaveStartup} {ip containerId : Text}
  {controlMessage : List Node} {slaves : Table Text SlaveState}

/-- The containers of a control message with their nodes. -/
def placements (controlMessage : List Node) : List (Node × Container) :=
  controlMessage.flatMap fun node => node.containers.map fun container => (node, container)

theorem containersOf_eq (controlMessage : List Node) (ip containerId : Text) :
    ExecutionManager.containersOf controlMessage ip containerId =
      ((placements controlMessage).filter fun p =>
        decide (ip = p.1.ipAddress ∧ containerId = p.2.id)).map fun p => ⟨p.1.name, p.2⟩ := by
  induction controlMessage with
  | nil => rfl
  | cons node nodes ih =>
    rw [ExecutionManager.containersOf, placements, List.flatMap_cons, List.flatMap_cons,
      List.filter_append, List.map_append]
    refine congrArg₂ (· ++ ·) ?_ ih
    rw [List.filter_map, List.map_map]
    by_cases hip : ip = node.ipAddress
    · rw [if_pos hip]
      simp [hip, Function.comp_def]
    · rw [if_neg hip]
      simp [hip, Function.comp_def]

/-- A slave of the control message has one container. -/
theorem exists_containersOf
    (h : ExecutionManager.requestDeployment controlMessage = some slaves)
    (hmem : ∃ node ∈ controlMessage, node.ipAddress = ip ∧
      ∃ container ∈ node.containers, container.id = containerId) :
    ∃ reply, ExecutionManager.containersOf controlMessage ip containerId = [reply] ∧
      reply.configuration.id = containerId := by
  obtain ⟨node, hnode, rfl, container, hcontainer, rfl⟩ := hmem
  have hfound : (node, container) ∈ (placements controlMessage).filter fun p =>
      decide (node.ipAddress = p.1.ipAddress ∧ container.id = p.2.id) := by
    refine List.mem_filter.mpr ⟨?_, by simp⟩
    exact List.mem_flatMap.mpr ⟨node, hnode, List.mem_map.mpr ⟨container, hcontainer, rfl⟩⟩
  -- the keys of what is found are all the same, and distinct
  have hlength : ((placements controlMessage).filter fun p =>
      decide (node.ipAddress = p.1.ipAddress ∧ container.id = p.2.id)).length ≤ 1 := by
    have hkeys : ((placements controlMessage).map fun p =>
        getSlaveKey p.1.ipAddress p.2.id).Nodup := by
      simpa [placements, List.map_flatMap, Function.comp_def] using
        (ExecutionManager.requestDeployment_spec h).1
    have hnodup := hkeys.sublist (List.Sublist.map _
      (List.filter_sublist (p := fun p : Node × Container =>
        decide (node.ipAddress = p.1.ipAddress ∧ container.id = p.2.id))))
    rw [List.map_congr_left (g := fun _ => getSlaveKey node.ipAddress container.id), List.map_const',
      List.nodup_replicate] at hnodup
    · exact hnodup
    · intro p hp
      obtain ⟨hip, hid⟩ := of_decide_eq_true (List.mem_filter.mp hp).2
      rw [hip, hid]
  rw [containersOf_eq]
  obtain ⟨p, hp⟩ := List.length_eq_one_iff.mp
    (Nat.le_antisymm hlength (List.length_pos_of_mem hfound))
  rw [hp] at hfound ⊢
  obtain rfl := List.mem_singleton.mp hfound
  exact ⟨_, rfl, rfl⟩

/-- What the other requests do to a slave's own state, and to the control message: nothing. -/
theorem master_frame {master : ExecutionManager} {action : NodeManager.Action} {key : Text}
    (h : m.step action = some master) (hkey : requester action ≠ some key) :
    master.slaveStatus.lookup key = m.slaveStatus.lookup key ∧
      master.controlMessage = m.controlMessage := by
  have hset : ∀ other state, other ≠ key →
      (ExecutionManager.note (m.setSlaveState other state)).slaveStatus.lookup key =
        m.slaveStatus.lookup key ∧
      (ExecutionManager.note (m.setSlaveState other state)).controlMessage = m.controlMessage := by
    intro other state hne
    obtain ⟨hstatus, hmessage⟩ := m.setSlaveState_frame other state
    rw [ExecutionManager.note_slaveStatus, ExecutionManager.note_controlMessage, hstatus,
      Table.lookup_adjust, if_neg (Ne.symm hne)]
    exact ⟨rfl, hmessage⟩
  have hassign : ∀ other, other ≠ key → ∀ (l : List SlaveStartupReply) (m : ExecutionManager)
      (reply : Option SlaveStartupReply),
      (ExecutionManager.assign other m l reply).1.slaveStatus.lookup key =
        m.slaveStatus.lookup key ∧
      (ExecutionManager.assign other m l reply).1.controlMessage = m.controlMessage := by
    intro other hne l
    induction l with
    | nil => exact fun _ _ => ⟨rfl, rfl⟩
    | cons found l ih =>
      intro m reply
      obtain ⟨hstatus, hmessage⟩ := m.setSlaveState_frame other .registered
      rw [ExecutionManager.assign]
      split
      · next m₁ _ heq =>
        rw [heq] at hstatus hmessage
        rw [(ih m₁ _).1, (ih m₁ _).2, hstatus, hmessage, Table.lookup_adjust,
          if_neg (Ne.symm hne)]
        exact ⟨rfl, rfl⟩
      · next m₁ _ heq =>
        rw [heq] at hstatus hmessage
        rw [hstatus, hmessage, Table.lookup_adjust, if_neg (Ne.symm hne)]
        exact ⟨rfl, rfl⟩
  cases action with
  | slaveStartup ip containerId =>
    obtain rfl := Option.some.inj h
    have hne : getSlaveKey ip containerId ≠ key := fun heq => hkey (congrArg some heq)
    rw [ExecutionManager.note_slaveStatus, ExecutionManager.note_controlMessage]
    unfold ExecutionManager.handleSlaveStartup
    split
    · exact ⟨rfl, rfl⟩
    · exact hassign _ hne _ _ _
    · exact ⟨rfl, rfl⟩
  | slaveConfigured ip containerId success =>
    obtain rfl := Option.some.inj h
    unfold ExecutionManager.handleSlaveConfigured
    split
    · exact ⟨rfl, rfl⟩
    · exact hset _ _ fun heq => hkey (congrArg some heq)
    · exact ⟨rfl, rfl⟩
  | slaveTerminated ip containerId =>
    obtain rfl := Option.some.inj h
    unfold ExecutionManager.handleSlaveTerminated
    split
    · exact ⟨rfl, rfl⟩
    · exact hset _ _ fun heq => hkey (congrArg some heq)
  | slaveHeartbeat ip containerId =>
    obtain rfl := Option.some.inj h
    unfold ExecutionManager.handleSlaveHeartbeat
    split <;> exact ⟨rfl, rfl⟩
  | terminate =>
    obtain rfl := Option.some.inj h
    unfold ExecutionManager.terminate ExecutionManager.settle
    cases m.executePromise <;> exact ⟨rfl, rfl⟩

/-- The first request of a slave that has one container. -/
theorem handleSlaveStartup_offline {reply : SlaveStartupReply}
    (hoffline : m.slaveStatus.lookup (getSlaveKey ip containerId) = some .offline)
    (hreply : ExecutionManager.containersOf m.controlMessage ip containerId = [reply]) :
    m.handleSlaveStartup ip containerId =
      ({ m with slaveStatus :=
          m.slaveStatus.adjust (getSlaveKey ip containerId) fun _ => .registered },
        .ok (some reply)) := by
  unfold ExecutionManager.handleSlaveStartup
  simp only [hoffline]
  rw [hreply, ExecutionManager.assign,
    ExecutionManager.setSlaveState_registered (Table.mem_of_lookup hoffline)]
  rfl

/-- A later one. -/
theorem handleSlaveStartup_registered
    (hregistered : m.slaveStatus.lookup (getSlaveKey ip containerId) = some .registered) :
    m.handleSlaveStartup ip containerId = (m, .error .incorrectState) := by
  unfold ExecutionManager.handleSlaveStartup
  simp only [hregistered]

/-! ## The invariant -/

/-- Before and after the one request that the master handles. -/
structure Inv (reply : SlaveStartupReply) (s : SlaveStartup) : Prop where
  container :
    ExecutionManager.containersOf s.master.controlMessage s.ipAddress s.containerId = [reply]
  phase :
    (s.answers = [] ∧ s.replies = [] ∧ s.inTime = [] ∧
      s.master.slaveStatus.lookup s.key = some .offline) ∨
    (s.master.slaveStatus.lookup s.key = some .registered ∧
      (∃ attempt, s.answers = [(attempt, .ok reply)]) ∧ (∀ x ∈ s.replies, x.2 = .ok reply) ∧
      (s.inTime ≠ [] → s.slave = .started reply))

variable {reply : SlaveStartupReply}

/-- The slave does something while it waits for its reply. -/
theorem Inv.withSlave (hi : s.Inv reply) (hwaiting : ∀ r, s.slave ≠ .started r)
    (socket : Zmq.ReqSocket) (attempts : ℕ) (requests : List ℕ) (slave : SlavePoint) :
    Inv reply { s with
      socket := socket
      attempts := attempts
      requests := requests
      slave := slave } := by
  refine ⟨hi.container, ?_⟩
  obtain h | ⟨hregistered, hanswers, hreplies, hinTime⟩ := hi.phase
  · exact .inl h
  · exact .inr ⟨hregistered, hanswers, hreplies, fun hne => absurd (hinTime hne) (hwaiting _)⟩

/-- A reply is gone. -/
theorem Inv.erase (hi : s.Inv reply) (x : ℕ × Answer) :
    Inv reply { s with replies := s.replies.erase x } := by
  refine ⟨hi.container, ?_⟩
  obtain ⟨hanswers, hreplies, hinTime, hoffline⟩ | ⟨hregistered, hanswers, hreplies, hinTime⟩ :=
    hi.phase
  · exact .inl ⟨hanswers, by simp [hreplies], hinTime, hoffline⟩
  · exact .inr ⟨hregistered, hanswers, fun y hy => hreplies y (List.mem_of_mem_erase hy), hinTime⟩

theorem Inv.send (hi : s.Inv reply) (h : s.send = some s') : s'.Inv reply := by
  unfold SlaveStartup.send at h
  split at h
  · next retryCount hslave =>
    have hwaiting : ∀ r, s.slave ≠ .started r := by simp [hslave]
    split at h <;> obtain rfl := Option.some.inj h
    · exact hi.withSlave hwaiting _ _ _ _
    · exact hi.withSlave hwaiting _ _ _ _
  · cases h

theorem Inv.expire (hi : s.Inv reply) (h : s.expire = some s') : s'.Inv reply := by
  unfold SlaveStartup.expire at h
  split at h
  · next retryCount attempt hslave =>
    obtain rfl := Option.some.inj h
    exact hi.withSlave (by simp [hslave]) _ _ _ _
  · cases h

theorem Inv.handle (hi : s.Inv reply) {attempt : ℕ} (hfirst : s.answers = [])
    (h : s.handle attempt = some s') : s'.Inv reply := by
  unfold SlaveStartup.handle at h
  split at h
  · obtain rfl := Option.some.inj h
    obtain ⟨-, hreplies, hinTime, hoffline⟩ | ⟨-, ⟨_, hanswers⟩, -⟩ := hi.phase
    · rw [handleSlaveStartup_offline hoffline hi.container]
      refine ⟨hi.container, .inr ⟨?_, ⟨attempt, ?_⟩, ?_, fun hne => absurd hinTime hne⟩⟩
      · show (AList.lookup s.key (s.master.slaveStatus.adjust s.key _)) = _
        rw [Table.lookup_adjust, if_pos rfl, show s.master.slaveStatus.lookup s.key = _ from hoffline]
        rfl
      · show (attempt, answerOf _) :: s.answers = _
        rw [hfirst]
        rfl
      · intro x hx
        rw [hreplies] at hx
        obtain rfl := List.mem_singleton.mp hx
        rfl
    · rw [hfirst] at hanswers
      cases hanswers
  · cases h

theorem Inv.deliver (hi : s.Inv reply) {attempt : ℕ} {answer : Answer}
    (h : s.deliver attempt answer = some s') : s'.Inv reply := by
  unfold SlaveStartup.deliver at h
  split at h
  · next hmem =>
    have hgone := hi.erase (attempt, answer)
    split at h
    · split at h
      · obtain rfl := Option.some.inj h
        refine ⟨hi.container, ?_⟩
        obtain ⟨-, hreplies, -⟩ | ⟨hregistered, hanswers, hreplies, -⟩ := hi.phase
        · rw [hreplies] at hmem
          cases hmem
        · obtain rfl : answer = .ok reply := hreplies _ hmem
          exact .inr ⟨hregistered, hanswers, fun y hy => hreplies y (List.mem_of_mem_erase hy),
            fun _ => rfl⟩
      · obtain rfl := Option.some.inj h
        exact hgone
    · obtain rfl := Option.some.inj h
      exact hgone
  · cases h

theorem Inv.master (hi : s.Inv reply) {action : NodeManager.Action} {master : ExecutionManager}
    (hother : requester action ≠ some s.key) (h : s.master.step action = some master) :
    Inv reply { s with master := master } := by
  obtain ⟨hlookup, hmessage⟩ := master_frame h hother
  refine ⟨by rw [← hi.container]; exact congrArg (ExecutionManager.containersOf · _ _) hmessage, ?_⟩
  obtain ⟨hanswers, hreplies, hinTime, hoffline⟩ | ⟨hregistered, hrest⟩ := hi.phase
  · exact .inl ⟨hanswers, hreplies, hinTime, hlookup.trans hoffline⟩
  · exact .inr ⟨hlookup.trans hregistered, hrest⟩

theorem Inv.step (hi : s.Inv reply) {a : Action} (ha : s.Clean a) (h : s.step a = some s') :
    s'.Inv reply := by
  cases a with
  | send => exact hi.send h
  | expire => exact hi.expire h
  | loseRequest attempt =>
    simp only [SlaveStartup.step] at h
    split at h
    · obtain rfl := Option.some.inj h
      exact ⟨hi.container, hi.phase⟩
    · cases h
  | handle attempt => exact hi.handle ha h
  | loseReply attempt answer =>
    simp only [SlaveStartup.step] at h
    split at h
    · obtain rfl := Option.some.inj h
      exact hi.erase _
    · cases h
  | deliver attempt answer => exact hi.deliver h
  | master action =>
    simp only [SlaveStartup.step] at h
    split at h
    · cases h
    · next hother =>
      obtain ⟨master, hmaster, rfl⟩ := Option.map_eq_some_iff.mp h
      exact hi.master hother hmaster

theorem Inv.survives (hi : s.Inv reply) : s.Survives := by
  obtain ⟨hanswers, -, hinTime, -⟩ | ⟨hregistered, ⟨attempt, hanswers⟩, -, hstarted⟩ := hi.phase
  · exact ⟨by simp [hanswers], fun hne => absurd hinTime hne⟩
  · refine ⟨by simp [hanswers], fun hne => ⟨reply, hi.container, hstarted hne, hregistered, ?_⟩⟩
    rw [hanswers]
    rfl

/-- A second request that reaches the master is refused. -/
theorem Inv.clean (hi : s.Inv reply) {a : Action} (h : s.step a = some s') (hs : s'.Survives) :
    s.Clean a := by
  cases a with
  | handle attempt =>
    obtain ⟨hanswers, -⟩ | ⟨hregistered, -⟩ := hi.phase
    · exact hanswers
    · simp only [SlaveStartup.step, SlaveStartup.handle] at h
      split at h
      · obtain rfl := Option.some.inj h
        rw [handleSlaveStartup_registered hregistered] at hs
        exact absurd rfl (hs.accepted (attempt, _) List.mem_cons_self)
      · cases h
  | send | expire | loseRequest | loseReply | deliver | master => trivial

/-! ## Runs -/

/-- The first reply is late and the slave asks again, on a new socket after its retry on the old one
failed: it is refused. -/
theorem not_forall_survives : ¬∀ ip containerId controlMessage slaves s,
    ExecutionManager.requestDeployment controlMessage = some slaves →
    (∃ node ∈ controlMessage, node.ipAddress = ip ∧
      ∃ container ∈ node.containers, container.id = containerId) →
    (system ip containerId controlMessage slaves).Reach s → s.Survives := by
  intro h
  have hrun : (Lts.run step
      (start ['n'] ['1'] ExecutionManager.twoSlaves ExecutionManager.twoSlavesStatus)
      [.send, .handle 0, .expire, .send, .send, .handle 1]).any (fun s =>
        decide (∃ answer ∈ s.answers, answer.2 = .error (some .incorrectState))) = true := by
    decide +kernel
  obtain ⟨s, hs, hrefused⟩ := Option.any_eq_true _ _ |>.mp hrun
  obtain ⟨answer, hmem, hanswer⟩ := of_decide_eq_true hrefused
  have hsurvives := h ['n'] ['1'] ExecutionManager.twoSlaves ExecutionManager.twoSlavesStatus s rfl
    ⟨_, List.mem_singleton_self _, rfl, _, List.mem_cons_self, rfl⟩ (Lts.reach_of_run hs)
  exact hsurvives.accepted answer hmem hanswer

/-- In every run in which one request of the slave reaches the master, the start-up survives. -/
theorem survives_of_reachBy
    (hslaves : ExecutionManager.requestDeployment controlMessage = some slaves)
    (hslave : ∃ node ∈ controlMessage, node.ipAddress = ip ∧
      ∃ container ∈ node.containers, container.id = containerId)
    (h : (system ip containerId controlMessage slaves).ReachBy Clean s) : s.Survives := by
  obtain ⟨reply, hreply, -⟩ := exists_containersOf hslaves hslave
  have hinv : (system ip containerId controlMessage slaves).InductiveBy Clean (Inv reply) := by
    refine ⟨fun hinit => ?_, fun hi ha hstep => hi.step ha hstep⟩
    obtain rfl := hinit
    obtain ⟨node, hnode, rfl, container, hcontainer, rfl⟩ := hslave
    exact ⟨hreply, .inl ⟨rfl, rfl, rfl,
      (ExecutionManager.requestDeployment_spec hslaves).2.2 node hnode container hcontainer⟩⟩
  exact (hinv.reach h).survives

/-- The first request is lost and the reply to the second comes in time. -/
theorem survives_of_reachBy_lostRequest : ∃ s : SlaveStartup, s.inTime ≠ [] ∧ s.attempts = 2 ∧
    s.Survives := by
  have hrun : (Lts.runBy step Clean
      (start ['n'] ['1'] ExecutionManager.twoSlaves ExecutionManager.twoSlavesStatus)
      [.send, .expire, .send, .send, .master (.slaveStartup ['n'] ['2']), .loseRequest 0,
        .handle 1, .deliver 1 (.ok ⟨[], ['1'], []⟩)]).any (fun s =>
        decide (s.inTime ≠ [] ∧ s.attempts = 2)) = true := by
    decide +kernel
  obtain ⟨s, hs, hend⟩ := Option.any_eq_true _ _ |>.mp hrun
  obtain ⟨hinTime, hattempts⟩ := of_decide_eq_true hend
  exact ⟨s, hinTime, hattempts, @survives_of_reachBy s ['n'] ['1'] ExecutionManager.twoSlaves
    ExecutionManager.twoSlavesStatus rfl
    ⟨_, List.mem_singleton_self _, rfl, _, List.mem_cons_self, rfl⟩ (Lts.reachBy_of_runBy hs)⟩

end SlaveStartup

end Sem.NodeManager
