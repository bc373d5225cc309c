import Sem.Lib.FirstByKey
import Sem.Lib.Table
import Sem.Lib.Xml

/-!
# The data of an experiment run

`ExperimentRunData` is brought up to date with the replies that tell the state of the run. A reply
is looked at only if it was updated later than the run.

* `foldl_updateData`: of the replies, those with news count.
* `runData_iff`: when the port connections and the end of the run are those of all replies.
-/

namespace Sem.Medea

open Xml (Text)

namespace RunData

/-! ## Replies -/

/-- `AggServerResponse::PortConnection::ConnectionType`. -/
inductive ConnectionType
  | pubsub | reqrep
  deriving DecidableEq, Repr

/-- `AggServerResponse::PortConnection` -/
structure PortConnection where
  type : ConnectionType
  fromPortGraphml : Text
  toPortGraphml : Text
  deriving DecidableEq, Repr

/-- `AggServerResponse::Node` -/
structure Node where
  hostname : Text
  ip : Text

/-- `AggServerResponse::ExperimentState`; an end time of 0 is that of a live run. -/
structure ExperimentState where
  nodes : List Node
  portConnections : List PortConnection
  endTime : ℤ
  lastUpdatedTime : ℤ

/-! ## The data of a run -/

/-- `NodeData`, with the time of the update it has last been in. -/
structure NodeData where
  hostname : Text
  ip : Text
  lastUpdatedTime : ℤ

/-- The signals that a run emits. -/
inductive Signal
  | dataUpdated (lastUpdatedTime : ℤ)
  | experimentRunFinished (experimentRunId : ℕ)
  deriving DecidableEq, Repr

/-- `ExperimentRunData`, with the signals that it has emitted. -/
structure ExperimentRunData where
  experimentRunId : ℕ
  endTime : ℤ
  lastUpdatedTime : ℤ
  nodeDataHash : Table Text NodeData
  portConnectionHash : Table Text PortConnection
  emitted : List Signal

namespace ExperimentRunData

/-- The run when it is constructed. -/
def construct (experimentRunId : ℕ) (endTime lastUpdatedTime : ℤ) : ExperimentRunData :=
  ⟨experimentRunId, endTime, lastUpdatedTime, ∅, ∅, []⟩

/-- `addNodeData`: a node that is there gets the time of the update only. -/
def addNodeData (s : ExperimentRunData) (node : Node) : ExperimentRunData :=
  let nodeData := match s.nodeDataHash.lookup node.hostname with
    | none => ⟨node.hostname, node.ip, 0⟩
    | some nodeData => { nodeData with lastUpdatedTime := s.lastUpdatedTime }
  { s with nodeDataHash := s.nodeDataHash.insert node.hostname nodeData }

/-- `connection_id` -/
def connectionId (ports : Text × Text) : Text := ports.1 ++ ports.2

/-- `addPortConnectionData`: a connection that is there stays. -/
def addPortConnectionData (s : ExperimentRunData) (portConnection : PortConnection) :
    ExperimentRunData :=
  let id := connectionId (portConnection.fromPortGraphml, portConnection.toPortGraphml)
  if id ∈ s.portConnectionHash then s
  else { s with portConnectionHash := s.portConnectionHash.insert id portConnection }

/-- A signal goes out. -/
def emit (s : ExperimentRunData) (signal : Signal) : ExperimentRunData :=
  { s with emitted := s.emitted ++ [signal] }

/-- The end of `updateData`. -/
def updateEndTime (s : ExperimentRunData) (endTime : ℤ) : ExperimentRunData :=
  if endTime ≠ s.endTime then
    { s with endTime := endTime }.emit (.experimentRunFinished s.experimentRunId)
  else s

/-- What `updateData` does with a reply that was updated later than the run. -/
def applyState (s : ExperimentRunData) (state : ExperimentState) : ExperimentRunData :=
  let s := { s with lastUpdatedTime := state.lastUpdatedTime }
  let s := state.nodes.foldl addNodeData s
  let s := state.portConnections.foldl addPortConnectionData s
  (s.emit (.dataUpdated s.lastUpdatedTime)).updateEndTime state.endTime

/-- `updateData`: only a state that is newer than the last one is used. -/
def updateData (s : ExperimentRunData) (state : ExperimentState) : ExperimentRunData :=
  if state.lastUpdatedTime > s.lastUpdatedTime then s.applyState state else s

end ExperimentRunData

/-! ## What the data is for -/

/-- The two ends of a connection. -/
def PortConnection.ports (portConnection : PortConnection) : Text × Text :=
  (portConnection.fromPortGraphml, portConnection.toPortGraphml)

/-- The connected ports in these replies. -/
def portsOf (replies : List ExperimentState) : List (Text × Text) :=
  replies.flatMap fun reply => reply.portConnections.map PortConnection.ports

/-- The connected ports that the run holds. -/
def ExperimentRunData.ports (s : ExperimentRunData) : List (Text × Text) :=
  s.portConnectionHash.values.map PortConnection.ports

/-- The signal that the run has ended. -/
def Signal.isFinished : Signal → Bool
  | .dataUpdated _ => false
  | .experimentRunFinished _ => true

/-- The run knows what the replies have told, and has told its end once. -/
structure Current (endTime : ℤ) (replies : List ExperimentState) (s : ExperimentRunData) :
    Prop where
  nodup : s.ports.Nodup
  held : ∀ p, p ∈ s.ports ↔ p ∈ portsOf replies
  ended : ∀ newest, replies.getLast? = some newest → s.endTime = newest.endTime
  finished : ∀ newest, replies.getLast? = some newest → s.emitted.filter Signal.isFinished =
    if endTime = 0 ∧ newest.endTime ≠ 0 then [.experimentRunFinished s.experimentRunId] else []

/-- The replies that were updated later than the run and all replies before them. -/
def news (lastUpdatedTime : ℤ) : List ExperimentState → List ExperimentState
  | [] => []
  | reply :: replies =>
    if lastUpdatedTime < reply.lastUpdatedTime then reply :: news reply.lastUpdatedTime replies
    else news lastUpdatedTime replies

/-- The end time is 0 until the run ends, and is constant from then on. -/
def EndsOnce (endTime : ℤ) (replies : List ExperimentState) : Prop :=
  (endTime :: replies.map ExperimentState.endTime).Pairwise fun a b => a = 0 ∨ b = a

instance (endTime : ℤ) (replies : List ExperimentState) : Decidable (EndsOnce endTime replies) :=
  inferInstanceAs (Decidable (List.Pairwise _ _))

/-- The ids of two ports tell which ports they are, and the connections and the end of the run are
in a reply that was updated later than those before it. -/
structure Told (endTime lastUpdatedTime : ℤ) (replies : List ExperimentState) : Prop where
  ids : ∀ p ∈ portsOf replies, ∀ q ∈ portsOf replies, p.1 ++ p.2 = q.1 ++ q.2 → p = q
  told : ∀ p ∈ portsOf replies, p ∈ portsOf (news lastUpdatedTime replies)
  ended : ∀ newest, replies.getLast? = some newest →
    newest.endTime = 0 ∨ endTime ≠ 0 ∨
      ∃ reply ∈ news lastUpdatedTime replies, reply.endTime ≠ 0

/-! ## One reply -/

namespace ExperimentRunData

variable {s : ExperimentRunData} {replies : List ExperimentState}

/-- Nodes change nothing but the data of nodes. -/
theorem exists_foldl_addNodeData (s : ExperimentRunData) (nodes : List Node) :
    ∃ hash, nodes.foldl addNodeData s = { s with nodeDataHash := hash } := by
  induction nodes generalizing s with
  | nil => exact ⟨_, rfl⟩
  | cons node nodes ih =>
    obtain ⟨hash, hhash⟩ := ih (s.addNodeData node)
    exact ⟨hash, by rw [List.foldl_cons, hhash]; rfl⟩

/-- What a connection does to the connections of a run. -/
def addConnection (hash : Table Text PortConnection) (portConnection : PortConnection) :
    Table Text PortConnection :=
  if connectionId portConnection.ports ∈ hash then hash
  else hash.insert (connectionId portConnection.ports) portConnection

theorem foldl_addPortConnectionData (s : ExperimentRunData)
    (portConnections : List PortConnection) :
    portConnections.foldl addPortConnectionData s =
      { s with
        portConnectionHash := portConnections.foldl addConnection s.portConnectionHash } := by
  induction portConnections generalizing s with
  | nil => rfl
  | cons portConnection portConnections ih =>
    have hstep : s.addPortConnectionData portConnection =
        { s with portConnectionHash := addConnection s.portConnectionHash portConnection } := by
      unfold addPortConnectionData addConnection
      split <;> simp_all [PortConnection.ports]
    rw [List.foldl_cons, ih, hstep]
    rfl

/-- A reply with news. -/
theorem applyState_fields (s : ExperimentRunData) (state : ExperimentState) :
    (s.applyState state).experimentRunId = s.experimentRunId ∧
      (s.applyState state).lastUpdatedTime = state.lastUpdatedTime ∧
      (s.applyState state).endTime = state.endTime ∧
      (s.applyState state).portConnectionHash =
        state.portConnections.foldl addConnection s.portConnectionHash ∧
      (s.applyState state).emitted.filter Signal.isFinished =
        s.emitted.filter Signal.isFinished ++
          if state.endTime ≠ s.endTime then [.experimentRunFinished s.experimentRunId] else [] := by
  obtain ⟨hash, hhash⟩ :=
    exists_foldl_addNodeData { s with lastUpdatedTime := state.lastUpdatedTime } state.nodes
  simp only [applyState, hhash, foldl_addPortConnectionData, updateEndTime, emit]
  by_cases hend : state.endTime = s.endTime
  · simp [hend, List.filter_append, Signal.isFinished]
  · simp [hend, List.filter_append, Signal.isFinished]

/-! ## The run -/

/-- The replies without news change nothing. -/
theorem foldl_updateData (s : ExperimentRunData) (replies : List ExperimentState) :
    replies.foldl updateData s = (news s.lastUpdatedTime replies).foldl applyState s := by
  induction replies generalizing s with
  | nil => rfl
  | cons reply replies ih =>
    rw [List.foldl_cons, ih, updateData, news]
    by_cases hnews : s.lastUpdatedTime < reply.lastUpdatedTime
    · rw [if_pos hnews, if_pos hnews, List.foldl_cons, (applyState_fields s reply).2.1]
    · rw [if_neg hnews, if_neg hnews]

/-- The end time and the signals after replies with news. -/
theorem foldl_applyState_end (s : ExperimentRunData) (replies : List ExperimentState)
    (hends : EndsOnce s.endTime replies) :
    (replies.foldl applyState s).experimentRunId = s.experimentRunId ∧
      (replies.foldl applyState s).endTime =
        ((replies.map ExperimentState.endTime).getLast?).getD s.endTime ∧
      (replies.foldl applyState s).emitted.filter Signal.isFinished =
        s.emitted.filter Signal.isFinished ++
          if s.endTime = 0 ∧ ∃ reply ∈ replies, reply.endTime ≠ 0 then
            [.experimentRunFinished s.experimentRunId] else [] := by
  induction replies generalizing s with
  | nil => simp
  | cons reply replies ih =>
    obtain ⟨hid, -, hend, -, hemitted⟩ := applyState_fields s reply
    obtain ⟨hfirst, hrest⟩ := List.pairwise_cons.mp hends
    have hreply := hfirst reply.endTime List.mem_cons_self
    rw [List.foldl_cons]
    obtain ⟨hid', hend', hemitted'⟩ := ih (s.applyState reply) (by rwa [hend])
    refine ⟨hid'.trans hid, ?_, ?_⟩
    · rw [hend', hend, List.map_cons, List.getLast?_cons]
      rfl
    · rw [hemitted', hemitted, hid, hend, List.append_assoc]
      congr 1
      by_cases hzero : s.endTime = 0
      · by_cases hnow : reply.endTime = 0
        · simp [hzero, hnow]
        · simp [hzero, hnow]
      · have hsame : reply.endTime = s.endTime := hreply.resolve_left hzero
        simp [hzero, hsame]

/-! ## The connections -/

/-- The keys are the ids of the connections. -/
def Keyed (hash : Table Text PortConnection) : Prop :=
  hash.keys = hash.values.map fun c => connectionId c.ports

/-- The connected ports, in the order in which they have been added. -/
def portsIn (hash : Table Text PortConnection) : List (Text × Text) :=
  (hash.values.map PortConnection.ports).reverse

theorem Keyed.mem_iff {hash : Table Text PortConnection} (h : Keyed hash) (id : Text) :
    id ∈ hash ↔ id ∈ (portsIn hash).map connectionId := by
  rw [portsIn, List.map_reverse, List.mem_reverse, List.map_map, AList.mem_keys, h]
  rfl

/-- A connection is added unless there is one with its id. -/
theorem Keyed.addConnection {hash : Table Text PortConnection} (h : Keyed hash)
    (c : PortConnection) : Keyed (addConnection hash c) ∧
      portsIn (addConnection hash c) = addNew connectionId (portsIn hash) c.ports := by
  unfold ExperimentRunData.addConnection addNew
  by_cases hmem : connectionId c.ports ∈ hash
  · rw [if_pos hmem, if_pos ((h.mem_iff _).mp hmem)]
    exact ⟨h, rfl⟩
  · rw [if_neg hmem, if_neg fun hin => hmem ((h.mem_iff _).mpr hin)]
    refine ⟨?_, ?_⟩
    · rw [Keyed, Table.keys_insert_of_notMem hmem, Table.values_insert hmem, List.map_cons, h]
    · rw [portsIn, Table.values_insert hmem, List.map_cons, List.reverse_cons, portsIn]

theorem Keyed.foldl {hash : Table Text PortConnection} (h : Keyed hash)
    (connections : List PortConnection) :
    portsIn (connections.foldl ExperimentRunData.addConnection hash) =
      addAll connectionId (portsIn hash) (connections.map PortConnection.ports) := by
  induction connections generalizing hash with
  | nil => rfl
  | cons c connections ih =>
    obtain ⟨hkeyed, hports⟩ := h.addConnection c
    rw [List.foldl_cons, ih hkeyed, hports]
    rfl

theorem foldl_applyState_hash (s : ExperimentRunData) (replies : List ExperimentState) :
    (replies.foldl applyState s).portConnectionHash =
      (replies.flatMap ExperimentState.portConnections).foldl addConnection
        s.portConnectionHash := by
  induction replies generalizing s with
  | nil => rfl
  | cons reply replies ih =>
    rw [List.foldl_cons, ih, (applyState_fields s reply).2.2.2.1, List.flatMap_cons,
      List.foldl_append]

/-- The run holds the first connection of each id. -/
theorem ports_foldl_applyState (experimentRunId : ℕ) (endTime lastUpdatedTime : ℤ)
    (replies : List ExperimentState) :
    (replies.foldl applyState (construct experimentRunId endTime lastUpdatedTime)).ports.reverse =
      addAll connectionId [] (portsOf replies) := by
  have hkeyed : Keyed (∅ : Table Text PortConnection) := rfl
  have hfold := hkeyed.foldl (replies.flatMap ExperimentState.portConnections)
  rw [List.map_flatMap] at hfold
  rw [ExperimentRunData.ports, foldl_applyState_hash]
  exact hfold

end ExperimentRunData

/-! ## What the replies have told -/

section Told

variable {endTime lastUpdatedTime : ℤ} {replies : List ExperimentState} {p : Text × Text}

theorem news_sublist (lastUpdatedTime : ℤ) (replies : List ExperimentState) :
    (news lastUpdatedTime replies).Sublist replies := by
  induction replies generalizing lastUpdatedTime with
  | nil => exact List.Sublist.slnil
  | cons reply replies ih =>
    rw [news]
    split
    · exact (ih reply.lastUpdatedTime).cons_cons reply
    · exact (ih lastUpdatedTime).cons reply

theorem portsOf_mono {replies' : List ExperimentState} (h : replies.Sublist replies')
    (hp : p ∈ portsOf replies) : p ∈ portsOf replies' := by
  obtain ⟨reply, hreply, hmem⟩ := List.mem_flatMap.mp hp
  exact List.mem_flatMap.mpr ⟨reply, h.subset hreply, hmem⟩

/-- All connections are held exactly if the ids tell them apart and all of them are in news. -/
theorem mem_addAll_news_iff (lastUpdatedTime : ℤ) (replies : List ExperimentState) :
    (∀ p, p ∈ addAll ExperimentRunData.connectionId [] (portsOf (news lastUpdatedTime replies)) ↔
        p ∈ portsOf replies) ↔
      (∀ p ∈ portsOf replies, ∀ q ∈ portsOf replies, p.1 ++ p.2 = q.1 ++ q.2 → p = q) ∧
        ∀ p ∈ portsOf replies, p ∈ portsOf (news lastUpdatedTime replies) := by
  have hsub : ∀ p ∈ portsOf (news lastUpdatedTime replies), p ∈ portsOf replies := fun p hp =>
    portsOf_mono (news_sublist _ _) hp
  constructor
  · intro h
    refine ⟨fun p hp q hq hid => ?_, fun p hp => ?_⟩
    · exact List.inj_on_of_nodup_map (nodup_keys _ _) ((h p).mpr hp) ((h q).mpr hq) hid
    · exact (mem_of_mem_addAll ((h p).mpr hp)).resolve_left List.not_mem_nil
  · rintro ⟨hids, htold⟩ p
    have hnews : ∀ p, p ∈ addAll ExperimentRunData.connectionId []
        (portsOf (news lastUpdatedTime replies)) ↔ p ∈ portsOf (news lastUpdatedTime replies) :=
      mem_addAll_iff.mpr fun a ha b hb hid => hids a (hsub a ha) b (hsub b hb) hid
    rw [hnews p]
    exact ⟨hsub p, htold p⟩

/-- The end time of the newest reply is that of every other one that is not 0. -/
theorem EndsOnce.newest (h : EndsOnce endTime replies) {newest : ExperimentState}
    (hnewest : replies.getLast? = some newest) {a : ℤ}
    (ha : a ∈ endTime :: replies.map ExperimentState.endTime) : a = 0 ∨ newest.endTime = a := by
  obtain ⟨before, rfl⟩ := List.getLast?_eq_some_iff.mp hnewest
  unfold EndsOnce at h
  rw [List.map_append, ← List.cons_append] at h ha
  rcases List.mem_append.mp ha with ha | ha
  · exact (List.pairwise_append.mp h).2.2 a ha newest.endTime (by simp)
  · rw [List.mem_singleton.mp ha]
    exact .inr rfl

theorem EndsOnce.news (h : EndsOnce endTime replies) :
    EndsOnce endTime (news lastUpdatedTime replies) :=
  List.Pairwise.sublist (((news_sublist lastUpdatedTime replies).map _).cons_cons _) h

/-- The end time is that of the newest reply exactly if the end is in news. -/
theorem EndsOnce.getLast?_news_iff (h : EndsOnce endTime replies) (lastUpdatedTime : ℤ)
    {newest : ExperimentState} (hnewest : replies.getLast? = some newest) :
    (((RunData.news lastUpdatedTime replies).map ExperimentState.endTime).getLast?).getD endTime =
        newest.endTime ↔
      newest.endTime = 0 ∨ endTime ≠ 0 ∨
        ∃ reply ∈ RunData.news lastUpdatedTime replies, reply.endTime ≠ 0 := by
  have hfirst := h.newest hnewest List.mem_cons_self
  rw [List.getLast?_map]
  cases hlast : (RunData.news lastUpdatedTime replies).getLast? with
  | none =>
    rw [List.getLast?_eq_none_iff.mp hlast]
    simp only [Option.map_none, Option.getD_none, List.not_mem_nil, false_and, exists_false,
      or_false]
    omega
  | some last =>
    simp only [Option.map_some, Option.getD_some]
    have hmem : last ∈ RunData.news lastUpdatedTime replies := List.mem_of_getLast? hlast
    have hin : ∀ reply ∈ RunData.news lastUpdatedTime replies,
        reply.endTime ∈ endTime :: replies.map ExperimentState.endTime := fun reply hreply =>
      List.mem_cons_of_mem _ (List.mem_map_of_mem ((news_sublist _ _).subset hreply))
    have hnews : EndsOnce endTime (RunData.news lastUpdatedTime replies) := h.news
    have hlast' := h.newest hnewest (hin last hmem)
    constructor
    · intro heq
      by_cases hzero : newest.endTime = 0
      · exact .inl hzero
      · exact .inr (.inr ⟨last, hmem, heq ▸ hzero⟩)
    · rintro (hzero | hnonzero | ⟨reply, hreply, hnonzero⟩)
      · omega
      · have := hnews.newest hlast List.mem_cons_self
        omega
      · have hreply' := h.newest hnewest (hin reply hreply)
        have := hnews.newest hlast
          (List.mem_cons_of_mem _ (List.mem_map_of_mem hreply))
        omega

end Told

/-- **A run is up to date with its replies exactly if** the ids of two ports tell which ports they
are, and what the replies tell is in one that was updated later than the run and those before it. -/
theorem runData_iff (experimentRunId : ℕ) {endTime : ℤ} (lastUpdatedTime : ℤ)
    {replies : List ExperimentState} (hne : replies ≠ []) (hends : EndsOnce endTime replies) :
    Current endTime replies (replies.foldl ExperimentRunData.updateData
        (.construct experimentRunId endTime lastUpdatedTime)) ↔
      Told endTime lastUpdatedTime replies := by
  obtain ⟨newest, hnewest⟩ : ∃ newest, replies.getLast? = some newest :=
    ⟨_, List.getLast?_eq_some_getLast hne⟩
  rw [ExperimentRunData.foldl_updateData]
  show Current endTime replies ((news lastUpdatedTime replies).foldl _ _) ↔ _
  have hports := ExperimentRunData.ports_foldl_applyState experimentRunId endTime lastUpdatedTime
    (news lastUpdatedTime replies)
  obtain ⟨hid, hend, hemitted⟩ := ExperimentRunData.foldl_applyState_end
    (.construct experimentRunId endTime lastUpdatedTime) (news lastUpdatedTime replies) hends.news
  generalize (news lastUpdatedTime replies).foldl ExperimentRunData.applyState _ = s at *
  have hheld := mem_addAll_news_iff lastUpdatedTime replies
  rw [← hports] at hheld
  simp only [List.mem_reverse] at hheld
  have hended := hends.getLast?_news_iff lastUpdatedTime hnewest
  constructor
  · intro hcurrent
    obtain ⟨hids, htold⟩ := hheld.mp hcurrent.held
    refine ⟨hids, htold, fun newest' hnewest' => ?_⟩
    obtain rfl := Option.some.inj (hnewest.symm.trans hnewest')
    exact hended.mp (hend.symm.trans (hcurrent.ended newest hnewest))
  · rintro ⟨hids, htold, hseen⟩
    have hfinished : (endTime = 0 ∧ ∃ reply ∈ news lastUpdatedTime replies, reply.endTime ≠ 0) ↔
        endTime = 0 ∧ newest.endTime ≠ 0 := by
      refine and_congr_right fun hlive => ⟨?_, fun hnonzero => ?_⟩
      · rintro ⟨reply, hreply, hnonzero⟩
        have := hends.newest hnewest (List.mem_cons_of_mem _
          (List.mem_map_of_mem ((news_sublist _ _).subset hreply)))
        omega
      · exact ((hseen newest hnewest).resolve_left hnonzero).resolve_left (not_not.mpr hlive)
    refine ⟨?_, hheld.mpr ⟨hids, htold⟩, fun newest' hnewest' => ?_, fun newest' hnewest' => ?_⟩
    · rw [← List.nodup_reverse, hports]
      exact nodup_addAll _ _
    · obtain rfl := Option.some.inj (hnewest.symm.trans hnewest')
      exact hend.trans (hended.mpr (hseen newest hnewest))
    · obtain rfl := Option.some.inj (hnewest.symm.trans hnewest')
      rw [hemitted, hid]
      exact if_congr hfinished rfl rfl

/-- Two replies of a run that ends. -/
theorem runData_iff_ended :
    let replies := [ExperimentState.mk [] [⟨.pubsub, "12".toList, "3".toList⟩] 0 1000,
      ⟨[], [⟨.pubsub, "12".toList, "3".toList⟩], 2000, 2000⟩]
    Current 0 replies (replies.foldl ExperimentRunData.updateData (.construct 7 0 0)) ↔
      Told 0 0 replies := by
  intro replies
  exact runData_iff 7 0 (List.cons_ne_nil _ _) (by decide)

/-- Two connections with the same id. -/
theorem not_runData : ¬ ∀ experimentRunId endTime lastUpdatedTime replies, replies ≠ [] →
    EndsOnce endTime replies →
      ((lastUpdatedTime :: replies.map ExperimentState.lastUpdatedTime).Pairwise fun a b =>
        a ≤ b) →
      Current endTime replies (replies.foldl ExperimentRunData.updateData
        (.construct experimentRunId endTime lastUpdatedTime)) := by
  intro h
  have hcurrent := h 7 0 0 [⟨[], [⟨.pubsub, "12".toList, "3".toList⟩,
    ⟨.pubsub, "1".toList, "23".toList⟩], 0, 1000⟩] (List.cons_ne_nil _ _) (by decide) (by decide)
  have hmem := (hcurrent.held ("1".toList, "23".toList)).mpr (by decide)
  revert hmem
  decide

end RunData

end Sem.Medea
