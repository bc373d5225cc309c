import Mathlib.Algebra.GroupWithZero.Nat
import Mathlib.Data.Prod.Lex
import Sem.Lib.Progress
import Sem.Zmq.ProtoReceiver

/-!
# Receivers dispatch their messages

* `Live`: what lets the threads and the destructor go on; `Live.canReturn`.
* `dispatched_of_reachBy`: in the runs in which no callback throws but the last one of a message,
  each callback has the messages of its type, once and in the order in which they were taken. It has
  all of them when the destructor returns, and this can return.
* `not_dispatched_throws`: the callback after the one that throws does not have the message.
-/

namespace Sem.Zmq

namespace ProtoReceiver

open ProtoReplier (Protobuf ascii)
open ProtoReplier.Rpc (bytes)

namespace ReceiverPoint

/-- It does not come back to `poll`. -/
def Stopping : ReceiverPoint → Prop
  | .receiving running | .pushing running _ | .notifying running => running = false
  | .ended => True
  | .polling | .control _ => False

@[simp]
theorem stopping_receiving (running : Bool) : (receiving running).Stopping ↔ running = false :=
  Iff.rfl

@[simp]
theorem stopping_loop (running : Bool) : (loop running).Stopping ↔ running = false := by
  cases running <;> simp [loop, Stopping]

@[simp]
theorem loop_eq_ended (running : Bool) : loop running = ended ↔ running = false := by
  cases running <;> simp [loop]

@[simp]
theorem loop_ne_control (running message : Bool) : loop running ≠ control message := by
  cases running <;> simp [loop]

@[simp]
theorem loop_ne_receiving (running running' : Bool) : loop running ≠ receiving running' := by
  cases running <;> simp [loop]

/-- How many steps there may be to the end of the body of the loop. -/
def rank : ReceiverPoint → ℕ
  | .control _ | .ended => 0
  | .polling => 1
  | .notifying _ => 2
  | .pushing _ _ => 3
  | .receiving _ => 4

theorem rank_loop (running : Bool) : (loop running).rank ≤ 1 := by
  cases running <;> simp [loop, rank]

end ReceiverPoint

/-- How many steps there are to the end of the destructor. -/
def DestructorPoint.rank : DestructorPoint → ℕ
  | .waiting => 5
  | .joiningReceiver => 4
  | .flagging => 3
  | .notifying => 2
  | .joiningConverter => 1
  | .alive | .returned | .aborted => 0

/-- How many steps of `ProtoConverter` a queue may take. -/
def queueRank (callbackLookup : List Str) (queue : List RxMessage) : ℕ :=
  (queue.map fun m => 2 + (equalRange callbackLookup m.protoType).length).sum

/-- How many steps of `ProtoConverter` there may be to its end, with this `rx_message_queue_`. -/
def ConverterPoint.rank {π : Type} (callbackLookup : List Str) (rxMessageQueue : List RxMessage) :
    ConverterPoint π → ℕ
  | .checking => 2 + queueRank callbackLookup rxMessageQueue
  | .blocked | .ended _ => 0
  | .processing running queue => again running + queueRank callbackLookup queue
  | .calling running _ callbacks queue =>
    again running + queueRank callbackLookup queue + callbacks.length + 1
where
  again (running : Bool) : ℕ :=
    if running then 3 + queueRank callbackLookup rxMessageQueue else 1

namespace Receiver

variable {π : Type} {proto : Protobuf π} {callbackLookup : List Str} {s s' : Receiver π}

/-! ## Progress -/

/-- What there is to be handled, and what the threads and the destructor know of each other. -/
structure Live (s : Receiver π) : Prop where
  control : ∀ message, s.receiver = .control message →
    s.inproc ≠ [] ∧ (message = true → s.incoming ≠ [])
  receiving : ∀ running, s.receiver = .receiving running → s.incoming ≠ []
  asked : s.destructor = .waiting → s.answered = true ∨ .terminate ∈ s.inproc
  stopping : s.answered = true → s.receiver.Stopping
  told : s.receiver.Stopping → s.receiver ≠ .ended → s.answered = true
  joining : s.destructor = .joiningReceiver → s.answered = true
  flag : s.destructor = .notifying ∨ s.destructor = .joiningConverter →
    s.terminateProtoConverter = true
  awake : s.destructor = .joiningConverter → s.converter ≠ .blocked
  unfailed : s.converter ≠ .ended true

/-- Before the threads have started nothing is stuck. -/
theorem live_start : Live (start : Receiver π) where
  control _ h := by cases h
  receiving _ h := by cases h
  asked h := by cases h
  stopping h := by cases h
  told h := h.elim
  joining h := by cases h
  flag h := by rcases h with h | h <;> cases h
  awake h := by cases h
  unfailed h := by cases h

/-- The receiver thread stops once it has answered, and not before. -/
theorem Live.receiverStep (h : Live s) (hstep : s.receiverStep = some s') : Live s' := by
  have hstopping := h.stopping
  have htold := h.told
  unfold Receiver.receiverStep at hstep
  split at hstep
  · cases hstep
  · cases hstep
  · rename_i message hpoint
    rw [hpoint] at hstopping
    obtain ⟨-, hmessage⟩ := h.control message hpoint
    split at hstep
    · cases hstep
    · rename_i function inproc hinproc
      cases hstep
      exact { h with
        control := by cases message <;> simp
        receiving := fun running hreceiving => by
          cases message with
          | true => exact hmessage rfl
          | false => simp at hreceiving
        asked := fun hwaiting => by
          have hasked := h.asked hwaiting
          rw [hinproc] at hasked
          cases function with
          | configure => simpa using hasked
          | terminate => simp
        joining := fun hjoining => by simp [h.joining hjoining]
        stopping := fun hanswered => by
          have hbefore : s.answered = false := by
            rw [← Bool.not_eq_true]
            exact fun ha => (hstopping ha).elim
          have hfunction : function = .terminate := by simpa [hbefore] using hanswered
          cases message <;> simp [hfunction]
        told := fun hstop _ => by
          have hfunction : function = .terminate := by
            cases message <;> simpa using hstop
          simp [hfunction] }
  · rename_i running hpoint
    rw [hpoint] at hstopping htold
    split at hstep
    · cases hstep
    · cases hstep
      exact { h with
        control := nofun
        receiving := nofun
        stopping := hstopping
        told := fun hstop _ => htold hstop nofun }
  · rename_i running message hpoint
    rw [hpoint] at hstopping htold
    cases hstep
    exact { h with
      control := fun message' => by dsimp only; split <;> simp
      receiving := fun running' => by dsimp only; split <;> simp
      stopping := fun hanswered => by
        have hrunning : running = false := hstopping hanswered
        simp [hrunning, ReceiverPoint.Stopping]
      told := fun hstop _ => by
        refine htold ?_ nofun
        dsimp only at hstop
        split at hstop
        · exact hstop
        · exact (ReceiverPoint.stopping_loop running).mp hstop }
  · rename_i running hpoint
    rw [hpoint] at hstopping htold
    cases hstep
    exact { h with
      control := by simp
      receiving := by simp
      stopping := fun hanswered => (ReceiverPoint.stopping_loop running).mpr (hstopping hanswered)
      told := fun hstop _ => htold ((ReceiverPoint.stopping_loop running).mp hstop) nofun
      awake := fun _ => by cases s.converter <;> simp [ConverterPoint.notified]
      unfailed := by
        have hunfailed := h.unfailed
        revert hunfailed
        cases s.converter <;> simp [ConverterPoint.notified] }

/-- A step of `ProtoConverter`, which waits for a notification before the flag is set only. -/
theorem Live.convert (h : Live s) {converter : ConverterPoint π} {queue : List RxMessage}
    {rxCount : ℕ} {calls : List (ℕ × π)}
    (hawake : s.terminateProtoConverter = true → converter ≠ .blocked)
    (hunfailed : converter ≠ .ended true) :
    Live { s with
      rxMessageQueue := queue
      rxCount := rxCount
      calls := calls
      converter := converter } :=
  { h with
    awake := fun hjoining => hawake (h.flag (.inr hjoining))
    unfailed := hunfailed }

/-- The converter does not block once the flag is set. -/
theorem Live.converterStep (h : Live s)
    (hstep : s.converterStep proto callbackLookup = some s') : Live s' := by
  unfold Receiver.converterStep at hstep
  split at hstep
  · split at hstep <;> cases hstep
    · exact h.convert nofun nofun
    · rename_i hflag
      exact h.convert (fun hset => by simp [hset] at hflag) nofun
  · cases hstep
  · cases hstep
  · rename_i running _
    cases hstep
    cases running <;> exact h.convert nofun nofun
  · split at hstep <;> cases hstep <;> exact h.convert nofun nofun
  · cases hstep
    exact h.convert nofun nofun
  · cases hstep

/-- Only another exception could end the converter. -/
theorem Live.callStep (h : Live s) {outcome : CallOutcome} (houtcome : outcome ≠ .throwsOther)
    (hstep : s.callStep outcome = some s') : Live s' := by
  unfold Receiver.callStep at hstep
  split at hstep
  · cases hstep
    cases outcome with
    | returns | throws => exact h.convert nofun nofun
    | throwsOther => exact absurd rfl houtcome
  · cases hstep

/-- The destructor sets the flag before it waits. -/
theorem Live.destructorStep (h : Live s) (hstep : s.destructorStep = some s') : Live s' := by
  unfold Receiver.destructorStep at hstep
  split at hstep
  · cases hstep
  · cases hstep
  · cases hstep
  · split at hstep <;> cases hstep
    rename_i hanswered
    exact { h with asked := nofun, joining := fun _ => hanswered, flag := by simp, awake := nofun }
  · split at hstep <;> cases hstep
    exact { h with asked := nofun, joining := nofun, flag := by simp, awake := nofun }
  · cases hstep
    exact { h with asked := nofun, joining := nofun, flag := fun _ => rfl, awake := nofun }
  · rename_i hpoint
    cases hstep
    exact { h with
      asked := nofun
      joining := nofun
      flag := fun _ => h.flag (.inl hpoint)
      awake := fun _ => by cases s.converter <;> simp [ConverterPoint.notified]
      unfailed := by
        have hunfailed := h.unfailed
        revert hunfailed
        cases s.converter <;> simp [ConverterPoint.notified] }
  · split at hstep
    · rename_i failed _
      cases hstep
      cases failed <;>
        exact { h with asked := nofun, joining := nofun, flag := by simp, awake := nofun }
    · cases hstep

/-- Each harmless step keeps it, thread by thread. -/
theorem Live.step {a : Action} (h : Live s) (hharmless : s.Harmless a)
    (hstep : Receiver.step proto callbackLookup s a = some s') : Live s' := by
  unfold Receiver.step at hstep
  split at hstep
  · cases hstep
  · cases a with
    | request =>
      dsimp only at hstep
      split at hstep <;> cases hstep
      exact { h with
        control := fun message hcontrol => ⟨by simp, (h.control message hcontrol).2⟩
        asked := fun hwaiting => (h.asked hwaiting).imp_right (List.mem_append_left _) }
    | setBatchMode =>
      dsimp only at hstep
      split at hstep <;> cases hstep
      exact { h with }
    | arrive published =>
      cases hstep
      exact { h with
        control := fun message hcontrol => ⟨(h.control message hcontrol).1, by simp⟩
        receiving := by simp }
    | poll control message =>
      dsimp only at hstep
      split at hstep <;> cases hstep
      rename_i henabled
      obtain ⟨hpolling, hany, hcontrol, hmessage⟩ := henabled
      have hstopping := h.stopping
      rw [hpolling] at hstopping
      cases control with
      | true => exact { h with
          control := fun message' hcontrol' => by
            cases hcontrol'
            exact ⟨hcontrol rfl, hmessage⟩
          receiving := nofun
          stopping := hstopping
          told := False.elim }
      | false => exact { h with
          control := nofun
          receiving := fun _ _ => hmessage (by simpa using hany)
          stopping := fun hanswered => (hstopping hanswered).elim
          told := fun hstop => by cases hstop }
    | interrupt =>
      dsimp only at hstep
      split at hstep <;> cases hstep
      exact { h with
        control := nofun
        receiving := nofun
        stopping := fun _ => trivial
        told := fun _ hended => absurd rfl hended }
    | receiver => exact h.receiverStep hstep
    | wake =>
      dsimp only at hstep
      split at hstep
      · cases hstep
        exact h.convert nofun nofun
      · cases hstep
    | converter => exact h.converterStep hstep
    | call outcome =>
      refine h.callStep ?_ hstep
      rintro rfl
      exact hharmless
    | destroy =>
      dsimp only at hstep
      split at hstep <;> cases hstep
      exact { h with
        control := fun message hcontrol => ⟨by simp, (h.control message hcontrol).2⟩
        asked := fun _ => .inr (by simp)
        joining := nofun
        flag := by simp
        awake := nofun }
    | destructor => exact h.destructorStep hstep
    | timeOut =>
      dsimp only at hstep
      split at hstep <;> cases hstep
      exact { h with asked := nofun, joining := nofun, flag := by simp, awake := nofun }

/-- The steps that remain but for those of `ProtoConverter`. -/
def threadRank (s : Receiver π) : ℕ :=
  8 * s.inproc.length + s.receiver.rank + s.destructor.rank

/-- What both threads still have to do, by the one that has to finish first. -/
def rank (callbackLookup : List Str) (s : Receiver π) : ℕ ×ₗ ℕ :=
  toLex (s.threadRank, s.converter.rank callbackLookup s.rxMessageQueue)

/-- A thread that comes closer to its end brings the whole closer. -/
theorem rank_lt_of_threadRank (hlower : s'.threadRank < s.threadRank) :
    s'.rank callbackLookup < s.rank callbackLookup :=
  Prod.Lex.toLex_lt_toLex.mpr (.inl hlower)

/-- The destructor is in progress, and `ZmqReceiver` ends only because it is told to. -/
structure Closing (s : Receiver π) : Prop extends Live s where
  begun : s.destructor ≠ .alive
  kept : s.destructor ≠ .aborted
  served : s.receiver = .ended → s.answered = true

/-- The threads or the destructor can take a step after which less remains. -/
def Progresses (proto : Protobuf π) (callbackLookup : List Str) (s : Receiver π) : Prop :=
  ∃ a s', a.OfThreads ∧ s.Harmless a ∧ step proto callbackLookup s a = some s' ∧ Closing s' ∧
    s'.rank callbackLookup < s.rank callbackLookup

/-- Each step of the receiver thread is one closer to its end. -/
theorem threadRank_receiverStep (hstep : s.receiverStep = some s') :
    s'.destructor = s.destructor ∧ s'.threadRank < s.threadRank := by
  unfold Receiver.receiverStep at hstep
  split at hstep
  · cases hstep
  · cases hstep
  · rename_i message hpoint
    split at hstep
    · cases hstep
    · rename_i function inproc hinproc
      cases hstep
      have hloop := ReceiverPoint.rank_loop (decide (function ≠ .terminate))
      refine ⟨rfl, ?_⟩
      simp only [threadRank, hpoint, hinproc, List.length_cons]
      split <;> simp only [ReceiverPoint.rank] at hloop ⊢ <;> omega
  · rename_i running hpoint
    split at hstep <;> cases hstep
    exact ⟨rfl, by simp [threadRank, hpoint, ReceiverPoint.rank]⟩
  · rename_i running message hpoint
    cases hstep
    have hloop := ReceiverPoint.rank_loop running
    refine ⟨rfl, ?_⟩
    simp only [threadRank, hpoint]
    split <;> simp only [ReceiverPoint.rank] at hloop ⊢ <;> omega
  · rename_i running hpoint
    cases hstep
    have hloop := ReceiverPoint.rank_loop running
    refine ⟨rfl, ?_⟩
    simp only [threadRank, hpoint]
    simp only [ReceiverPoint.rank] at hloop ⊢
    omega

/-- The receiver thread ends only after it has answered. -/
theorem Live.served_receiverStep (h : Live s) (hstep : s.receiverStep = some s')
    (hended : s'.receiver = .ended) : s'.answered = true := by
  have htold := h.told
  unfold Receiver.receiverStep at hstep
  split at hstep
  · cases hstep
  · cases hstep
  · rename_i message _
    split at hstep <;> cases hstep
    cases message
    · simp only [Bool.false_eq_true, if_false, ReceiverPoint.loop_eq_ended] at hended
      simp [hended]
    · cases hended
  · split at hstep <;> cases hstep
    cases hended
  · rename_i running message hpoint
    cases hstep
    rw [hpoint] at htold
    refine htold ?_ nofun
    dsimp only at hended
    split at hended
    · cases hended
    · exact (ReceiverPoint.loop_eq_ended running).mp hended
  · rename_i running hpoint
    cases hstep
    rw [hpoint] at htold
    exact htold ((ReceiverPoint.loop_eq_ended running).mp hended) nofun

/-- While it closes, the receiver may end. -/
theorem Closing.progresses_of_receiverStep (h : Closing s) (hstep : s.receiverStep = some s') :
    s.Progresses proto callbackLookup := by
  obtain ⟨hdestructor, hlower⟩ := threadRank_receiverStep hstep
  refine ⟨.receiver, s', trivial, trivial, ?_, ?_, rank_lt_of_threadRank hlower⟩
  · rw [step, if_neg h.kept]
    exact hstep
  · exact {
      toLive := h.toLive.receiverStep hstep
      begun := hdestructor ▸ h.begun
      kept := hdestructor ▸ h.kept
      served := h.toLive.served_receiverStep hstep }

/-- `ZmqReceiver` goes on while there is a control request. -/
theorem Closing.progresses_receiver (h : Closing s) (hrunning : s.receiver ≠ .ended)
    (hinproc : s.receiver = .polling → s.inproc ≠ []) : s.Progresses proto callbackLookup := by
  cases hpoint : s.receiver with
  | polling =>
    have hpoll : step proto callbackLookup s (.poll true false) =
        some { s with receiver := .control false } := by
      simp [step, h.kept, hpoint, hinproc hpoint]
    refine ⟨.poll true false, _, trivial, trivial, hpoll, ?_, rank_lt_of_threadRank ?_⟩
    · exact {
        toLive := h.toLive.step (a := .poll true false) trivial hpoll
        begun := h.begun
        kept := h.kept
        served := nofun }
    · simp [threadRank, hpoint, ReceiverPoint.rank]
  | control message =>
    obtain ⟨hne, -⟩ := h.control message hpoint
    obtain ⟨function, inproc, hinproc'⟩ := List.exists_cons_of_ne_nil hne
    exact h.progresses_of_receiverStep (by rw [receiverStep, hpoint, hinproc'])
  | receiving running =>
    obtain ⟨published, incoming, hincoming⟩ :=
      List.exists_cons_of_ne_nil (h.receiving running hpoint)
    exact h.progresses_of_receiverStep (by rw [receiverStep, hpoint, hincoming])
  | pushing running message =>
    exact h.progresses_of_receiverStep (by rw [receiverStep, hpoint])
  | notifying running =>
    exact h.progresses_of_receiverStep (by rw [receiverStep, hpoint])
  | ended => exact absurd hpoint hrunning

/-- So may the destructor, once nothing holds it. -/
theorem Closing.progresses_destructor (h : Closing s) (hstep : s.destructorStep = some s') :
    s.Progresses proto callbackLookup := by
  have hlive := h.toLive.destructorStep hstep
  have hunfailed := h.unfailed
  have hafter : s'.receiver = s.receiver ∧ s'.answered = s.answered ∧ s'.destructor ≠ .alive ∧
      s'.destructor ≠ .aborted ∧ s'.threadRank < s.threadRank := by
    unfold Receiver.destructorStep at hstep
    split at hstep
    · cases hstep
    · cases hstep
    · cases hstep
    · rename_i hpoint
      split at hstep <;> cases hstep
      exact ⟨rfl, rfl, nofun, nofun, by simp [threadRank, hpoint, DestructorPoint.rank]⟩
    · rename_i hpoint
      split at hstep <;> cases hstep
      exact ⟨rfl, rfl, nofun, nofun, by simp [threadRank, hpoint, DestructorPoint.rank]⟩
    · rename_i hpoint
      cases hstep
      exact ⟨rfl, rfl, nofun, nofun, by simp [threadRank, hpoint, DestructorPoint.rank]⟩
    · rename_i hpoint
      cases hstep
      exact ⟨rfl, rfl, nofun, nofun, by simp [threadRank, hpoint, DestructorPoint.rank]⟩
    · rename_i hpoint
      split at hstep
      · rename_i failed hended
        cases hstep
        obtain rfl : failed = false := by
          cases failed with
          | true => exact absurd hended hunfailed
          | false => rfl
        exact ⟨rfl, rfl, nofun, nofun, by simp [threadRank, hpoint, DestructorPoint.rank]⟩
      · cases hstep
  obtain ⟨hreceiver, hanswered, hbegun, hkept, hlower⟩ := hafter
  refine ⟨.destructor, s', trivial, trivial, ?_, ?_, rank_lt_of_threadRank hlower⟩
  · rw [step, if_neg h.kept]
    exact hstep
  · exact {
      toLive := hlive
      begun := hbegun
      kept := hkept
      served := by
        rw [hreceiver, hanswered]
        exact h.served }

/-- A step of `ProtoConverter` changes nothing that the others wait for. -/
theorem Closing.convert (h : Closing s) {a : Action} (ha : a.OfThreads) (hharmless : s.Harmless a)
    (hstep : step proto callbackLookup s a = some s') (hreceiver : s'.receiver = s.receiver)
    (hanswered : s'.answered = s.answered) (hinproc : s'.inproc = s.inproc)
    (hdestructor : s'.destructor = s.destructor)
    (hlower : s'.converter.rank callbackLookup s'.rxMessageQueue <
      s.converter.rank callbackLookup s.rxMessageQueue) : s.Progresses proto callbackLookup := by
  have hsame : s'.threadRank = s.threadRank := by
    rw [threadRank, hinproc, hreceiver, hdestructor, threadRank]
  refine ⟨a, s', ha, hharmless, hstep, ?_, Prod.Lex.toLex_lt_toLex.mpr (.inr ⟨hsame, hlower⟩)⟩
  exact {
    toLive := h.toLive.step hharmless hstep
    begun := hdestructor ▸ h.begun
    kept := hdestructor ▸ h.kept
    served := by
      rw [hreceiver, hanswered]
      exact h.served }

/-- And the converter, which takes the rest of the queue first. -/
theorem Closing.progresses_of_converterStep (h : Closing s)
    (hflag : s.terminateProtoConverter = true)
    (hstep : s.converterStep proto callbackLookup = some s') :
    s.Progresses proto callbackLookup := by
  have hgoes : step proto callbackLookup s .converter = some s' := by
    rw [step, if_neg h.kept]
    exact hstep
  unfold Receiver.converterStep at hstep
  split at hstep
  · rename_i hpoint
    rw [hflag] at hstep
    cases hstep
    refine h.convert (a := .converter) trivial trivial hgoes rfl rfl rfl rfl ?_
    simp [hpoint, ConverterPoint.rank, ConverterPoint.rank.again]
  · cases hstep
  · cases hstep
  · rename_i running hpoint
    cases hstep
    refine h.convert (a := .converter) trivial trivial hgoes rfl rfl rfl rfl ?_
    cases running <;> simp [hpoint, ConverterPoint.rank, ConverterPoint.rank.again, queueRank]
  · rename_i running m queue hpoint
    split at hstep <;> cases hstep
    · refine h.convert (a := .converter) trivial trivial hgoes rfl rfl rfl rfl ?_
      simp only [hpoint, ConverterPoint.rank, queueRank, List.map_cons, List.sum_cons]
      omega
    · refine h.convert (a := .converter) trivial trivial hgoes rfl rfl rfl rfl ?_
      simp only [hpoint, ConverterPoint.rank, queueRank, List.map_cons, List.sum_cons]
      omega
  · rename_i running message queue hpoint
    cases hstep
    refine h.convert (a := .converter) trivial trivial hgoes rfl rfl rfl rfl ?_
    simp [hpoint, ConverterPoint.rank]
  · cases hstep

/-- Callbacks return, so the queue becomes shorter. -/
theorem Closing.progresses_of_callStep (h : Closing s) (hstep : s.callStep .returns = some s') :
    s.Progresses proto callbackLookup := by
  have hgoes : step proto callbackLookup s (.call .returns) = some s' := by
    rw [step, if_neg h.kept]
    exact hstep
  unfold Receiver.callStep at hstep
  split at hstep
  · rename_i running message c callbacks queue hpoint
    cases hstep
    refine h.convert (a := .call .returns) rfl trivial hgoes rfl rfl rfl rfl ?_
    simp [hpoint, ConverterPoint.rank]
  · cases hstep

/-- `ProtoConverter` comes to its end when the flag is set. -/
theorem Closing.progresses_converter (h : Closing s) (hflag : s.terminateProtoConverter = true)
    (hblocked : s.converter ≠ .blocked) (hrunning : ∀ failed, s.converter ≠ .ended failed) :
    s.Progresses proto callbackLookup := by
  cases hpoint : s.converter with
  | checking => exact h.progresses_of_converterStep hflag (by rw [converterStep, hpoint, hflag]; rfl)
  | blocked => exact absurd hpoint hblocked
  | ended failed => exact absurd hpoint (hrunning failed)
  | processing running queue =>
    cases queue with
    | nil => exact h.progresses_of_converterStep hflag (by rw [converterStep, hpoint])
    | cons m queue =>
      cases hconstruct : proto.constructProto callbackLookup m.protoType m.protoData with
      | ok message =>
        exact h.progresses_of_converterStep hflag
          (by simp only [converterStep, hpoint, hconstruct]; rfl)
      | error e =>
        exact h.progresses_of_converterStep hflag
          (by simp only [converterStep, hpoint, hconstruct]; rfl)
  | calling running message callbacks queue =>
    cases callbacks with
    | nil => exact h.progresses_of_converterStep hflag (by rw [converterStep, hpoint])
    | cons c callbacks => exact h.progresses_of_callStep (by rw [callStep, hpoint])

/-- While the destructor has not returned some thread has a step that counts. -/
theorem Closing.progresses (h : Closing s) (hopen : s.destructor ≠ .returned) :
    s.Progresses proto callbackLookup := by
  cases hpoint : s.destructor with
  | alive => exact absurd hpoint h.begun
  | aborted => exact absurd hpoint h.kept
  | returned => exact absurd hpoint hopen
  | waiting =>
    by_cases hanswered : s.answered = true
    · exact h.progresses_destructor (by rw [destructorStep, hpoint]; exact if_pos hanswered)
    · refine h.progresses_receiver (fun hended => hanswered (h.served hended)) fun _ hnil => ?_
      have hasked := (h.asked hpoint).resolve_left hanswered
      rw [hnil] at hasked
      cases hasked
  | joiningReceiver =>
    by_cases hended : s.receiver = .ended
    · exact h.progresses_destructor (by rw [destructorStep, hpoint]; exact if_pos hended)
    · refine h.progresses_receiver hended fun hpolling => ?_
      have hstopping := h.stopping (h.joining hpoint)
      rw [hpolling] at hstopping
      exact hstopping.elim
  | flagging => exact h.progresses_destructor (by rw [destructorStep, hpoint])
  | notifying => exact h.progresses_destructor (by rw [destructorStep, hpoint])
  | joiningConverter =>
    by_cases hended : ∃ failed, s.converter = .ended failed
    · obtain ⟨failed, hended⟩ := hended
      exact h.progresses_destructor (by rw [destructorStep, hpoint, hended])
    · exact h.progresses_converter (h.flag (.inr hpoint)) (h.awake hpoint)
        fun failed hfailed => hended ⟨failed, hfailed⟩

/-- By induction on the rank. -/
theorem Closing.canReturn (h : Closing s) : s.CanReturn proto callbackLookup := by
  have hprogress (s : Receiver π) (h : Closing s) (hopen : ¬ s.destructor = .returned) :
      s.Progresses proto callbackLookup := h.progresses hopen
  exact Lts.exists_runBy_of_rank wellFounded_lt (rank callbackLookup) hprogress h

theorem inductive_live : (system proto callbackLookup).InductiveBy Harmless Live where
  init h := by
    subst h
    exact live_start
  step h hharmless hstep := h.step hharmless hstep

/-! ## Dispatch -/

/-- The callbacks of a type are those registered under it. -/
theorem mem_equalRange {protoType : Str} {c : ℕ} :
    c ∈ equalRange callbackLookup protoType ↔ callbackLookup[c]? = some protoType := by
  simp only [equalRange, List.mem_filter, List.mem_range, decide_eq_true_eq, and_iff_right_iff_imp]
  intro hc
  exact (List.getElem?_eq_some_iff.mp hc).1

/-- Of the calls that a message is due, one callback has one or none. -/
theorem filter_due (c : ℕ) (m : RxMessage) :
    ((due proto callbackLookup m).filter (·.1 = c)).map Prod.snd =
      (if callbackLookup[c]? = some m.protoType then
        (proto.constructProto callbackLookup m.protoType m.protoData).toOption
      else none).toList := by
  unfold due
  cases proto.constructProto callbackLookup m.protoType m.protoData with
  | error e => simp [Except.toOption]
  | ok message =>
    have hnodup : (equalRange callbackLookup m.protoType).Nodup := List.nodup_range.filter _
    rw [List.filter_map, List.map_map]
    show ((equalRange callbackLookup m.protoType).filter (· = c)).map (fun _ => message) = _
    rw [List.filter_eq, hnodup.count]
    simp only [mem_equalRange]
    by_cases hc : callbackLookup[c]? = some m.protoType <;> simp [hc, Except.toOption]

/-- What is due to a callback, message by message. -/
theorem dueTo_eq (s : Receiver π) (c : ℕ) : s.dueTo proto callbackLookup c =
    ((s.taken.flatMap (due proto callbackLookup)).filter (·.1 = c)).map Prod.snd := by
  unfold dueTo
  induction s.taken with
  | nil => rfl
  | cons m taken ih =>
    rw [List.flatMap_cons, List.filter_append, List.map_append, ← ih, filter_due]
    rw [List.filterMap_cons]
    split <;> rename_i hm <;> rw [hm] <;> rfl

/-- While the destructor has not returned, there may be calls to come. -/
theorem Books.calls_prefix (h : Books proto callbackLookup s) :
    s.calls <+: s.taken.flatMap (due proto callbackLookup) := by
  rw [← h.account, List.append_assoc]
  exact List.prefix_append _ _

/-- When the destructor has returned, every callback has been made. -/
theorem Books.calls_eq (h : Books proto callbackLookup s) (hreturned : s.destructor = .returned) :
    s.calls = s.taken.flatMap (due proto callbackLookup) := by
  obtain ⟨failed, hended⟩ := h.returned hreturned
  have hreceiver : s.receiver = .ended := h.joined (by rw [hreturned]; trivial)
  have hqueue : s.rxMessageQueue = [] := (h.last (by rw [hended]; trivial)).2
  have haccount := h.account
  simpa [hended, hreceiver, hqueue, ConverterPoint.pending, ConverterPoint.queue,
    ReceiverPoint.inHand] using haccount

/-- The books say what the property says. -/
theorem Books.dispatched (h : Books proto callbackLookup s) (hlive : Live s) :
    s.Dispatched proto callbackLookup where
  canReturn hbegun hkept hserved := Closing.canReturn ⟨hlive, hbegun, hkept, hserved⟩
  inOrder c := by
    rw [dueTo_eq]
    exact (h.calls_prefix.filter _).map _
  complete c hreturned := by
    rw [dueTo_eq, ← h.calls_eq hreturned]
    rfl

/-- Receivers dispatch their messages while the callbacks that throw are the last ones. -/
theorem dispatched_of_reachBy (h : (system proto callbackLookup).ReachBy Harmless s) :
    s.Dispatched proto callbackLookup :=
  (inductive_books.reach h).dispatched (inductive_live.reach h)

/-- The receiver is destroyed with a message in its queue and one at its socket; the last callback
of the first one throws. -/
def batchedRun : List Action :=
  [.setBatchMode 5, .arrive ⟨[], ⟨ascii "M", [7]⟩⟩, .converter, .poll false true, .receiver,
    .receiver, .arrive ⟨[], ⟨ascii "M", [8]⟩⟩, .destroy, .poll true true, .receiver, .destructor,
    .receiver, .receiver, .receiver, .destructor, .converter, .converter, .call .returns,
    .call .throws, .destructor, .converter, .destructor, .call .returns, .call .returns,
    .converter, .converter, .converter, .converter, .destructor]

theorem dispatched_of_reachBy_batched :
    ∃ s, Lts.runBy (step bytes [ascii "M", ascii "M"]) Harmless start batchedRun = some s ∧
      s.destructor = .returned ∧ s.calls = [(0, [7]), (1, [7]), (0, [8]), (1, [8])] ∧
      s.Dispatched bytes [ascii "M", ascii "M"] := by
  obtain ⟨s, hs, hreturned, hcalls⟩ :
      ∃ s, Lts.runBy (step bytes [ascii "M", ascii "M"]) Harmless start batchedRun = some s ∧
        s.destructor = .returned ∧ s.calls = [(0, [7]), (1, [7]), (0, [8]), (1, [8])] :=
    ⟨_, rfl, by decide +kernel, by decide +kernel⟩
  exact ⟨s, hs, hreturned, hcalls, dispatched_of_reachBy (Lts.reachBy_of_runBy hs)⟩

/-- The first of two callbacks throws, and the second one does not have the message. -/
theorem not_dispatched_throws :
    ∃ s, Lts.run (step bytes [ascii "M", ascii "M"]) start
      [.arrive ⟨[], ⟨ascii "M", [7]⟩⟩, .poll false true, .receiver, .receiver, .receiver,
        .converter, .converter, .call .throws, .destroy, .poll true false, .receiver, .destructor,
        .destructor, .destructor, .destructor, .converter, .converter, .converter, .destructor] =
        some s ∧ s.destructor = .returned ∧ s.calls = [(0, [7])] ∧
      ¬ s.Dispatched bytes [ascii "M", ascii "M"] := by
  refine ⟨_, rfl, by decide +kernel, by decide +kernel, fun h => ?_⟩
  have hcomplete := h.complete 1 (by decide +kernel)
  revert hcomplete
  decide +kernel

end Receiver

end ProtoReceiver

end Sem.Zmq
