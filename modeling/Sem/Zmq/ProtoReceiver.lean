import Sem.Lib.Run
import Sem.Zmq.ProtoReplier

/-!
# Receivers

A receiver takes the messages of its socket on one thread, `ZmqReceiver`, and gives them to its
callbacks on another one, `ProtoConverter`. The threads share a queue, which the second one swaps
for an empty one; the destructor ends the first thread and then the second.

* `Receiver.Dispatched`: each callback has the messages of its type, once and in the order in which
  they were taken, and it has all of them when the destructor returns, which can return.
* `Receiver.Books`: where each message is and what the threads know of each other, in the runs in
  which no callback throws but the last one of a message.
-/

namespace Sem.Zmq

namespace ProtoReceiver

open ProtoReplier (Protobuf)

/-- A pair of `rx_message_queue_`. -/
structure RxMessage where
  protoType : Str
  protoData : Str
  deriving DecidableEq, Repr

/-- What comes in at the socket. -/
structure Published where
  topic : Str
  message : RxMessage
  deriving DecidableEq, Repr

/-- The functions of `SendInprocMessage`. -/
inductive ControlFunction
  /-- "connect", "disconnect", "filter" or "unfilter". -/
  | configure
  | terminate
  deriving DecidableEq, Repr

/-- How the call of a callback ends. -/
inductive CallOutcome
  | returns
  /-- It throws a `std::exception`. -/
  | throws
  /-- It throws something else. -/
  | throwsOther
  deriving DecidableEq, Repr

/-- The points of `ZmqReceiver`, with its variable `running`. -/
inductive ReceiverPoint
  | polling
  /-- `poll` returned with a control request, and maybe with a message. -/
  | control (message : Bool)
  | receiving (running : Bool)
  | pushing (running : Bool) (message : RxMessage)
  | notifying (running : Bool)
  | ended
  deriving DecidableEq, Repr

namespace ReceiverPoint

/-- The end of the body of the loop. -/
def loop (running : Bool) : ReceiverPoint := if running then .polling else .ended

/-- The message that is taken and not in the queue yet. -/
def inHand : ReceiverPoint → List RxMessage
  | .pushing _ message => [message]
  | _ => []

@[simp]
theorem inHand_control (message : Bool) : (control message).inHand = [] := rfl

@[simp]
theorem inHand_receiving (running : Bool) : (receiving running).inHand = [] := rfl

@[simp]
theorem inHand_pushing (running : Bool) (message : RxMessage) :
    (pushing running message).inHand = [message] := rfl

@[simp]
theorem inHand_notifying (running : Bool) : (notifying running).inHand = [] := rfl

@[simp]
theorem inHand_loop (running : Bool) : (loop running).inHand = [] := by
  cases running <;> rfl

end ReceiverPoint

/-- The points of `ProtoConverter`, with its variables `running` and `queue`. -/
inductive ConverterPoint (π : Type)
  /-- It has the lock, and is about to look at the queue. -/
  | checking
  | blocked
  | processing (running : Bool) (queue : List RxMessage)
  /-- In the loop of `ProcessMessage`, with the callbacks to come; `queue` is without the front. -/
  | calling (running : Bool) (message : π) (callbacks : List ℕ) (queue : List RxMessage)
  /-- Its future is ready; it may hold an exception. -/
  | ended (failed : Bool)
  deriving DecidableEq, Repr

namespace ConverterPoint

variable {π : Type}

/-- `notify_all`. -/
def notified : ConverterPoint π → ConverterPoint π
  | .blocked => .checking
  | point => point

/-- The messages that are swapped out and not begun. -/
def queue : ConverterPoint π → List RxMessage
  | .processing _ queue | .calling _ _ _ queue => queue
  | _ => []

/-- The calls that remain of the message that is begun. -/
def pending : ConverterPoint π → List (ℕ × π)
  | .calling _ message callbacks _ => callbacks.map (·, message)
  | _ => []

/-- It does not come back to the queue. -/
def Last : ConverterPoint π → Prop
  | .processing running _ | .calling running _ _ _ => running = false
  | .ended _ => True
  | .checking | .blocked => False

@[simp]
theorem queue_notified (point : ConverterPoint π) : point.notified.queue = point.queue := by
  cases point <;> rfl

@[simp]
theorem pending_notified (point : ConverterPoint π) : point.notified.pending = point.pending := by
  cases point <;> rfl

@[simp]
theorem last_notified (point : ConverterPoint π) : point.notified.Last ↔ point.Last := by
  cases point <;> rfl

end ConverterPoint

/-- Where the destructor is. -/
inductive DestructorPoint
  | alive
  /-- In `SendInprocMessage`. -/
  | waiting
  | joiningReceiver
  | flagging
  | notifying
  | joiningConverter
  | returned
  /-- An exception leaves it: `std::terminate`. -/
  | aborted
  deriving DecidableEq, Repr

namespace DestructorPoint

/-- The thread of `ZmqReceiver` is joined. -/
def Joined : DestructorPoint → Prop
  | .flagging | .notifying | .joiningConverter | .returned => True
  | .alive | .waiting | .joiningReceiver | .aborted => False

end DestructorPoint

/-- A receiver. -/
structure Receiver (π : Type) where
  /-- The control requests that are not handled. -/
  inproc : List ControlFunction
  /-- The messages at the socket. -/
  incoming : List Published
  /-- The messages taken from the socket, in their order. -/
  taken : List RxMessage
  rxMessageQueue : List RxMessage
  batchSize : ℕ
  rxCount : ℕ
  terminateProtoConverter : Bool
  /-- The "terminate" of the destructor has its reply. -/
  answered : Bool
  receiver : ReceiverPoint
  converter : ConverterPoint π
  destructor : DestructorPoint
  /-- The calls of callbacks, each with its message. -/
  calls : List (ℕ × π)
  deriving DecidableEq, Repr

/-- What happens to a receiver. -/
inductive Action
  /-- `Connect`, `Disconnect`, `Filter` or `Unfilter`. -/
  | request
  | setBatchMode (batchSize : ℕ)
  | arrive (published : Published)
  /-- `poll` returns with a control request, with a message or with both. -/
  | poll (control message : Bool)
  /-- `poll` throws, and not for `ETERM`. -/
  | interrupt
  /-- `ZmqReceiver` goes on. -/
  | receiver
  /-- The wait of `ProtoConverter` ends without a notification. -/
  | wake
  /-- `ProtoConverter` goes on. -/
  | converter
  /-- `ProtoConverter` calls the next callback. -/
  | call (outcome : CallOutcome)
  | destroy
  /-- The destructor goes on. -/
  | destructor
  /-- `SendInprocMessage` does not have its reply in time. -/
  | timeOut
  deriving DecidableEq, Repr

/-- The threads and the destructor go on; no callback throws. -/
def Action.OfThreads : Action → Prop
  | .poll _ _ | .receiver | .converter | .destructor => True
  | .call outcome => outcome = .returns
  | .request | .setBatchMode _ | .arrive _ | .interrupt | .wake | .destroy | .timeOut => False

/-- `equal_range`: the callbacks of a type, in the order of their registration. -/
def equalRange (callbackLookup : List Str) (protoType : Str) : List ℕ :=
  (List.range callbackLookup.length).filter fun c => callbackLookup[c]? = some protoType

/-- The calls that a message is due. -/
def due {π : Type} (proto : Protobuf π) (callbackLookup : List Str) (m : RxMessage) :
    List (ℕ × π) :=
  match proto.constructProto callbackLookup m.protoType m.protoData with
  | .ok message => (equalRange callbackLookup m.protoType).map (·, message)
  | .error _ => []

namespace Receiver

variable {π : Type}

/-- A receiver to which nothing has happened. -/
def start : Receiver π where
  inproc := []
  incoming := []
  taken := []
  rxMessageQueue := []
  batchSize := 0
  rxCount := 0
  terminateProtoConverter := false
  answered := false
  receiver := .polling
  converter := .checking
  destructor := .alive
  calls := []

/-- The next step of `ZmqReceiver`, but for its `poll`. -/
def receiverStep (s : Receiver π) : Option (Receiver π) :=
  match s.receiver with
  | .polling | .ended => none
  | .control message =>
    match s.inproc with
    | [] => none
    | function :: inproc =>
      let running := decide (function ≠ .terminate)
      some { s with
        inproc := inproc
        answered := s.answered || !running
        receiver := if message then .receiving running else .loop running }
  | .receiving running =>
    match s.incoming with
    | [] => none
    | published :: incoming =>
      some { s with
        incoming := incoming
        taken := s.taken ++ [published.message]
        receiver := .pushing running published.message }
  | .pushing running message =>
    let queue := s.rxMessageQueue ++ [message]
    let notify := !running || decide (s.batchSize < queue.length)
    some { s with
      rxMessageQueue := queue
      receiver := if notify then .notifying running else .loop running }
  | .notifying running =>
    some { s with converter := s.converter.notified, receiver := .loop running }

/-- The next step of `ProtoConverter`, but for the calls of callbacks. A type is registered with
its callbacks. -/
def converterStep (proto : Protobuf π) (callbackLookup : List Str) (s : Receiver π) :
    Option (Receiver π) :=
  match s.converter with
  | .checking =>
    if s.terminateProtoConverter || !s.rxMessageQueue.isEmpty then
      some { s with
        rxMessageQueue := []
        converter := .processing (!s.terminateProtoConverter) s.rxMessageQueue }
    else some { s with converter := .blocked }
  | .blocked | .ended _ => none
  | .processing running [] =>
    some { s with converter := if running then .checking else .ended false }
  | .processing running (m :: queue) =>
    match proto.constructProto callbackLookup m.protoType m.protoData with
    | .ok message =>
      some { s with
        rxCount := s.rxCount + 1
        converter := .calling running message (equalRange callbackLookup m.protoType) queue }
    | .error _ => some { s with converter := .processing running queue }
  | .calling running _ [] queue => some { s with converter := .processing running queue }
  | .calling _ _ (_ :: _) _ => none

/-- One call; the `try` is around the loop over the callbacks. -/
def callStep (outcome : CallOutcome) (s : Receiver π) : Option (Receiver π) :=
  match s.converter with
  | .calling running message (c :: callbacks) queue =>
    some { s with
      calls := s.calls ++ [(c, message)]
      converter :=
        match outcome with
        | .returns => .calling running message callbacks queue
        | .throws => .processing running queue
        | .throwsOther => .ended true }
  | _ => none

/-- The next step of the destructor. -/
def destructorStep (s : Receiver π) : Option (Receiver π) :=
  match s.destructor with
  | .alive | .returned | .aborted => none
  | .waiting => if s.answered then some { s with destructor := .joiningReceiver } else none
  | .joiningReceiver =>
    if s.receiver = .ended then some { s with destructor := .flagging } else none
  | .flagging => some { s with terminateProtoConverter := true, destructor := .notifying }
  | .notifying =>
    some { s with converter := s.converter.notified, destructor := .joiningConverter }
  | .joiningConverter =>
    match s.converter with
    | .ended failed => some { s with destructor := if failed then .aborted else .returned }
    | _ => none

/-- One step of the run; nothing follows an abort. -/
def step (proto : Protobuf π) (callbackLookup : List Str) (s : Receiver π) (a : Action) :
    Option (Receiver π) :=
  if s.destructor = .aborted then none else
  match a with
  | .request =>
    if s.destructor = .alive then some { s with inproc := s.inproc ++ [.configure] } else none
  | .setBatchMode batchSize =>
    if s.destructor = .alive then some { s with batchSize := batchSize } else none
  | .arrive published => some { s with incoming := s.incoming ++ [published] }
  | .poll control message =>
    if s.receiver = .polling ∧ (control ∨ message) ∧ (control → s.inproc ≠ []) ∧
        (message → s.incoming ≠ []) then
      some { s with receiver := if control then .control message else .receiving true }
    else none
  | .interrupt => if s.receiver = .polling then some { s with receiver := .ended } else none
  | .receiver => s.receiverStep
  | .wake =>
    match s.converter with
    | .blocked => some { s with converter := .checking }
    | _ => none
  | .converter => s.converterStep proto callbackLookup
  | .call outcome => s.callStep outcome
  | .destroy =>
    if s.destructor = .alive then
      some { s with inproc := s.inproc ++ [.terminate], destructor := .waiting }
    else none
  | .destructor => s.destructorStep
  | .timeOut => if s.destructor = .waiting then some { s with destructor := .aborted } else none

/-- A receiver with the callbacks of these types. -/
def system (proto : Protobuf π) (callbackLookup : List Str) : Lts (Receiver π) Action :=
  .ofFun start (step proto callbackLookup)

variable (proto : Protobuf π) (callbackLookup : List Str)

/-- The messages that a callback was called with, in the order of its calls. -/
def passedTo (s : Receiver π) (c : ℕ) : List π :=
  (s.calls.filter (·.1 = c)).map Prod.snd

/-- The messages of the type of a callback among those that were taken. -/
def dueTo (s : Receiver π) (c : ℕ) : List π :=
  s.taken.filterMap fun m =>
    if callbackLookup[c]? = some m.protoType then
      (proto.constructProto callbackLookup m.protoType m.protoData).toOption
    else none

/-- The callbacks that are called yet for the message that is begun. -/
def callbacksToCome (s : Receiver π) : List ℕ :=
  match s.converter with
  | .calling _ _ callbacks _ => callbacks
  | _ => []

/-- A call throws no more than a `std::exception`, and only if it is the last one of its message. -/
def Harmless (s : Receiver π) : Action → Prop
  | .call .throws => s.callbacksToCome.length = 1
  | .call .throwsOther => False
  | _ => True

instance (s : Receiver π) (a : Action) : Decidable (s.Harmless a) := by
  unfold Harmless
  split <;> infer_instance

/-- They can go on until the destructor returns. -/
def CanReturn (s : Receiver π) : Prop :=
  ∃ as s', (∀ a ∈ as, a.OfThreads) ∧
    Lts.runBy (step proto callbackLookup) Harmless s as = some s' ∧ s'.destructor = .returned

/-- Each message is passed once to every callback of its type, in the order of the messages, before
the destructor returns. -/
structure Dispatched (s : Receiver π) : Prop where
  inOrder (c : ℕ) : s.passedTo c <+: s.dueTo proto callbackLookup c
  complete (c : ℕ) : s.destructor = .returned → s.passedTo c = s.dueTo proto callbackLookup c
  /-- The destructor can return, unless it was given up or the thread that answers it is gone. -/
  canReturn : s.destructor ≠ .alive → s.destructor ≠ .aborted →
    (s.receiver = .ended → s.answered = true) → s.CanReturn proto callbackLookup

/-- Where each message that is taken is, and what the threads know of each other. -/
structure Books (s : Receiver π) : Prop where
  account : s.calls ++ s.converter.pending ++
    (s.converter.queue ++ s.rxMessageQueue ++ s.receiver.inHand).flatMap
      (due proto callbackLookup) = s.taken.flatMap (due proto callbackLookup)
  joined : s.destructor.Joined → s.receiver = .ended
  flagged : s.terminateProtoConverter = true → s.destructor.Joined ∨ s.destructor = .aborted
  last : s.converter.Last → s.terminateProtoConverter = true ∧ s.rxMessageQueue = []
  returned : s.destructor = .returned → ∃ failed, s.converter = .ended failed

variable {proto callbackLookup} {s s' : Receiver π}

theorem books_start : Books proto callbackLookup (start : Receiver π) where
  account := rfl
  joined h := h.elim
  flagged h := by cases h
  last h := h.elim
  returned h := by cases h

/-- While `ZmqReceiver` runs, `ProtoConverter` comes back to the queue. -/
theorem Books.not_last (h : Books proto callbackLookup s) (halive : s.destructor ≠ .aborted)
    (hreceiver : s.receiver ≠ .ended) : ¬ s.converter.Last := by
  intro hlast
  obtain hjoined | haborted := h.flagged (h.last hlast).1
  · exact hreceiver (h.joined hjoined)
  · exact halive haborted

/-- A step of `ZmqReceiver`, after which there may be more messages. -/
theorem Books.receive (h : Books proto callbackLookup s) (halive : s.destructor ≠ .aborted)
    (hreceiver : s.receiver ≠ .ended) (rest : List RxMessage)
    (hqueue : s'.rxMessageQueue ++ s'.receiver.inHand =
      s.rxMessageQueue ++ s.receiver.inHand ++ rest)
    (htaken : s'.taken = s.taken ++ rest) (hcalls : s'.calls = s.calls)
    (hconverter : s'.converter = s.converter ∨ s'.converter = s.converter.notified)
    (hflag : s'.terminateProtoConverter = s.terminateProtoConverter)
    (hdestructor : s'.destructor = s.destructor) : Books proto callbackLookup s' := by
  have hjoined : ¬ s'.destructor.Joined := by
    rw [hdestructor]
    exact fun hjoined => hreceiver (h.joined hjoined)
  have hsame : s'.converter.pending = s.converter.pending ∧ s'.converter.queue = s.converter.queue ∧
      (s'.converter.Last ↔ s.converter.Last) := by
    obtain hsame | hsame := hconverter <;> simp [hsame]
  obtain ⟨hpending, hswapped, hlast⟩ := hsame
  have hdue : (s.taken ++ rest).flatMap (due proto callbackLookup) =
      s.taken.flatMap (due proto callbackLookup) ++ rest.flatMap (due proto callbackLookup) :=
    List.flatMap_append
  exact {
    account := by
      rw [hcalls, hpending, hswapped, htaken, List.append_assoc s.converter.queue, hqueue, hdue,
        ← h.account]
      simp only [List.flatMap_append, List.append_assoc]
    joined := fun hj => absurd hj hjoined
    flagged := by
      rw [hflag, hdestructor]
      exact h.flagged
    last := fun hl => absurd (hlast.mp hl) (h.not_last halive hreceiver)
    returned := fun hreturned => absurd (by rw [hreturned]; trivial) hjoined }

theorem Books.receiverStep (h : Books proto callbackLookup s) (halive : s.destructor ≠ .aborted)
    (hstep : s.receiverStep = some s') : Books proto callbackLookup s' := by
  unfold Receiver.receiverStep at hstep
  split at hstep
  · cases hstep
  · cases hstep
  · rename_i message hpoint
    split at hstep
    · cases hstep
    · cases hstep
      refine h.receive halive (by simp [hpoint]) [] ?_ (by simp) rfl (.inl rfl) rfl rfl
      cases message <;> simp [hpoint]
  · rename_i running hpoint
    split at hstep
    · cases hstep
    · rename_i published incoming _
      cases hstep
      refine h.receive halive (by simp [hpoint]) [published.message] ?_ rfl rfl (.inl rfl) rfl rfl
      simp [hpoint]
  · rename_i running message hpoint
    cases hstep
    refine h.receive halive (by simp [hpoint]) [] ?_ (by simp) rfl (.inl rfl) rfl rfl
    dsimp only
    split <;> simp [hpoint]
  · rename_i running hpoint
    cases hstep
    refine h.receive halive (by simp [hpoint]) [] ?_ (by simp) rfl (.inr rfl) rfl rfl
    simp [hpoint]

/-- A step of `ProtoConverter` that makes these calls. -/
theorem Books.convert (h : Books proto callbackLookup s)
    (haccount : s'.calls ++ s'.converter.pending ++
        (s'.converter.queue ++ s'.rxMessageQueue).flatMap (due proto callbackLookup) =
      s.calls ++ s.converter.pending ++
        (s.converter.queue ++ s.rxMessageQueue).flatMap (due proto callbackLookup))
    (hlast : s'.converter.Last → s'.terminateProtoConverter = true ∧ s'.rxMessageQueue = [])
    (hrunning : ∀ failed, s.converter ≠ .ended failed) (htaken : s'.taken = s.taken)
    (hreceiver : s'.receiver = s.receiver)
    (hflag : s'.terminateProtoConverter = s.terminateProtoConverter)
    (hdestructor : s'.destructor = s.destructor) : Books proto callbackLookup s' where
  account := by
    rw [List.flatMap_append, ← List.append_assoc, haccount, htaken, hreceiver, ← h.account]
    simp only [List.flatMap_append, List.append_assoc]
  joined := by
    rw [hdestructor, hreceiver]
    exact h.joined
  flagged := by
    rw [hdestructor, hflag]
    exact h.flagged
  last := hlast
  returned hreturned := by
    rw [hdestructor] at hreturned
    obtain ⟨failed, hended⟩ := h.returned hreturned
    exact absurd hended (hrunning failed)

theorem Books.converterStep (h : Books proto callbackLookup s)
    (hstep : s.converterStep proto callbackLookup = some s') : Books proto callbackLookup s' := by
  have hlast := h.last
  unfold Receiver.converterStep at hstep
  split at hstep
  · rename_i hpoint
    split at hstep <;> cases hstep
    · refine h.convert ?_ (fun hl => ?_) (by simp [hpoint]) rfl rfl rfl rfl
      · simp [hpoint, ConverterPoint.pending, ConverterPoint.queue]
      · exact ⟨by simpa [ConverterPoint.Last] using hl, rfl⟩
    · refine h.convert ?_ False.elim (by simp [hpoint]) rfl rfl rfl rfl
      simp [hpoint, ConverterPoint.pending, ConverterPoint.queue]
  · cases hstep
  · cases hstep
  · rename_i running hpoint
    cases hstep
    rw [hpoint] at hlast
    refine h.convert ?_ (fun hl => hlast ?_) (by simp [hpoint]) rfl rfl rfl rfl
    · cases running <;> simp [hpoint, ConverterPoint.pending, ConverterPoint.queue]
    · cases running
      · rfl
      · exact hl.elim
  · rename_i running m queue hpoint
    rw [hpoint] at hlast
    split at hstep
    · rename_i message hconstruct
      cases hstep
      refine h.convert ?_ hlast (by simp [hpoint]) rfl rfl rfl rfl
      simp [hpoint, ConverterPoint.pending, ConverterPoint.queue, due, hconstruct]
    · rename_i hconstruct
      cases hstep
      refine h.convert ?_ hlast (by simp [hpoint]) rfl rfl rfl rfl
      simp [hpoint, ConverterPoint.pending, ConverterPoint.queue, due, hconstruct]
  · rename_i running message queue hpoint
    cases hstep
    rw [hpoint] at hlast
    refine h.convert ?_ hlast (by simp [hpoint]) rfl rfl rfl rfl
    simp [hpoint, ConverterPoint.pending, ConverterPoint.queue]
  · cases hstep

theorem Books.callStep (h : Books proto callbackLookup s) {outcome : CallOutcome}
    (hharmless : s.Harmless (.call outcome)) (hstep : s.callStep outcome = some s') :
    Books proto callbackLookup s' := by
  have hlast := h.last
  unfold Receiver.callStep at hstep
  split at hstep
  · rename_i running message c callbacks queue hpoint
    cases hstep
    rw [hpoint] at hlast
    cases outcome with
    | returns =>
      refine h.convert ?_ hlast (by simp [hpoint]) rfl rfl rfl rfl
      simp [hpoint, ConverterPoint.pending, ConverterPoint.queue]
    | throws =>
      -- It is the last callback, and the loop is at its end.
      obtain rfl : callbacks = [] := by
        simpa [Harmless, callbacksToCome, hpoint] using hharmless
      refine h.convert ?_ hlast (by simp [hpoint]) rfl rfl rfl rfl
      simp [hpoint, ConverterPoint.pending, ConverterPoint.queue]
    | throwsOther => exact hharmless.elim
  · cases hstep

theorem Books.destructorStep (h : Books proto callbackLookup s)
    (hstep : s.destructorStep = some s') : Books proto callbackLookup s' := by
  have hjoined := h.joined
  have hflagged := h.flagged
  unfold Receiver.destructorStep at hstep
  split at hstep
  · cases hstep
  · cases hstep
  · cases hstep
  · rename_i hpoint
    rw [hpoint] at hflagged
    split at hstep <;> cases hstep
    exact {
      account := h.account
      joined := False.elim
      flagged := fun hflag => absurd (hflagged hflag) (by simp [DestructorPoint.Joined])
      last := h.last
      returned := fun hreturned => by cases hreturned }
  · split at hstep <;> cases hstep
    rename_i hended
    exact {
      account := h.account
      joined := fun _ => hended
      flagged := fun _ => .inl trivial
      last := h.last
      returned := fun hreturned => by cases hreturned }
  · rename_i hpoint
    rw [hpoint] at hjoined
    cases hstep
    exact {
      account := h.account
      joined := fun _ => hjoined trivial
      flagged := fun _ => .inl trivial
      last := fun hlast => ⟨rfl, (h.last hlast).2⟩
      returned := fun hreturned => by cases hreturned }
  · rename_i hpoint
    rw [hpoint] at hjoined
    cases hstep
    exact {
      account := by simpa using h.account
      joined := fun _ => hjoined trivial
      flagged := fun _ => .inl trivial
      last := fun hlast => h.last ((ConverterPoint.last_notified _).mp hlast)
      returned := fun hreturned => by cases hreturned }
  · rename_i hpoint
    rw [hpoint] at hjoined
    split at hstep
    · rename_i failed hended
      cases hstep
      exact {
        account := h.account
        joined := fun _ => hjoined trivial
        flagged := fun _ => by cases failed <;> simp [DestructorPoint.Joined]
        last := h.last
        returned := fun _ => ⟨failed, hended⟩ }
    · cases hstep

/-- A step of the users of the receiver or of its sockets. -/
theorem Books.frame (h : Books proto callbackLookup s) (halive : s.destructor ≠ .aborted)
    (hcalls : s'.calls = s.calls) (htaken : s'.taken = s.taken)
    (hqueue : s'.rxMessageQueue = s.rxMessageQueue)
    (hflag : s'.terminateProtoConverter = s.terminateProtoConverter)
    (hconverter : s'.converter = s.converter)
    (hreceiver : s'.receiver = s.receiver ∨
      s'.receiver.inHand = [] ∧ s.receiver.inHand = [] ∧ s.receiver ≠ .ended)
    (hdestructor : s'.destructor = s.destructor ∨
      ¬ s.destructor.Joined ∧ ¬ s'.destructor.Joined) : Books proto callbackLookup s' := by
  have hinHand : s'.receiver.inHand = s.receiver.inHand := by
    obtain hsame | ⟨hafter, hbefore, -⟩ := hreceiver
    · rw [hsame]
    · rw [hafter, hbefore]
  have hjoined : s'.destructor.Joined → s.destructor.Joined := by
    obtain hsame | ⟨-, hnot⟩ := hdestructor
    · rw [hsame]
      exact id
    · exact fun hj => absurd hj hnot
  exact {
    account := by
      rw [hcalls, htaken, hqueue, hconverter, hinHand]
      exact h.account
    joined := fun hj => by
      have hended := h.joined (hjoined hj)
      obtain hsame | ⟨-, -, hrunning⟩ := hreceiver
      · rw [hsame, hended]
      · exact absurd hended hrunning
    flagged := fun hf => by
      rw [hflag] at hf
      obtain hsame | ⟨hnot, -⟩ := hdestructor
      · rw [hsame]
        exact h.flagged hf
      · exact absurd (h.flagged hf) (not_or.mpr ⟨hnot, halive⟩)
    last := by
      rw [hconverter, hflag, hqueue]
      exact h.last
    returned := fun hreturned => by
      obtain hsame | ⟨-, hnot⟩ := hdestructor
      · rw [hconverter]
        exact h.returned (hsame ▸ hreturned)
      · rw [hreturned] at hnot
        exact absurd trivial hnot }

theorem Books.step {a : Action} (h : Books proto callbackLookup s) (hharmless : s.Harmless a)
    (hstep : Receiver.step proto callbackLookup s a = some s') :
    Books proto callbackLookup s' := by
  unfold Receiver.step at hstep
  split at hstep
  · cases hstep
  · rename_i halive
    cases a with
    | request | setBatchMode =>
      dsimp only at hstep
      split at hstep <;> cases hstep
      exact h.frame halive rfl rfl rfl rfl rfl (.inl rfl) (.inl rfl)
    | arrive published =>
      cases hstep
      exact h.frame halive rfl rfl rfl rfl rfl (.inl rfl) (.inl rfl)
    | poll control message =>
      dsimp only at hstep
      split at hstep <;> cases hstep
      rename_i henabled
      refine h.frame halive rfl rfl rfl rfl rfl (.inr ?_) (.inl rfl)
      cases control <;> simp [henabled.1, ReceiverPoint.inHand]
    | interrupt =>
      dsimp only at hstep
      split at hstep <;> cases hstep
      rename_i hpolling
      refine h.frame halive rfl rfl rfl rfl rfl (.inr ?_) (.inl rfl)
      simp [hpolling, ReceiverPoint.inHand]
    | receiver => exact h.receiverStep halive hstep
    | wake =>
      dsimp only at hstep
      split at hstep
      · rename_i hpoint
        cases hstep
        refine h.convert ?_ False.elim (by simp [hpoint]) rfl rfl rfl rfl
        simp [hpoint, ConverterPoint.pending, ConverterPoint.queue]
      · cases hstep
    | converter => exact h.converterStep hstep
    | call outcome => exact h.callStep hharmless hstep
    | destroy =>
      dsimp only at hstep
      split at hstep <;> cases hstep
      rename_i hpoint
      refine h.frame halive rfl rfl rfl rfl rfl (.inl rfl) (.inr ?_)
      simp [hpoint, DestructorPoint.Joined]
    | destructor => exact h.destructorStep hstep
    | timeOut =>
      dsimp only at hstep
      split at hstep <;> cases hstep
      rename_i hpoint
      refine h.frame halive rfl rfl rfl rfl rfl (.inl rfl) (.inr ?_)
      simp [hpoint, DestructorPoint.Joined]

theorem inductive_books :
    (system proto callbackLookup).InductiveBy Harmless (Books proto callbackLookup) where
  init h := by
    subst h
    exact books_start
  step h hharmless hstep := h.step hharmless hstep

end Receiver

end ProtoReceiver

end Sem.Zmq
