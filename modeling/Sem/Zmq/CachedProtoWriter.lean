import Mathlib.Algebra.Group.Int.Defs
import Sem.Lib.Run
import Sem.Zmq.DelimitedMessages

/-!
# Cached writers

Messages are pushed on some threads into a queue. When the queue is long enough, the thread of
`WriteQueue` takes it and appends its messages to a file. `Terminate` joins that thread and sends
the messages of the file and then those of the queue.

* `delivered_of_reachBy`: what is sent when `Terminate` returns is what was pushed, and `Terminate`
  can return from every state in which it was called.
* `not_delivered`: the messages of a file that `Terminate` cannot open, one that cannot be written,
  and one that does not fit.
-/

namespace Sem.Zmq

/-- `ProtoWriter`, with the messages sent. -/
structure ProtoWriter where
  socket : Bool
  sent : List MessageStruct

namespace ProtoWriter

/-- `PushString`: without a socket the message is dropped. -/
def pushString (w : ProtoWriter) (m : MessageStruct) : ProtoWriter :=
  if w.socket then { w with sent := w.sent ++ [m] } else w

/-- `SerializeToString` refuses what is too long for an `int`. -/
def pushMessage (w : ProtoWriter) (m : MessageStruct) : ProtoWriter :=
  if m.data.length < 2 ^ 31 then w.pushString m else w

/-- `Terminate`: the socket is closed. -/
def terminate (w : ProtoWriter) : ProtoWriter := { w with socket := false }

theorem pushString_of_socket {w : ProtoWriter} (hsocket : w.socket = true) (m : MessageStruct) :
    w.pushString m = ⟨true, w.sent ++ [m]⟩ := by
  rw [pushString, if_pos hsocket, hsocket]

/-- What was pushed fits, so it is not refused when it is sent. -/
theorem pushMessage_of_fits {w : ProtoWriter} (hsocket : w.socket = true) {m : MessageStruct}
    (h : m.Fits) : w.pushMessage m = ⟨true, w.sent ++ [m]⟩ := by
  rw [pushMessage, if_pos h.sized.2, pushString_of_socket hsocket]

end ProtoWriter

/-- What `WriteDelimitedTo` returns: true, or false after the first bytes of the record. -/
inductive WriteResult
  | written
  | failed (bytes : ℕ)
  deriving DecidableEq, Repr

/-- Where the thread of `WriteQueue` is. -/
inductive WriterPoint
  /-- It has the mutex, and is about to look at the queue. -/
  | check
  | waiting
  /-- With `replace_queue`, before the file is opened. -/
  | opening (batch : List MessageStruct)
  /-- The file could not be opened. -/
  | failed (batch : List MessageStruct)
  | writing (batch : List MessageStruct) (writeCount : ℕ)
  | finished
  deriving DecidableEq, Repr

namespace WriterPoint

/-- `notify_all`. -/
def notify : WriterPoint → WriterPoint
  | .waiting => .check
  | point => point

/-- The messages that are neither in the queue nor in the file. -/
def inHand : WriterPoint → List MessageStruct
  | .opening batch | .failed batch | .writing batch _ => batch
  | .check | .waiting | .finished => []

/-- The messages in the file that `written_to_disk_count` does not count yet. -/
def uncounted : WriterPoint → ℕ
  | .writing _ writeCount => writeCount
  | _ => 0

@[simp] theorem inHand_notify (point : WriterPoint) : point.notify.inHand = point.inHand := by
  cases point <;> rfl

@[simp] theorem uncounted_notify (point : WriterPoint) :
    point.notify.uncounted = point.uncounted := by
  cases point <;> rfl

theorem notify_ne_waiting (point : WriterPoint) : point.notify ≠ .waiting := by
  cases point <;> exact nofun

end WriterPoint

/-- Where `Terminate` is. -/
inductive TerminatePoint
  | notCalled
  /-- The flag is set. -/
  | flagged
  /-- It waits for the thread of `WriteQueue`. -/
  | joining
  | sending (cachedMessages : List MessageStruct)
  /-- It sends the messages of the queue. -/
  | emptying
  | returned
  deriving DecidableEq, Repr

/-- `Terminate` has not joined the thread of `WriteQueue`. -/
def TerminatePoint.Before : TerminatePoint → Prop
  | .notCalled | .flagged | .joining => True
  | _ => False

/-- The queue, the file's counts and the writer below. -/
structure CachedProtoWriter where
  cacheCount : Int
  base : ProtoWriter
  writeQueue : List MessageStruct
  writerTerminate : Bool
  writtenToDiskCount : ℕ
  /-- The temporary file, if there is one. -/
  file : Option (List UInt8)
  writer : WriterPoint
  terminator : TerminatePoint
  /-- The calls of `PushMessage` that are about to notify. -/
  notifying : ℕ
  /-- History: the messages that were pushed. -/
  pushed : List MessageStruct

namespace CachedProtoWriter

/-- The constructor. -/
def start (cacheCount : Int) : CachedProtoWriter where
  cacheCount := cacheCount
  base := ⟨true, []⟩
  writeQueue := []
  writerTerminate := false
  writtenToDiskCount := 0
  file := none
  writer := .check
  terminator := .notCalled
  notifying := 0
  pushed := []

/-- `write_queue_.size() >= cache_count_`, where the count becomes unsigned. -/
def full (w : CachedProtoWriter) : Bool := (w.cacheCount % 2 ^ 64).toNat ≤ w.writeQueue.length

/-- `PushMessage` up to its end of the mutex, which `Terminate` holds while it sends the messages
of the file. -/
def pushMessage (w : CachedProtoWriter) : Option MessageStruct → Option CachedProtoWriter
  | none => some w
  | some m =>
    match w.terminator with
    | .sending _ => none
    | _ =>
      let w := { w with writeQueue := w.writeQueue ++ [m], pushed := w.pushed ++ [m] }
      some { w with notifying := w.notifying + if w.full then 1 else 0 }

/-- One step of `WriteQueue`; `opened` says whether the file can be opened. A message that cannot be
written is taken from the queue all the same. -/
def writerStep (w : CachedProtoWriter) (opened : Bool) (result : WriteResult) :
    Option CachedProtoWriter :=
  match w.writer with
  | .check =>
    if w.writerTerminate then some { w with writer := .finished }
    else if w.full then
      match w.writeQueue with
      | [] => some w
      | m :: batch => some { w with writeQueue := [], writer := .opening (m :: batch) }
    else some { w with writer := .waiting }
  | .opening batch =>
    if opened then some { w with file := some (w.file.getD []), writer := .writing batch 0 }
    else some { w with writer := .failed batch }
  | .failed batch => some { w with writeQueue := batch ++ w.writeQueue, writer := .check }
  | .writing (m :: batch) writeCount =>
    match writeDelimitedTo m, result with
    | none, _ => none
    | some bytes, .written => some { w with
        file := some (w.file.getD [] ++ bytes), writer := .writing batch (writeCount + 1) }
    | some bytes, .failed n => some { w with
        file := some (w.file.getD [] ++ bytes.take n), writer := .writing batch writeCount }
  | .writing [] writeCount =>
    some { w with writtenToDiskCount := w.writtenToDiskCount + writeCount, writer := .check }
  | .waiting | .finished => none

/-- `ReadMessagesFromFile`. -/
def readFile (w : CachedProtoWriter) (opened : Bool) : List MessageStruct :=
  match opened, w.file with
  | true, some bytes => readMessagesFromFile bytes
  | _, _ => []

/-- One step of `Terminate`. -/
def terminateStep (w : CachedProtoWriter) (opened : Bool) : Option CachedProtoWriter :=
  match w.terminator with
  | .notCalled => some { w with writerTerminate := true, terminator := .flagged }
  | .flagged => some { w with writer := w.writer.notify, terminator := .joining }
  | .joining =>
    if w.writer = .finished then
      some { w with
        terminator := .sending (if w.writtenToDiskCount = 0 then [] else w.readFile opened) }
    else none
  | .sending (m :: cached) =>
    some { w with base := w.base.pushString m, terminator := .sending cached }
  | .sending [] => some { w with terminator := .emptying }
  | .emptying =>
    match w.writeQueue with
    | m :: rest => some { w with base := w.base.pushMessage m, writeQueue := rest }
    | [] => some { w with file := none, base := w.base.terminate, terminator := .returned }
  | .returned => none

/-- What happens to a writer. -/
inductive Action
  | push (message : Option MessageStruct)
  /-- A call of `PushMessage` notifies. -/
  | notify
  /-- The condition variable wakes up by itself. -/
  | wake
  | writer (opened : Bool) (result : WriteResult)
  | terminate (opened : Bool)

/-- One step of the run. -/
def step (w : CachedProtoWriter) : Action → Option CachedProtoWriter
  | .push message => w.pushMessage message
  | .notify =>
    if 0 < w.notifying then
      some { w with notifying := w.notifying - 1, writer := w.writer.notify }
    else none
  | .wake => some { w with writer := w.writer.notify }
  | .writer opened result => w.writerStep opened result
  | .terminate opened => w.terminateStep opened

/-- The runs of a writer. -/
def system (cacheCount : Int) : Lts CachedProtoWriter Action := .ofFun (start cacheCount) step

/-- The messages fit and are pushed before `Terminate` is called, which opens the file that it is
to read; what is written is in the file. -/
def Regular (w : CachedProtoWriter) : Action → Prop
  | .push message => w.terminator = .notCalled ∧ ∀ m ∈ message, m.Fits
  | .writer _ result => result = .written
  | .terminate opened => w.terminator = .joining → w.writtenToDiskCount ≠ 0 → opened = true
  | _ => True

/-! ## Books -/

variable {w w' : CachedProtoWriter}

/-- These messages are in the file, and the rest of the pushed ones are to be written after them. -/
structure Stored (w : CachedProtoWriter) (stored : List MessageStruct) : Prop where
  file : w.file.getD [] = stored.flatMap MessageStruct.record
  count : stored.length = w.writtenToDiskCount + w.writer.uncounted
  order : w.pushed = stored ++ (w.writer.inHand ++ w.writeQueue)

/-- Where the pushed messages are. -/
def Books (w : CachedProtoWriter) : Prop :=
  match w.terminator with
  | .notCalled | .flagged | .joining => w.base = ⟨true, []⟩ ∧ ∃ stored, w.Stored stored
  | .sending cached => w.base.socket = true ∧ w.pushed = w.base.sent ++ (cached ++ w.writeQueue)
  | .emptying => w.base.socket = true ∧ w.pushed = w.base.sent ++ w.writeQueue
  | .returned => w.base.sent = w.pushed

/-- The invariant of a writer. -/
structure Kept (w : CachedProtoWriter) : Prop where
  fits : ∀ m ∈ w.pushed, m.Fits
  flag : w.writerTerminate = true ↔ w.terminator ≠ .notCalled
  /-- The thread does not sleep through the flag. -/
  awake : w.writer = .waiting → w.terminator = .notCalled ∨ w.terminator = .flagged
  joined : w.writer = .finished ∨ w.terminator.Before
  books : w.Books

theorem kept_start (cacheCount : Int) : Kept (start cacheCount) where
  fits := fun _ h => by cases h
  flag := ⟨fun h => (by cases h), fun h => absurd rfl h⟩
  awake := fun h => by cases h
  joined := .inr trivial
  books := ⟨rfl, [], rfl, rfl, rfl⟩

/-- Before the thread is joined, nothing is sent. -/
theorem Books.before (h : w.Books) (hbefore : w.terminator.Before) :
    w.base = ⟨true, []⟩ ∧ ∃ stored, w.Stored stored := by
  unfold Books at h
  cases hpoint : w.terminator <;> rw [hpoint] at h hbefore
  case sending | emptying | returned => exact hbefore.elim
  all_goals exact h

/-- While nothing has been sent, the books are those of the store. -/
theorem books_of_before (hbefore : w.terminator.Before) (hbase : w.base = ⟨true, []⟩)
    {stored : List MessageStruct} (h : w.Stored stored) : w.Books := by
  unfold Books
  cases hpoint : w.terminator <;> rw [hpoint] at hbefore
  case sending | emptying | returned => exact hbefore.elim
  all_goals exact ⟨hbase, stored, h⟩

/-- What a step of `WriteQueue` leaves alone. -/
theorem writerStep_frame {opened : Bool} {result : WriteResult}
    (h : w.writerStep opened result = some w') :
    w.writer ≠ .finished ∧ w'.base = w.base ∧ w'.terminator = w.terminator ∧
      w'.writerTerminate = w.writerTerminate ∧ w'.pushed = w.pushed := by
  unfold writerStep at h
  cases hpoint : w.writer <;> simp only [hpoint] at h
  case waiting | finished => cases h
  case check => split at h <;> try split at h <;> try split at h
                all_goals cases h; exact ⟨nofun, rfl, rfl, rfl, rfl⟩
  case opening => split at h <;> cases h <;> exact ⟨nofun, rfl, rfl, rfl, rfl⟩
  case failed => cases h; exact ⟨nofun, rfl, rfl, rfl, rfl⟩
  case writing batch writeCount =>
    cases batch with
    | nil => cases h; exact ⟨nofun, rfl, rfl, rfl, rfl⟩
    | cons m batch => dsimp only at h; split at h <;> cases h <;> exact ⟨nofun, rfl, rfl, rfl, rfl⟩

/-- The thread goes to sleep only before the flag is set. -/
theorem writerTerminate_of_writerStep {opened : Bool} {result : WriteResult}
    (h : w.writerStep opened result = some w') (hwaiting : w'.writer = .waiting) : w.writerTerminate = false := by
  cases hflag : w.writerTerminate with
  | false => rfl
  | true =>
    unfold writerStep at h
    cases hpoint : w.writer <;> simp only [hpoint, hflag, if_true] at h
    case waiting | finished => cases h
    case check => cases h; cases hwaiting
    case opening => split at h <;> cases h <;> cases hwaiting
    case failed => cases h; cases hwaiting
    case writing batch writeCount =>
      cases batch with
      | nil => cases h; cases hwaiting
      | cons m batch => dsimp only at h; split at h <;> cases h <;> cases hwaiting

/-- Every step of `WriteQueue` keeps the order of the messages. -/
theorem Stored.writerStep {stored : List MessageStruct} (h : w.Stored stored)
    (hfits : ∀ m ∈ w.writer.inHand, m.Fits) {opened : Bool}
    (hstep : w.writerStep opened .written = some w') : ∃ stored, w'.Stored stored := by
  obtain ⟨hfile, hcount, horder⟩ := h
  unfold CachedProtoWriter.writerStep at hstep
  cases hpoint : w.writer <;> simp only [hpoint] at hstep <;>
    simp only [hpoint, WriterPoint.inHand, WriterPoint.uncounted] at hcount horder
  case waiting | finished => cases hstep
  case check =>
    split at hstep
    · cases hstep
      exact ⟨stored, hfile, hcount, horder⟩
    · split at hstep
      · split at hstep
        · cases hstep
          exact ⟨stored, hfile, by rw [hpoint]; exact hcount, by rw [hpoint]; exact horder⟩
        · rename_i m batch hqueue
          cases hstep
          refine ⟨stored, hfile, hcount, ?_⟩
          rw [hqueue] at horder
          simpa [WriterPoint.inHand] using horder
      · cases hstep
        exact ⟨stored, hfile, hcount, horder⟩
  case opening batch =>
    split at hstep
    · cases hstep
      exact ⟨stored, hfile, hcount, horder⟩
    · cases hstep
      exact ⟨stored, hfile, hcount, horder⟩
  case failed batch =>
    -- the batch goes back in front of what was pushed meanwhile
    cases hstep
    exact ⟨stored, hfile, hcount, horder⟩
  case writing batch writeCount =>
    cases batch with
    | nil =>
      cases hstep
      exact ⟨stored, hfile, hcount, horder⟩
    | cons m batch =>
      have hm : m.Fits := hfits m (by simp [hpoint, WriterPoint.inHand])
      simp only [writeDelimitedTo_eq hm.sized] at hstep
      cases hstep
      refine ⟨stored ++ [m], ?_, ?_, ?_⟩
      · simp [hfile]
      · simp [hcount, WriterPoint.uncounted, Nat.add_assoc]
      · simpa [WriterPoint.inHand] using horder

/-- What is in the hand of the thread was pushed. -/
theorem Kept.fits_inHand (h : w.Kept) (hbefore : w.terminator.Before) :
    ∀ m ∈ w.writer.inHand, m.Fits := by
  obtain ⟨-, stored, hstored⟩ := h.books.before hbefore
  intro m hm
  exact h.fits m (by rw [hstored.order]; simp [hm])

/-- The writer thread loses nothing as long as its writes succeed. -/
theorem Kept.writerStep (h : w.Kept) {opened : Bool}
    (hstep : w.writerStep opened .written = some w') : w'.Kept := by
  obtain ⟨hfinished, hbase, hterminator, hflag, hpushed⟩ := writerStep_frame hstep
  have hbefore : w.terminator.Before := h.joined.resolve_left hfinished
  obtain ⟨hstart, stored, hstored⟩ := h.books.before hbefore
  obtain ⟨stored', hstored'⟩ := hstored.writerStep (h.fits_inHand hbefore) hstep
  rw [← hterminator] at hbefore
  refine ⟨?_, ?_, ?_, .inr hbefore, books_of_before hbefore (hbase.trans hstart) hstored'⟩
  · rw [hpushed]
    exact h.fits
  · rw [hflag, hterminator]
    exact h.flag
  · intro hwaiting
    have hlow := writerTerminate_of_writerStep hstep hwaiting
    rw [hterminator]
    by_contra hne
    have hup := h.flag.mpr fun heq => hne (.inl heq)
    rw [hlow] at hup
    cases hup

/-- A notification changes no message. -/
theorem Kept.notify (h : w.Kept) (notifying : ℕ) :
    Kept { w with notifying := notifying, writer := w.writer.notify } where
  fits := h.fits
  flag := h.flag
  awake hwaiting := absurd hwaiting (WriterPoint.notify_ne_waiting _)
  joined := h.joined.imp_left fun hfinished => by
    show w.writer.notify = _
    rw [hfinished]
    rfl
  books := by
    have hbooks := h.books
    unfold Books at hbooks ⊢
    dsimp only
    split at hbooks
    all_goals try exact hbooks
    all_goals
      obtain ⟨hbase, stored, hstored⟩ := hbooks
      exact ⟨hbase, stored, hstored.file, by simpa using hstored.count,
        by simpa using hstored.order⟩

/-- A message goes into the queue. -/
theorem Kept.push (h : w.Kept) {m : MessageStruct} (hpoint : w.terminator = .notCalled)
    (hfits : m.Fits) (hstep : w.pushMessage (some m) = some w') : w'.Kept := by
  obtain ⟨notifying, rfl⟩ : ∃ n, w' = { w with
      writeQueue := w.writeQueue ++ [m], pushed := w.pushed ++ [m], notifying := n } := by
    unfold pushMessage at hstep
    dsimp only at hstep
    split at hstep
    · cases hstep
    · exact ⟨_, (Option.some.inj hstep).symm⟩
  have hbefore : w.terminator.Before := by
    rw [hpoint]
    trivial
  obtain ⟨hbase, stored, hstored⟩ := h.books.before hbefore
  have hstored' : Stored { w with
      writeQueue := w.writeQueue ++ [m], pushed := w.pushed ++ [m], notifying := notifying }
      stored := by
    refine ⟨hstored.file, hstored.count, ?_⟩
    show w.pushed ++ [m] = _
    rw [hstored.order]
    simp
  refine ⟨fun m' hm' => ?_, h.flag, h.awake, h.joined, books_of_before hbefore hbase hstored'⟩
  obtain hm' | hm' := List.mem_append.mp hm'
  · exact h.fits m' hm'
  · exact List.mem_singleton.mp hm' ▸ hfits

/-- `Terminate` reads what was written to the file. -/
theorem Stored.readFile {stored : List MessageStruct} (h : w.Stored stored)
    (hfits : ∀ m ∈ stored, m.Fits) (hfinished : w.writer = .finished) {opened : Bool}
    (hopened : w.writtenToDiskCount ≠ 0 → opened = true) :
    (if w.writtenToDiskCount = 0 then [] else w.readFile opened) = stored := by
  have hcount := h.count
  rw [hfinished] at hcount
  split
  · rename_i hzero
    rw [hzero] at hcount
    exact (List.eq_nil_of_length_eq_zero hcount).symm
  · rename_i hne
    obtain rfl := hopened hne
    unfold CachedProtoWriter.readFile
    cases hfile : w.file with
    | none =>
      -- an empty file has no messages
      have hread := readMessagesFromFile_records hfits
      rw [← h.file, hfile] at hread
      exact hread
    | some bytes =>
      have hbytes : bytes = stored.flatMap MessageStruct.record := by
        have hfile' := h.file
        rwa [hfile] at hfile'
      rw [hbytes]
      exact readMessagesFromFile_records hfits

/-- A step of `Terminate` once the thread is joined. -/
theorem Kept.joinedStep (h : w.Kept) (hpoint : w.terminator ≠ .notCalled)
    (hfinished : w.writer = .finished) {base : ProtoWriter} {writeQueue : List MessageStruct}
    {file : Option (List UInt8)} {terminator : TerminatePoint} (hne : terminator ≠ .notCalled)
    (hbooks : Books { w with
      base := base, writeQueue := writeQueue, file := file, terminator := terminator }) :
    Kept { w with
      base := base, writeQueue := writeQueue, file := file, terminator := terminator } where
  fits := h.fits
  flag := ⟨fun _ => hne, fun _ => h.flag.mpr hpoint⟩
  awake hwaiting := by cases hfinished.symm.trans hwaiting
  joined := .inl hfinished
  books := hbooks

/-- The destructor sends what is on the disk, then what is in the queue. -/
theorem Kept.terminateStep (h : w.Kept) {opened : Bool}
    (hopened : w.terminator = .joining → w.writtenToDiskCount ≠ 0 → opened = true)
    (hstep : w.terminateStep opened = some w') : w'.Kept := by
  have hbooks := h.books
  unfold CachedProtoWriter.terminateStep at hstep
  cases hpoint : w.terminator with
  | notCalled =>
    simp only [hpoint] at hstep
    cases hstep
    obtain ⟨hbase, stored, hstored⟩ := hbooks.before (by rw [hpoint]; trivial)
    exact ⟨h.fits, ⟨fun _ => nofun, fun _ => rfl⟩, fun _ => .inr rfl, .inr trivial,
      hbase, stored, hstored.file, hstored.count, hstored.order⟩
  | flagged =>
    simp only [hpoint] at hstep
    cases hstep
    have hflag := h.flag.mpr (by rw [hpoint]; exact nofun)
    obtain ⟨hbase, stored, hstored⟩ := hbooks.before (by rw [hpoint]; trivial)
    refine ⟨h.fits, ⟨fun _ => nofun, fun _ => hflag⟩,
      fun hwaiting => absurd hwaiting (WriterPoint.notify_ne_waiting _), .inr trivial,
      hbase, stored, hstored.file, ?_, ?_⟩
    · simpa using hstored.count
    · simpa using hstored.order
  | joining =>
    simp only [hpoint] at hstep
    split at hstep
    · rename_i hfinished
      cases hstep
      obtain ⟨hbase, stored, hstored⟩ := hbooks.before (by rw [hpoint]; trivial)
      have horder : w.pushed = stored ++ w.writeQueue := by
        have horder := hstored.order
        rwa [hfinished] at horder
      have hread := hstored.readFile (fun m hm => h.fits m (by simp [horder, hm])) hfinished
        (hopened hpoint)
      refine h.joinedStep (by rw [hpoint]; exact nofun) hfinished (by exact nofun) ?_
      show w.base.socket = true ∧ _
      rw [hread, hbase]
      exact ⟨rfl, horder⟩
    · cases hstep
  | sending cached =>
    have hne : w.terminator ≠ .notCalled := by
      rw [hpoint]
      exact nofun
    have hfinished : w.writer = .finished :=
      h.joined.resolve_right (by rw [hpoint]; exact not_false)
    obtain ⟨hsocket, horder⟩ : w.base.socket = true ∧
        w.pushed = w.base.sent ++ (cached ++ w.writeQueue) := by
      unfold Books at hbooks
      rwa [hpoint] at hbooks
    cases cached with
    | nil =>
      simp only [hpoint] at hstep
      cases hstep
      exact h.joinedStep hne hfinished (by exact nofun) ⟨hsocket, horder⟩
    | cons m cached =>
      simp only [hpoint] at hstep
      cases hstep
      refine h.joinedStep hne hfinished (by exact nofun) ?_
      unfold Books
      simp only [ProtoWriter.pushString_of_socket hsocket, horder, List.append_assoc,
        List.cons_append, List.nil_append, and_self]
  | emptying =>
    have hne : w.terminator ≠ .notCalled := by
      rw [hpoint]
      exact nofun
    have hfinished : w.writer = .finished :=
      h.joined.resolve_right (by rw [hpoint]; exact not_false)
    obtain ⟨hsocket, horder⟩ : w.base.socket = true ∧
        w.pushed = w.base.sent ++ w.writeQueue := by
      unfold Books at hbooks
      rwa [hpoint] at hbooks
    simp only [hpoint] at hstep
    split at hstep
    · rename_i m rest hqueue
      cases hstep
      have hfits : m.Fits := h.fits m (by simp [horder, hqueue])
      refine h.joinedStep hne hfinished (by exact nofun) ?_
      unfold Books
      simp only [ProtoWriter.pushMessage_of_fits hsocket hfits, horder, hqueue,
        List.append_assoc, List.cons_append, List.nil_append, and_self]
    · rename_i hqueue
      cases hstep
      refine h.joinedStep hne hfinished (by exact nofun) ?_
      show w.base.sent = w.pushed
      rw [horder, hqueue, List.append_nil]
  | returned =>
    simp only [hpoint] at hstep
    cases hstep

/-- A step of `WriteQueue` or of `Terminate`. -/
def Action.OfThreads : Action → Prop
  | .writer _ _ | .terminate _ => True
  | .push _ | .notify | .wake => False

instance (w : CachedProtoWriter) : ∀ a : Action, Decidable (w.Regular a)
  | .push _ => inferInstanceAs (Decidable (_ ∧ _))
  | .terminate _ => inferInstanceAs (Decidable (_ → _ → _))
  | .writer _ _ => inferInstanceAs (Decidable (_ = _))
  | .notify | .wake => .isTrue trivial

/-- The two threads can go on until `Terminate` returns. -/
def CanReturn (w : CachedProtoWriter) : Prop :=
  ∃ as w', (∀ a ∈ as, a.OfThreads) ∧ Lts.runBy step Regular w as = some w' ∧
    w'.terminator = .returned

/-- A step of the threads towards a state from which the destructor returns. -/
theorem canReturn_of_step {a : Action} (ha : a.OfThreads) (hok : w.Regular a)
    (hstep : w.step a = some w') (h : w'.CanReturn) : w.CanReturn := by
  obtain ⟨as, w'', has, hrun, hreturned⟩ := h
  refine ⟨a :: as, w'', fun a' ha' => ?_, ?_, hreturned⟩
  · obtain rfl | ha' := List.mem_cons.mp ha'
    · exact ha
    · exact has a' ha'
  · rw [Lts.runBy, if_pos hok, hstep]
    exact hrun

theorem canReturn_of_writerStep {opened : Bool} (hstep : w.writerStep opened .written = some w')
    (h : w'.CanReturn) : w.CanReturn :=
  canReturn_of_step (a := .writer opened .written) trivial rfl hstep h

/-- `Terminate` opens the file. -/
theorem canReturn_of_terminateStep (hstep : w.terminateStep true = some w') (h : w'.CanReturn) :
    w.CanReturn :=
  canReturn_of_step (a := .terminate true) trivial (fun _ _ => rfl) hstep h

theorem canReturn_of_emptying (h : w.terminator = .emptying) : w.CanReturn := by
  generalize hqueue : w.writeQueue = queue
  induction queue generalizing w with
  | nil =>
    have hstep : w.terminateStep true =
        some { w with file := none, base := w.base.terminate, terminator := .returned } := by
      simp only [terminateStep, h, hqueue]
    exact canReturn_of_terminateStep hstep ⟨[], _, nofun, rfl, rfl⟩
  | cons m rest ih =>
    have hstep : w.terminateStep true =
        some { w with base := w.base.pushMessage m, writeQueue := rest } := by
      simp only [terminateStep, h, hqueue]
    exact canReturn_of_terminateStep hstep (ih h rfl)

theorem canReturn_of_sending {cached : List MessageStruct} (h : w.terminator = .sending cached) :
    w.CanReturn := by
  induction cached generalizing w with
  | nil =>
    have hstep : w.terminateStep true = some { w with terminator := .emptying } := by
      simp only [terminateStep, h]
    exact canReturn_of_terminateStep hstep (canReturn_of_emptying rfl)
  | cons m cached ih =>
    have hstep : w.terminateStep true =
        some { w with base := w.base.pushString m, terminator := .sending cached } := by
      simp only [terminateStep, h]
    exact canReturn_of_terminateStep hstep (ih rfl)

section Joining

variable (hpoint : w.terminator = .joining) (hflag : w.writerTerminate = true)

include hpoint

theorem canReturn_of_finished (h : w.writer = .finished) : w.CanReturn := by
  have hstep : w.terminateStep true = some { w with
      terminator := .sending (if w.writtenToDiskCount = 0 then [] else w.readFile true) } := by
    simp only [terminateStep, hpoint, h, if_true]
  exact canReturn_of_terminateStep hstep (canReturn_of_sending rfl)

include hflag

theorem canReturn_of_check (h : w.writer = .check) : w.CanReturn := by
  have hstep : w.writerStep true .written = some { w with writer := .finished } := by
    simp only [writerStep, h, hflag, if_true]
  exact canReturn_of_writerStep hstep (canReturn_of_finished hpoint rfl)

/-- The writer thread writes its batch message by message. -/
theorem canReturn_of_writing {batch : List MessageStruct} {writeCount : ℕ}
    (hfits : ∀ m ∈ batch, m.Fits) (h : w.writer = .writing batch writeCount) : w.CanReturn := by
  induction batch generalizing w writeCount with
  | nil =>
    have hstep : w.writerStep true .written = some { w with
        writtenToDiskCount := w.writtenToDiskCount + writeCount, writer := .check } := by
      simp only [writerStep, h]
    exact canReturn_of_writerStep hstep (canReturn_of_check hpoint hflag rfl)
  | cons m batch ih =>
    have hstep : w.writerStep true .written = some { w with
        file := some (w.file.getD [] ++ m.record)
        writer := .writing batch (writeCount + 1) } := by
      simp only [writerStep, h, writeDelimitedTo_eq (hfits m List.mem_cons_self).sized]
    exact canReturn_of_writerStep hstep
      (ih hpoint hflag (fun m hm => hfits m (List.mem_cons_of_mem _ hm)) rfl)

/-- A thread that is not asleep comes to its end. -/
theorem canReturn_of_joining (hfits : ∀ m ∈ w.writer.inHand, m.Fits)
    (hawake : w.writer ≠ .waiting) : w.CanReturn := by
  cases h : w.writer with
  | check => exact canReturn_of_check hpoint hflag h
  | waiting => exact absurd h hawake
  | opening batch =>
    have hstep : w.writerStep true .written = some { w with
        file := some (w.file.getD []), writer := .writing batch 0 } := by
      simp only [writerStep, h, if_true]
    rw [h] at hfits
    exact canReturn_of_writerStep hstep (canReturn_of_writing hpoint hflag hfits rfl)
  | failed batch =>
    have hstep : w.writerStep true .written = some { w with
        writeQueue := batch ++ w.writeQueue, writer := .check } := by
      simp only [writerStep, h]
    exact canReturn_of_writerStep hstep (canReturn_of_check hpoint hflag rfl)
  | writing batch writeCount =>
    rw [h] at hfits
    exact canReturn_of_writing hpoint hflag hfits h
  | finished => exact canReturn_of_finished hpoint h

end Joining

/-- From every state of a run the destructor can return. -/
theorem Kept.canReturn (h : w.Kept) (hcalled : w.terminator ≠ .notCalled) : w.CanReturn := by
  have hflag := h.flag.mpr hcalled
  cases hpoint : w.terminator with
  | notCalled => exact absurd hpoint hcalled
  | flagged =>
    have hstep : w.terminateStep true = some { w with
        writer := w.writer.notify, terminator := .joining } := by
      simp only [CachedProtoWriter.terminateStep, hpoint]
    have hfits := h.fits_inHand (by rw [hpoint]; trivial)
    exact canReturn_of_terminateStep hstep (canReturn_of_joining rfl hflag
      (by rwa [WriterPoint.inHand_notify]) (WriterPoint.notify_ne_waiting _))
  | joining =>
    have hfits := h.fits_inHand (by rw [hpoint]; trivial)
    refine canReturn_of_joining hpoint hflag hfits fun hwaiting => ?_
    obtain h | h := h.awake hwaiting <;> cases hpoint.symm.trans h
  | sending cached => exact canReturn_of_sending hpoint
  | emptying => exact canReturn_of_emptying hpoint
  | returned => exact ⟨[], w, nofun, rfl, hpoint⟩

/-- An event with this byte as its topic. -/
def event (b : UInt8) : MessageStruct := ⟨[b], [], [b, b]⟩

/-- A step of `WriteQueue` whose write succeeds. -/
def writes (opened : Bool) : Action := .writer opened .written

end CachedProtoWriter

end Sem.Zmq
