import Sem.Lib.Segments
import Mathlib.Data.UInt

/-!
# Framing of the TCP worker

`HandleAccept` reads from a connection, at most 1024 bytes at a time, splits what it read at the
delimiter and puts the messages on a queue. The variable that is to carry a partial message to the
next read is shadowed by the one that the read returns.

* `framed_iff`: the messages on the queue are the segments of the stream exactly if, in every read
  with a delimiter, what follows the last one is what was held back before the read.
* `not_framed`: a message that is cut in two.
-/

namespace Sem.Workers

/-- Messages are bytes. -/
abbrev Message := List UInt8

namespace TcpWorkerImpl

/-- The body of the loop of `SplitMessage`, on `messages` and `current`. -/
def splitElement (delimiter : UInt8) (acc : List Message × Message) (element : UInt8) :
    List Message × Message :=
  if element = delimiter then (acc.1 ++ [acc.2], []) else (acc.1, acc.2 ++ [element])

/-- `SplitMessage`: the parts that are complete, and the rest. -/
def splitMessage (message : Message) (delimiter : Option UInt8) : List Message × Option Message :=
  match delimiter with
  | none => ([message], none)
  | some delimiter =>
    let (messages, current) := message.foldl (splitElement delimiter) ([], [])
    -- a partial message is returned also when it is empty
    (messages, some (if current ≠ [] then current else []))

/-- The loop of `HandleAccept` over the messages of a read. -/
def emplaceMessages (queue : List Message) : List Message → Option Message → List Message
  | [], _ => queue
  | message :: messages, some partialMessage =>
    emplaceMessages (queue ++ [partialMessage ++ message]) messages none
  | message :: messages, none => emplaceMessages (queue ++ [message]) messages none

/-- The messages and the partial message are those of this read: the partial message declared
before the loop is hidden by them, and stays empty. -/
def handleRead (delimiter : Option UInt8) (queue : List Message) (data : Message) : List Message :=
  let (messages, partialMessage) := splitMessage data delimiter
  emplaceMessages queue messages partialMessage

/-- `HandleAccept`, from the reads of a connection. -/
def handleAccept (delimiter : Option UInt8) (queue : List Message) (reads : List Message) :
    List Message :=
  reads.foldl (handleRead delimiter) queue

/-- What a connection is to put on the queue. -/
def Framed (delimiter : Option UInt8) (queue reads : List Message) : Prop :=
  ∃ put, handleAccept delimiter queue reads = queue ++ put ∧
    match delimiter with
    | some d => put = segments d reads.flatten
    | none => put.flatten = reads.flatten

/-! ## The splitter -/

variable {d : UInt8} {delimiter : Option UInt8} {queue reads : List Message}

theorem foldl_splitElement (d : UInt8) (done message : Message) :
    message.foldl (splitElement d) (segments d done, remainder d done) =
      (segments d (done ++ message), remainder d (done ++ message)) := by
  induction message generalizing done with
  | nil => simp
  | cons element message ih =>
    have hstep : splitElement d (segments d done, remainder d done) element =
        (segments d (done ++ [element]), remainder d (done ++ [element])) := by
      unfold splitElement
      by_cases h : element = d
      · subst h
        obtain ⟨hs, hr⟩ := segments_concat_self element done
        simp [hs, hr]
      · obtain ⟨hs, hr⟩ := segments_concat_of_ne h done
        simp [h, hs, hr]
    rw [List.foldl_cons, hstep, ih]
    simp

/-- `SplitMessage` is right about the read. -/
theorem splitMessage_some (message : Message) (d : UInt8) :
    splitMessage message (some d) = (segments d message, some (remainder d message)) := by
  have h := foldl_splitElement d [] message
  rw [segments_nil, remainder_nil, List.nil_append] at h
  show (_, some _) = _
  rw [h]
  by_cases hr : remainder d message = []
  · simp [hr]
  · simp [hr]

/-! ## The queue -/

theorem emplaceMessages_none (queue messages : List Message) :
    emplaceMessages queue messages none = queue ++ messages := by
  induction messages generalizing queue with
  | nil => simp [emplaceMessages]
  | cons message messages ih =>
    rw [emplaceMessages, ih]
    simp

theorem emplaceMessages_some (queue messages : List Message) (partialMessage : Message) :
    emplaceMessages queue messages (some partialMessage) =
      queue ++ prepend partialMessage messages := by
  cases messages with
  | nil => simp [emplaceMessages]
  | cons message messages =>
    rw [emplaceMessages, emplaceMessages_none]
    simp

/-- The end of a read is put in front of its first message. -/
theorem handleAccept_some (d : UInt8) (queue reads : List Message) :
    handleAccept (some d) queue reads =
      queue ++ reads.flatMap fun read => prepend (remainder d read) (segments d read) := by
  induction reads generalizing queue with
  | nil => simp [handleAccept]
  | cons read reads ih =>
    have hread : handleRead (some d) queue read =
        queue ++ prepend (remainder d read) (segments d read) := by
      unfold handleRead
      rw [splitMessage_some]
      exact emplaceMessages_some _ _ _
    show handleAccept (some d) (handleRead (some d) queue read) reads = _
    rw [ih, hread]
    simp

/-- Without a delimiter the reads are the messages. -/
theorem handleAccept_none (queue reads : List Message) :
    handleAccept none queue reads = queue ++ reads := by
  induction reads generalizing queue with
  | nil => simp [handleAccept]
  | cons read reads ih =>
    show handleAccept none (handleRead none queue read) reads = _
    rw [ih]
    simp [handleRead, splitMessage, emplaceMessages]

/-! ## The segments of the stream -/

/-- Of every read, the first segment is to begin with what was held back before the read. -/
theorem segments_flatten_iff (d : UInt8) (before : Message) (reads : List Message) :
    (reads.flatMap fun read => prepend (remainder d read) (segments d read)) =
        prepend (remainder d before) (segments d reads.flatten) ↔
      ∀ pre read post, reads = pre ++ read :: post → d ∈ read →
        remainder d read = remainder d (before ++ pre.flatten) := by
  induction reads generalizing before with
  | nil => simp
  | cons read reads ih =>
    obtain ⟨hs, hr⟩ := segments_append d read reads.flatten
    obtain ⟨hs', hr'⟩ := segments_append d before read
    have hsplit : prepend (remainder d before) (segments d (read :: reads).flatten) =
        prepend (remainder d before) (segments d read) ++
          prepend (remainder d (before ++ read)) (segments d reads.flatten) := by
      rw [List.flatten_cons, hs, hr']
      cases segments d read <;> simp [prepend_prepend]
    rw [List.flatMap_cons, hsplit]
    -- read by read there are as many messages as segments
    have happend : ∀ {a b a' b' : List Message}, a.length = a'.length →
        (a ++ b = a' ++ b' ↔ a = a' ∧ b = b') :=
      fun hlength => ⟨fun h => List.append_inj h hlength, fun ⟨h, h'⟩ => by rw [h, h']⟩
    rw [happend (by simp), prepend_eq_iff, segments_ne_nil_iff, ih]
    constructor
    · rintro ⟨hread, hrest⟩ pre read' post hreads hmem
      cases pre with
      | nil =>
        obtain ⟨rfl, rfl⟩ := List.cons.inj hreads
        simpa using hread hmem
      | cons first pre =>
        obtain ⟨rfl, rfl⟩ := List.cons.inj hreads
        simpa using hrest pre read' post rfl hmem
    · intro h
      refine ⟨fun hmem => by simpa using h [] read reads rfl hmem, fun pre read' post hreads hmem => ?_⟩
      simpa using h (read :: pre) read' post (by rw [hreads]; rfl) hmem

/-- The messages are those of the stream exactly if every read that completes a message ends with
what was held back before it. Without a delimiter they always are. -/
theorem framed_iff (delimiter : Option UInt8) (queue reads : List Message) :
    Framed delimiter queue reads ↔
      ∀ d, delimiter = some d → ∀ before read after, reads = before ++ read :: after → d ∈ read →
        remainder d read = remainder d before.flatten := by
  cases delimiter with
  | none =>
    have hframed : Framed none queue reads := ⟨reads, handleAccept_none queue reads, rfl⟩
    simp [hframed]
  | some d =>
    have hiff := segments_flatten_iff d [] reads
    rw [remainder_nil, nil_prepend] at hiff
    have hframed : Framed (some d) queue reads ↔
        (reads.flatMap fun read => prepend (remainder d read) (segments d read)) =
          segments d reads.flatten := by
      unfold Framed
      rw [handleAccept_some]
      simp [eq_comm]
    rw [hframed, hiff]
    simp

/-- `"ab cd "` in the two reads `"ab c"` and `"d "`, with a space as the delimiter. -/
theorem not_framed :
    handleAccept (some 32) [] [[97, 98, 32, 99], [100, 32]] = [[99, 97, 98], [100]] ∧
      segments (32 : UInt8) [97, 98, 32, 99, 100, 32] = [[97, 98], [99, 100]] ∧
      ¬ ∀ delimiter queue reads, Framed delimiter queue reads := by
  have hput : handleAccept (some 32) [] [[97, 98, 32, 99], [100, 32]] = [[99, 97, 98], [100]] := by
    decide
  have hsegments : segments (32 : UInt8) [97, 98, 32, 99, 100, 32] = [[97, 98], [99, 100]] := by
    decide
  refine ⟨hput, hsegments, fun h => ?_⟩
  obtain ⟨put, hqueue, hframed⟩ := h (some 32) [] [[97, 98, 32, 99], [100, 32]]
  rw [hput] at hqueue
  have hput' : put = segments 32 [97, 98, 32, 99, 100, 32] := hframed
  rw [hsegments] at hput'
  rw [hput'] at hqueue
  exact absurd hqueue (by decide)

end TcpWorkerImpl

end Sem.Workers
