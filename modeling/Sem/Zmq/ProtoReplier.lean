import Sem.Lib.Run
import Mathlib.Data.List.Basic
import Mathlib.Data.List.Nodup
import Mathlib.Data.List.TakeWhile

/-!
# Repliers

A replier reads one request after the other, of any number of requesters, and answers each of them
with a message or with the text of an exception. A requester turns the parts of an answer into a
message or an exception again.

* `agrees_of_reach`: in every run, each request that is read is answered once, with what belongs to
  it, and the requester makes of the answer what the replier meant; only a `ShutdownException`
  leaves its request without an answer.
* `not_answersAll`: the request whose callback throws a `ShutdownException`.
-/

namespace Sem.Zmq

/-- `std::string`, and a part of a message. -/
abbrev Str := List UInt8

namespace ProtoReplier

/-- The bytes of a literal. -/
def ascii (s : String) : Str := s.toList.map fun c => .ofNat c.toNat

/-- `what()` of an exception that is made of this text: a C string. -/
def what (s : Str) : Str := s.takeWhile (· ≠ 0)

@[simp]
theorem what_what (s : Str) : what (what s) = what s := List.takeWhile_idem

/-- Messages of `π`: parsing undoes serialising. -/
structure Protobuf (π : Type) where
  typeName : π → Str
  serialize : π → Str
  /-- `New` of a type and `ParseFromArray`. -/
  parse : Str → Str → Option π
  parse_serialize : ∀ p, parse (typeName p) (serialize p) = some p

/-- A function that is registered, with the types of its request and its reply. -/
structure Function where
  name : Str
  requestType : Str
  replyType : Str
  deriving DecidableEq, Repr

/-- `GetFunctionSignature`. -/
def Function.signature (f : Function) : Str :=
  f.name ++ ascii "(" ++ f.requestType ++ ascii ") -> " ++ f.replyType

/-- `proto_register_` and `callback_lookup_`; a callback is known by the type it casts to. -/
structure Registry where
  protoRegister : List Str
  callbackLookup : List (Str × Str)
  deriving DecidableEq, Repr

namespace Registry

/-- `RegisterProtoCallback`, with the text of its exception. -/
def registerProtoCallback (r : Registry) (f : Function) : Registry × Option Str :=
  let protoRegister := f.replyType :: f.requestType :: r.protoRegister
  match r.callbackLookup.lookup f.signature with
  | none => (⟨protoRegister, (f.signature, f.requestType) :: r.callbackLookup⟩, none)
  | some _ =>
    (⟨protoRegister, r.callbackLookup⟩,
      some (what (ascii "Request Type '" ++ f.signature ++ ascii "' Already Registered")))

/-- After these functions are registered; one whose signature is taken is refused. -/
def ofFunctions (functions : List Function) : Registry :=
  functions.foldl (fun r f => (r.registerProtoCallback f).1) ⟨[], []⟩

end Registry

/-- A request. -/
structure Request where
  fnSignature : Str
  typeName : Str
  data : Str
  deriving DecidableEq, Repr

namespace Request

/-- What a requester sends. -/
def frames (q : Request) : List Str := [q.fnSignature, q.typeName, q.data]

/-- What the replier reads. -/
def ofFrames : List Str → Option Request
  | [fnSignature, typeName, data] => some ⟨fnSignature, typeName, data⟩
  | _ => none

@[simp]
theorem ofFrames_frames (q : Request) : ofFrames q.frames = some q := rfl

end Request

/-- What a callback does. -/
inductive Returned (π : Type)
  | message (reply : π)
  | null
  | throws (error : Str)
  /-- It throws a `ShutdownException`. -/
  | shutdown

/-- What becomes of a request. -/
inductive Handled (π : Type)
  | replied (reply : π)
  | failed (error : Str)
  /-- The replier breaks out. -/
  | shutdown
  /-- The callback has a request of another type. -/
  | undefined
  deriving DecidableEq, Repr

/-- What a requester makes of a request. -/
inductive Outcome (π : Type)
  | value (reply : π)
  /-- `RMIException`. -/
  | rmi (error : Str)
  /-- The exception of `ConstructProto`. -/
  | runtime (error : Str)
  | timedOut
  deriving DecidableEq, Repr

/-- Why a replier ended. -/
inductive Ended
  | shutdown
  /-- "Replier Timed out". -/
  | timedOut
  /-- Its context was terminated, before the reply was sent that it had. -/
  | terminated (unsent : List (ℕ × List Str))
  | undefined
  deriving DecidableEq, Repr

/-- A `uint32_t` in memory. -/
def uint32Frame (n : UInt32) : Str :=
  [n.toUInt8, (n >>> 8).toUInt8, (n >>> 16).toUInt8, (n >>> 24).toUInt8]

/-- The `uint32_t` that the requester reads. -/
def resultCode : Str → Option UInt32
  | [a, b, c, d] =>
    some (a.toUInt32 ||| b.toUInt32 <<< 8 ||| c.toUInt32 <<< 16 ||| d.toUInt32 <<< 24)
  | _ => none

namespace Protobuf

variable {π : Type} (proto : Protobuf π)

/-- The error for a type without a function. -/
def notRegistered (typeName : Str) : Str :=
  what (ascii "Proto Type '" ++ typeName ++ ascii "' Not Registered!")

/-- The error for data that are not of their type. -/
def cannotParse (typeName : Str) : Str :=
  what (ascii "Proto Type '" ++ typeName ++ ascii "' cannot parse data")

/-- `ConstructProto`, or `what()` of its exception. -/
def constructProto (protoRegister : List Str) (typeName data : Str) : Except Str π :=
  if typeName ∈ protoRegister then
    match proto.parse typeName data with
    | some p => .ok p
    | none => .error (cannotParse typeName)
  else .error (notRegistered typeName)

/-- The inner `try` of `ZmqReplier`. -/
def handle (r : Registry) (q : Request) (callback : π → Returned π) : Handled π :=
  match proto.constructProto r.protoRegister q.typeName q.data with
  | .error error => .failed error
  | .ok request =>
    match r.callbackLookup.lookup q.fnSignature with
    | none =>
      .failed (what (ascii "No registered function: '" ++ q.fnSignature ++ ascii "'"))
    | some requestType =>
      -- The request is cast without a check.
      if proto.typeName request = requestType then
        match callback request with
        | .message reply => .replied reply
        | .null => .failed []
        | .throws error => .failed (what error)
        | .shutdown => .shutdown
      else .undefined

/-- What the replier sends, if it does not end. -/
def answer : Handled π → Except Ended (List Str)
  | .replied reply => .ok [uint32Frame 0, proto.typeName reply, proto.serialize reply]
  | .failed error => .ok [uint32Frame 1, error]
  | .shutdown => .error .shutdown
  | .undefined => .error .undefined

/-- What `ProcessRequest` makes of the parts of a reply; none when they are not as it reads them. -/
def processReply (protoRegister : List Str) : List Str → Option (Outcome π)
  | [] => none
  | code :: parts =>
    match resultCode code with
    | none => none
    | some 0 =>
      match parts with
      | [typeName, data] =>
        match proto.constructProto protoRegister typeName data with
        | .ok reply => some (.value reply)
        | .error error => some (.runtime error)
      | _ => none
    | some _ =>
      match parts with
      | [error] => some (.rmi (what error))
      | _ => none

/-- What the requester has to make of a request. -/
def outcome (protoRegister : List Str) : Handled π → Option (Outcome π)
  | .replied reply =>
    if proto.typeName reply ∈ protoRegister then some (.value reply)
    else some (.runtime (notRegistered (proto.typeName reply)))
  | .failed error => some (.rmi error)
  | .shutdown | .undefined => none

end Protobuf

/-- Where the thread of `ZmqReplier` is. -/
inductive ReplierPoint
  | polling (retryCount : ℕ)
  | handling (id : ℕ) (q : Request)
  | replying (id : ℕ) (frames : List Str)
  | ended (why : Ended)
  deriving DecidableEq, Repr

namespace ReplierPoint

/-- The request that is read and not handled. -/
def inHand : ReplierPoint → List ℕ
  | .handling id _ => [id]
  | _ => []

/-- The reply that is not sent. -/
def unsent : ReplierPoint → List (ℕ × List Str)
  | .replying id frames => [(id, frames)]
  | .ended (.terminated unsent) => unsent
  | _ => []

end ReplierPoint

/-- A replier and its requesters; a request is named by its position among those sent. -/
structure Rpc (π : Type) where
  functions : List Function
  terminated : Bool
  replier : ReplierPoint
  sent : List Request
  /-- The requests read, in their order. -/
  read : List ℕ
  handled : List (ℕ × Handled π)
  replies : List (ℕ × List Str)
  outcomes : List (ℕ × Outcome π)

/-- What happens to a replier and its requesters. -/
inductive Action (π : Type)
  | register (f : Function)
  | send (q : Request)
  /-- `poll` returns with a request. -/
  | receive (id : ℕ)
  /-- `poll` returns without one. -/
  | quiet
  | giveUp
  | handle (callback : π → Returned π)
  | reply
  /-- `Terminate`, from another thread. -/
  | terminate
  /-- The socket fails with `ETERM`. -/
  | stop
  /-- The reply to a request comes; the requester knows these types. -/
  | deliver (id : ℕ) (protoRegister : List Str)
  /-- The time of a request ends. -/
  | expire (id : ℕ)

namespace Rpc

variable {π : Type}

/-- A replier without functions, and no requests. -/
def start : Rpc π where
  functions := []
  terminated := false
  replier := .polling 0
  sent := []
  read := []
  handled := []
  replies := []
  outcomes := []

/-- The thread polls, after so many times without a request. -/
def Serves (retryTimeouts : List ℕ) (retryCount : ℕ) : Prop :=
  retryTimeouts = [] ∨ retryCount < retryTimeouts.length

instance (retryTimeouts : List ℕ) (k : ℕ) : Decidable (Serves retryTimeouts k) :=
  inferInstanceAs (Decidable (_ ∨ _))

/-- Where the thread goes with a request that is handled. -/
def after (proto : Protobuf π) (id : ℕ) (result : Handled π) : ReplierPoint :=
  match proto.answer result with
  | .ok frames => .replying id frames
  | .error why => .ended why

/-- One step of the run. -/
def step (proto : Protobuf π) (retryTimeouts : List ℕ) (s : Rpc π) :
    Action π → Option (Rpc π)
  | .register f => some { s with functions := s.functions ++ [f] }
  | .send q => some { s with sent := s.sent ++ [q] }
  | .receive id =>
    match s.replier, s.sent[id]? with
    | .polling k, some q =>
      if id ∉ s.read ∧ Serves retryTimeouts k ∧ s.terminated = false then
        (Request.ofFrames q.frames).map fun q =>
          { s with read := s.read ++ [id], replier := .handling id q }
      else none
    | _, _ => none
  | .quiet =>
    match s.replier with
    | .polling k =>
      if retryTimeouts ≠ [] ∧ Serves retryTimeouts k ∧ s.terminated = false then
        some { s with replier := .polling (k + 1) }
      else none
    | _ => none
  | .giveUp =>
    match s.replier with
    | .polling k =>
      if Serves retryTimeouts k then none else some { s with replier := .ended .timedOut }
    | _ => none
  | .handle callback =>
    match s.replier with
    | .handling id q =>
      let result := proto.handle (.ofFunctions s.functions) q callback
      some { s with handled := s.handled ++ [(id, result)], replier := after proto id result }
    | _ => none
  | .reply =>
    match s.replier with
    | .replying id frames =>
      if s.terminated then none
      else some { s with replies := s.replies ++ [(id, frames)], replier := .polling 0 }
    | _ => none
  | .terminate => some { s with terminated := true }
  | .stop =>
    match s.replier with
    | .polling _ | .replying _ _ =>
      if s.terminated then some { s with replier := .ended (.terminated s.replier.unsent) }
      else none
    | _ => none
  | .deliver id protoRegister =>
    if id ∈ s.outcomes.map Prod.fst then none
    else (s.replies.lookup id).bind fun frames =>
      (proto.processReply protoRegister frames).map fun o =>
        { s with outcomes := s.outcomes ++ [(id, o)] }
  | .expire id =>
    if id ∈ s.outcomes.map Prod.fst ∨ s.sent.length ≤ id then none
    else some { s with outcomes := s.outcomes ++ [(id, .timedOut)] }

/-- The runs of a replier and its requesters. -/
def system (proto : Protobuf π) (retryTimeouts : List ℕ) : Lts (Rpc π) (Action π) :=
  .ofFun start (step proto retryTimeouts)

/-- The replies to a request. -/
def repliesTo (s : Rpc π) (id : ℕ) : List (List Str) :=
  (s.replies.filter (·.1 = id)).map Prod.snd

/-- Each request that is read and not in hand is answered by exactly one reply. -/
def AnswersAll (s : Rpc π) : Prop :=
  ∀ id ∈ s.read, id ∉ s.replier.inHand → id ∉ s.replier.unsent.map Prod.fst →
    ∃ frames, s.repliesTo id = [frames]

/-! ## What is promised -/

section Promises

variable (proto : Protobuf π) (retryTimeouts : List ℕ) (s : Rpc π)

/-- A request is handled by what was registered before and by its callback. -/
def HandledAs (id : ℕ) (result : Handled π) : Prop :=
  ∃ q functions callback, s.sent[id]? = some q ∧ functions <+: s.functions ∧
    result = proto.handle (.ofFunctions functions) q callback

/-- The replier goes on, unless it was ended. -/
def Serving : ReplierPoint → Prop
  | .polling k =>
    Serves retryTimeouts k → ∀ id q, s.sent[id]? = some q → id ∉ s.read →
      ∃ s', s.step proto retryTimeouts (.receive id) = some s' ∧ s'.replier = .handling id q
  | .handling id q =>
    ∀ callback, ∃ s', s.step proto retryTimeouts (.handle callback) = some s' ∧
      s'.replier = after proto id (proto.handle (.ofFunctions s.functions) q callback)
  | .replying _ _ =>
    ∃ s', s.step proto retryTimeouts .reply = some s' ∧ s'.replier = .polling 0
  | .ended .shutdown => ∃ id, (id, .shutdown) ∈ s.handled
  | .ended .timedOut => retryTimeouts ≠ []
  | .ended (.terminated _) => False
  | .ended .undefined => ∃ id, (id, .undefined) ∈ s.handled

/-- What is promised of requests and replies. -/
structure Agrees : Prop where
  once : s.read.Nodup
  read : ∀ id ∈ s.read, id ∈ s.replier.inHand ∨ ∃ result, (id, result) ∈ s.handled
  own : ∀ id result, (id, result) ∈ s.handled → s.HandledAs proto id result
  /-- One reply to a request, of the replier's making; none if the replier broke out. -/
  answered : ∀ id result, (id, result) ∈ s.handled → id ∉ s.replier.unsent.map Prod.fst →
    s.repliesTo id = (proto.answer result).toOption.toList
  unread : ∀ id, id ∉ s.read → s.repliesTo id = []
  /-- The requester makes of a reply what the replier meant. -/
  decoded : ∀ id result, (id, result) ∈ s.handled → ∀ frames, proto.answer result = .ok frames →
    ∀ protoRegister, proto.processReply protoRegister frames = proto.outcome protoRegister result
  outcome : ∀ id o, (id, o) ∈ s.outcomes → o = .timedOut ∨
    ∃ result protoRegister, (id, result) ∈ s.handled ∧
      proto.outcome protoRegister result = some o
  outcomeOnce : (s.outcomes.map Prod.fst).Nodup
  serving : s.terminated = false → s.Serving proto retryTimeouts s.replier
  /-- A request that cannot be made a message fails. -/
  failsAlone : ∀ r q callback, q.typeName ∉ r.protoRegister ∨ proto.parse q.typeName q.data = none →
    ∃ error, proto.handle r q callback = .failed error

end Promises

/-- Why the thread ended. -/
def EndedAs (retryTimeouts : List ℕ) (s : Rpc π) : Ended → Prop
  | .shutdown => ∃ id, (id, .shutdown) ∈ s.handled
  | .timedOut => retryTimeouts ≠ []
  | .terminated _ => s.terminated = true
  | .undefined => ∃ id, (id, .undefined) ∈ s.handled

/-- The invariant of a replier and its requesters. -/
structure Books (proto : Protobuf π) (retryTimeouts : List ℕ) (s : Rpc π) : Prop where
  read : s.read = s.handled.map Prod.fst ++ s.replier.inHand
  once : s.read.Nodup
  handling : ∀ id q, s.replier = .handling id q → s.sent[id]? = some q
  own : ∀ id result, (id, result) ∈ s.handled → s.HandledAs proto id result
  replies : s.handled.filterMap (fun p => (proto.answer p.2).toOption.map (p.1, ·)) =
    s.replies ++ s.replier.unsent
  outcome : ∀ id o, (id, o) ∈ s.outcomes → o = .timedOut ∨
    ∃ result protoRegister, (id, result) ∈ s.handled ∧
      proto.outcome protoRegister result = some o
  outcomeOnce : (s.outcomes.map Prod.fst).Nodup
  ended : ∀ why, s.replier = .ended why → s.EndedAs retryTimeouts why

end Rpc

/-! ## Answers -/

section Answers

variable {π : Type} {proto : Protobuf π} {r : Registry} {q : Request} {callback : π → Returned π}
  {error : Str}

theorem constructProto_error {protoRegister : List Str} {typeName data : Str}
    (h : proto.constructProto protoRegister typeName data = .error error) :
    what error = error := by
  unfold Protobuf.constructProto at h
  split at h
  · split at h
    · cases h
    · cases h
      exact what_what _
  · cases h
    exact what_what _

/-- The text of an error is a C string. -/
theorem handle_failed (h : proto.handle r q callback = .failed error) : what error = error := by
  unfold Protobuf.handle at h
  split at h
  · rename_i hconstruct
    cases h
    exact constructProto_error hconstruct
  · split at h
    · cases h
      exact what_what _
    · split at h
      · split at h <;> cases h
        · rfl
        · exact what_what _
      · cases h

/-- A message that is sent is the one that is received. -/
theorem constructProto_serialize (protoRegister : List Str) (p : π) :
    proto.constructProto protoRegister (proto.typeName p) (proto.serialize p) =
      if proto.typeName p ∈ protoRegister then .ok p
      else .error (Protobuf.notRegistered (proto.typeName p)) := by
  simp only [Protobuf.constructProto, proto.parse_serialize]

/-- The requester reads the parts that the replier writes. -/
theorem processReply_of_answer {result : Handled π} {frames : List Str}
    (hanswer : proto.answer result = .ok frames)
    (herror : ∀ error, result = .failed error → what error = error) (protoRegister : List Str) :
    proto.processReply protoRegister frames = proto.outcome protoRegister result := by
  have hsuccess : resultCode (uint32Frame 0) = some 0 := by decide
  have hfailure : resultCode (uint32Frame 1) = some 1 := by decide
  cases result with
  | replied reply =>
    cases hanswer
    simp only [Protobuf.processReply, hsuccess, constructProto_serialize, Protobuf.outcome]
    by_cases hmem : proto.typeName reply ∈ protoRegister
    · simp only [hmem, if_true]
    · simp only [hmem, if_false]
  | failed error =>
    cases hanswer
    simp only [Protobuf.processReply, hfailure, herror error rfl, Protobuf.outcome]
    rfl
  | shutdown | undefined => cases hanswer

/-- A request whose type is not registered, or that is malformed, fails. -/
theorem handle_of_malformed
    (h : q.typeName ∉ r.protoRegister ∨ proto.parse q.typeName q.data = none) :
    ∃ error, proto.handle r q callback = .failed error := by
  unfold Protobuf.handle Protobuf.constructProto
  obtain hregister | hparse := h
  · simp only [hregister, if_false]
    exact ⟨_, rfl⟩
  · simp only [hparse]
    split
    · exact ⟨_, rfl⟩
    · rename_i request hok
      split at hok <;> cases hok

end Answers

namespace Rpc

variable {π : Type} {proto : Protobuf π} {retryTimeouts : List ℕ} {s s' : Rpc π}

theorem HandledAs.decoded {id : ℕ} {result : Handled π} (h : s.HandledAs proto id result)
    {frames : List Str} (hanswer : proto.answer result = .ok frames) (protoRegister : List Str) :
    proto.processReply protoRegister frames = proto.outcome protoRegister result := by
  obtain ⟨q, functions, callback, -, -, rfl⟩ := h
  exact processReply_of_answer hanswer (fun error => handle_failed) protoRegister

/-- More functions and requests take nothing away. -/
theorem HandledAs.mono {id : ℕ} {result : Handled π} (h : s.HandledAs proto id result)
    (hfunctions : s.functions <+: s'.functions) (hsent : s.sent <+: s'.sent) :
    s'.HandledAs proto id result := by
  obtain ⟨q, functions, callback, hq, hstart, rfl⟩ := h
  obtain ⟨rest, hrest⟩ := hsent
  refine ⟨q, functions, callback, ?_, hstart.trans hfunctions, rfl⟩
  obtain ⟨hlt, -⟩ := List.getElem?_eq_some_iff.mp hq
  rw [← hrest, List.getElem?_append_left hlt, hq]

/-! ## Books -/

theorem books_start : Books proto retryTimeouts start where
  read := rfl
  once := List.nodup_nil
  handling _ _ h := by cases h
  own _ _ h := by cases h
  replies := rfl
  outcome _ _ h := by cases h
  outcomeOnce := List.nodup_nil
  ended _ h := by cases h

/-- A step that only adds functions, requests or the end of the context. -/
theorem Books.grow (h : Books proto retryTimeouts s) {functions : List Function}
    {sent : List Request} {terminated : Bool} (hfunctions : s.functions <+: functions)
    (hsent : s.sent <+: sent) (hterminated : s.terminated = true → terminated = true) :
    Books proto retryTimeouts { s with
      functions := functions, sent := sent, terminated := terminated } where
  read := h.read
  once := h.once
  handling id q hpoint := by
    have hq := h.handling id q hpoint
    obtain ⟨hlt, -⟩ := List.getElem?_eq_some_iff.mp hq
    obtain ⟨rest, rfl⟩ := hsent
    rwa [List.getElem?_append_left hlt]
  own id result hmem := (h.own id result hmem).mono hfunctions hsent
  replies := h.replies
  outcome := h.outcome
  outcomeOnce := h.outcomeOnce
  ended why hpoint := by
    have hended := h.ended why hpoint
    cases why with
    | terminated unsent => exact hterminated hended
    | shutdown | timedOut | undefined => exact hended

/-- A step of the thread without a request. -/
theorem Books.goto (h : Books proto retryTimeouts s) {replier : ReplierPoint}
    (hinHand : replier.inHand = s.replier.inHand) (hunsent : replier.unsent = s.replier.unsent)
    (hhandling : ∀ id q, replier ≠ .handling id q)
    (hended : ∀ why, replier = .ended why → s.EndedAs retryTimeouts why) :
    Books proto retryTimeouts { s with replier := replier } where
  read := by rw [h.read, hinHand]
  once := h.once
  handling id q hpoint := absurd hpoint (hhandling id q)
  own := h.own
  replies := by rw [h.replies, hunsent]
  outcome := h.outcome
  outcomeOnce := h.outcomeOnce
  ended := hended

theorem Books.receive (h : Books proto retryTimeouts s) {k id : ℕ} {q : Request}
    (hpoint : s.replier = .polling k) (hq : s.sent[id]? = some q) (hid : id ∉ s.read) :
    Books proto retryTimeouts { s with
      read := s.read ++ [id], replier := .handling id q } where
  read := by
    have hread := h.read
    rw [hpoint] at hread
    rw [hread]
    simp [ReplierPoint.inHand]
  once := by
    rw [← List.concat_eq_append]
    exact h.once.concat hid
  handling id' q' hpoint' := by
    cases hpoint'
    exact hq
  own := h.own
  replies := by
    have hreplies := h.replies
    rw [hpoint] at hreplies
    exact hreplies
  outcome := h.outcome
  outcomeOnce := h.outcomeOnce
  ended why hpoint' := by cases hpoint'

theorem Books.handle (h : Books proto retryTimeouts s) {id : ℕ} {q : Request}
    (hpoint : s.replier = .handling id q) (callback : π → Returned π) {result : Handled π}
    (hresult : result = proto.handle (.ofFunctions s.functions) q callback) :
    Books proto retryTimeouts { s with
      handled := s.handled ++ [(id, result)], replier := after proto id result } where
  read := by
    have hread := h.read
    rw [hpoint] at hread
    have hafter : (after proto id result).inHand = [] := by
      unfold after
      split <;> rfl
    rw [hread, hafter, List.map_append, List.append_nil]
    rfl
  once := h.once
  handling id' q' hpoint' := by
    unfold after at hpoint'
    split at hpoint' <;> cases hpoint'
  own id' result' hmem := by
    obtain hmem | hmem := List.mem_append.mp hmem
    · exact h.own id' result' hmem
    · cases List.mem_singleton.mp hmem
      exact ⟨q, s.functions, callback, h.handling id q hpoint, List.prefix_refl _, hresult⟩
  replies := by
    have hreplies := h.replies
    rw [hpoint] at hreplies
    rw [List.filterMap_append, hreplies]
    cases result <;> simp [after, Protobuf.answer, ReplierPoint.unsent, Except.toOption]
  outcome id' o hmem := by
    obtain hexpired | ⟨result', protoRegister, hmem', houtcome⟩ := h.outcome id' o hmem
    · exact .inl hexpired
    · exact .inr ⟨result', protoRegister, List.mem_append_left _ hmem', houtcome⟩
  outcomeOnce := h.outcomeOnce
  ended why hpoint' := by
    have hlast : (id, result) ∈ s.handled ++ [(id, result)] :=
      List.mem_append_right _ List.mem_cons_self
    cases result with
    | replied reply => cases hpoint'
    | failed error => cases hpoint'
    | shutdown =>
      cases hpoint'
      exact ⟨id, hlast⟩
    | undefined =>
      cases hpoint'
      exact ⟨id, hlast⟩

theorem Books.reply (h : Books proto retryTimeouts s) {id : ℕ} {frames : List Str}
    (hpoint : s.replier = .replying id frames) :
    Books proto retryTimeouts { s with
      replies := s.replies ++ [(id, frames)], replier := .polling 0 } where
  read := by
    have hread := h.read
    rw [hpoint] at hread
    exact hread
  once := h.once
  handling _ _ hpoint' := by cases hpoint'
  own := h.own
  replies := by
    have hreplies := h.replies
    rw [hpoint] at hreplies
    rw [hreplies]
    exact (List.append_nil _).symm
  outcome := h.outcome
  outcomeOnce := h.outcomeOnce
  ended _ hpoint' := by cases hpoint'

/-- A requester is done with a request. -/
theorem Books.settle (h : Books proto retryTimeouts s) {id : ℕ} {o : Outcome π}
    (hid : id ∉ s.outcomes.map Prod.fst)
    (ho : o = .timedOut ∨ ∃ result protoRegister, (id, result) ∈ s.handled ∧
      proto.outcome protoRegister result = some o) :
    Books proto retryTimeouts { s with outcomes := s.outcomes ++ [(id, o)] } where
  read := h.read
  once := h.once
  handling := h.handling
  own := h.own
  replies := h.replies
  outcome id' o' hmem := by
    obtain hmem | hmem := List.mem_append.mp hmem
    · exact h.outcome id' o' hmem
    · cases List.mem_singleton.mp hmem
      exact ho
  outcomeOnce := by
    rw [List.map_append, List.map_singleton, ← List.concat_eq_append]
    exact h.outcomeOnce.concat hid
  ended := h.ended

/-- A reply is of a request that was handled. -/
theorem Books.handled_of_reply (h : Books proto retryTimeouts s) {id : ℕ} {frames : List Str}
    (hmem : (id, frames) ∈ s.replies) :
    ∃ result, (id, result) ∈ s.handled ∧ proto.answer result = .ok frames := by
  have hmem' : (id, frames) ∈ s.replies ++ s.replier.unsent := List.mem_append_left _ hmem
  rw [← h.replies, List.mem_filterMap] at hmem'
  obtain ⟨⟨id', result⟩, hhandled, hanswer⟩ := hmem'
  cases hcase : proto.answer result with
  | ok frames' =>
    simp only [hcase, Except.toOption, Option.map_some, Option.some.injEq] at hanswer
    cases hanswer
    exact ⟨result, hhandled, hcase⟩
  | error why => simp [hcase, Except.toOption] at hanswer

theorem inductive_books (proto : Protobuf π) (retryTimeouts : List ℕ) :
    (system proto retryTimeouts).InductiveBy (fun _ _ => True) (Books proto retryTimeouts) where
  init := by
    rintro s rfl
    exact books_start
  step := by
    intro s a s' h _ hstep
    replace hstep : s.step proto retryTimeouts a = some s' := hstep
    cases a with
    | register f =>
      obtain rfl := Option.some.inj hstep
      exact h.grow (List.prefix_append _ _) (List.prefix_refl _) id
    | send q =>
      obtain rfl := Option.some.inj hstep
      exact h.grow (List.prefix_refl _) (List.prefix_append _ _) id
    | receive id =>
      simp only [step, Request.ofFrames_frames, Option.map_some] at hstep
      split at hstep
      · rename_i hpoint hq
        split at hstep
        · rename_i hguard
          cases hstep
          exact h.receive hpoint hq hguard.1
        · cases hstep
      · cases hstep
    | quiet =>
      simp only [step] at hstep
      split at hstep
      · rename_i hpoint
        split at hstep
        · cases hstep
          exact h.goto (by rw [hpoint]; rfl) (by rw [hpoint]; rfl) nofun nofun
        · cases hstep
      · cases hstep
    | giveUp =>
      simp only [step] at hstep
      split at hstep
      · rename_i hpoint
        split at hstep
        · cases hstep
        · rename_i hserves
          cases hstep
          refine h.goto (by rw [hpoint]; rfl) (by rw [hpoint]; rfl) nofun fun why hwhy => ?_
          cases hwhy
          exact fun hempty => hserves (.inl hempty)
      · cases hstep
    | handle callback =>
      simp only [step] at hstep
      split at hstep
      · rename_i hpoint
        cases hstep
        exact h.handle hpoint callback rfl
      · cases hstep
    | reply =>
      simp only [step] at hstep
      split at hstep
      · rename_i hpoint
        split at hstep
        · cases hstep
        · cases hstep
          exact h.reply hpoint
      · cases hstep
    | terminate =>
      obtain rfl := Option.some.inj hstep
      exact h.grow (List.prefix_refl _) (List.prefix_refl _) fun _ => rfl
    | stop =>
      simp only [step] at hstep
      split at hstep
      · rename_i hpoint
        split at hstep
        · rename_i hterminated
          cases hstep
          refine h.goto (by rw [hpoint]; rfl) rfl nofun fun why hwhy => ?_
          cases hwhy
          exact hterminated
        · cases hstep
      · rename_i hpoint
        split at hstep
        · rename_i hterminated
          cases hstep
          refine h.goto (by rw [hpoint]; rfl) rfl nofun fun why hwhy => ?_
          cases hwhy
          exact hterminated
        · cases hstep
      · cases hstep
    | deliver id protoRegister =>
      simp only [step] at hstep
      split at hstep
      · cases hstep
      · rename_i hid
        obtain ⟨frames, hframes, hstep⟩ := Option.bind_eq_some_iff.mp hstep
        obtain ⟨o, ho, rfl⟩ := Option.map_eq_some_iff.mp hstep
        obtain ⟨before, after, hreplies, -⟩ := List.lookup_eq_some_iff.mp hframes
        have hreply : (id, frames) ∈ s.replies := by
          rw [hreplies]
          exact List.mem_append_right _ List.mem_cons_self
        obtain ⟨result, hmem, hanswer⟩ := h.handled_of_reply hreply
        rw [(h.own id result hmem).decoded hanswer] at ho
        exact h.settle hid (.inr ⟨result, protoRegister, hmem, ho⟩)
    | expire id =>
      simp only [step] at hstep
      split at hstep
      · cases hstep
      · rename_i hid
        cases hstep
        exact h.settle (fun hmem => hid (.inl hmem)) (.inl rfl)

/-! ## Agreement -/

/-- Among entries with different keys, those of one key are those of its value. -/
theorem filterMap_key {α β : Type} {l : List (ℕ × α)} (hnodup : (l.map Prod.fst).Nodup)
    {id : ℕ} {x : α} (hmem : (id, x) ∈ l) (f : α → Option β) :
    ((l.filterMap fun p => (f p.2).map (p.1, ·)).filter (·.1 = id)).map Prod.snd =
      (f x).toList := by
  induction l with
  | nil => cases hmem
  | cons p l ih =>
    obtain ⟨id', y⟩ := p
    obtain ⟨hid', hnodup⟩ := List.nodup_cons.mp hnodup
    obtain heq | hmem := List.mem_cons.mp hmem
    · cases heq
      have hrest : ((l.filterMap fun p => (f p.2).map (p.1, ·)).filter (·.1 = id)) = [] := by
        rw [List.filter_eq_nil_iff]
        rintro ⟨id', b⟩ hb heq
        obtain ⟨⟨id'', z⟩, hz, hzb⟩ := List.mem_filterMap.mp hb
        obtain ⟨b', -, hb'⟩ := Option.map_eq_some_iff.mp hzb
        cases hb'
        exact hid' (List.mem_map.mpr ⟨_, hz, by simpa using heq⟩)
      cases hx : f x <;> simp [hx, hrest]
    · have hne : id' ≠ id := by
        rintro rfl
        exact hid' (List.mem_map.mpr ⟨_, hmem, rfl⟩)
      rw [← ih hnodup hmem]
      cases hy : f y <;> simp [hy, hne]

theorem Books.repliesTo_eq (h : Books proto retryTimeouts s) {id : ℕ} {result : Handled π}
    (hmem : (id, result) ∈ s.handled) (hunsent : id ∉ s.replier.unsent.map Prod.fst) :
    s.repliesTo id = (proto.answer result).toOption.toList := by
  have hnodup : (s.handled.map Prod.fst).Nodup := by
    have honce := h.once
    rw [h.read] at honce
    exact (List.nodup_append.mp honce).1
  have hrest : s.replier.unsent.filter (·.1 = id) = [] := by
    rw [List.filter_eq_nil_iff]
    intro p hp heq
    exact hunsent (List.mem_map.mpr ⟨p, hp, by simpa using heq⟩)
  rw [← filterMap_key hnodup hmem fun r => (proto.answer r).toOption, h.replies,
    List.filter_append, hrest, List.append_nil]
  rfl

theorem Books.repliesTo_of_unread (h : Books proto retryTimeouts s) {id : ℕ}
    (hid : id ∉ s.read) : s.repliesTo id = [] := by
  rw [repliesTo, List.map_eq_nil_iff, List.filter_eq_nil_iff]
  rintro ⟨id', frames⟩ hmem heq
  obtain ⟨result, hhandled, -⟩ := h.handled_of_reply hmem
  obtain rfl : id' = id := by simpa using heq
  rw [h.read] at hid
  exact hid (List.mem_append_left _ (List.mem_map.mpr ⟨_, hhandled, rfl⟩))

/-- The thread can go on, wherever it is. -/
theorem Books.serving (h : Books proto retryTimeouts s) (hterminated : s.terminated = false) :
    s.Serving proto retryTimeouts s.replier := by
  cases hpoint : s.replier with
  | polling k =>
    intro hserves id q hq hid
    refine ⟨{ s with read := s.read ++ [id], replier := .handling id q }, ?_, rfl⟩
    simp [step, hpoint, hq, hid, hserves, hterminated]
  | handling id q =>
    intro callback
    let result := proto.handle (.ofFunctions s.functions) q callback
    refine ⟨{ s with handled := s.handled ++ [(id, result)], replier := after proto id result },
      ?_, rfl⟩
    simp only [step, hpoint, result]
  | replying id frames =>
    refine ⟨{ s with replies := s.replies ++ [(id, frames)], replier := .polling 0 }, ?_, rfl⟩
    simp [step, hpoint, hterminated]
  | ended why =>
    have hended := h.ended why hpoint
    cases why with
    | terminated unsent => cases hterminated.symm.trans hended
    | shutdown | timedOut | undefined => exact hended

theorem Books.agrees (h : Books proto retryTimeouts s) : s.Agrees proto retryTimeouts where
  once := h.once
  read id hid := by
    rw [h.read] at hid
    obtain hid | hid := List.mem_append.mp hid
    · obtain ⟨⟨id, result⟩, hmem, rfl⟩ := List.mem_map.mp hid
      exact .inr ⟨result, hmem⟩
    · exact .inl hid
  own := h.own
  answered _ _ := h.repliesTo_eq
  unread _ := h.repliesTo_of_unread
  decoded id result hmem _ := (h.own id result hmem).decoded
  outcome := h.outcome
  outcomeOnce := h.outcomeOnce
  serving := h.serving
  failsAlone _ _ _ := handle_of_malformed

/-- A replier and its requesters agree in every run. -/
theorem agrees_of_reach (h : (system proto retryTimeouts).Reach s) :
    s.Agrees proto retryTimeouts :=
  ((inductive_books proto retryTimeouts).reach h).agrees

/-- Messages of one type, that are their bytes. -/
def bytes : Protobuf Str where
  typeName _ := ascii "M"
  serialize p := p
  parse _ data := some data
  parse_serialize _ := rfl

/-- A function of this name. -/
def function (name : String) : Function := ⟨ascii name, ascii "M", ascii "M"⟩

/-- A request for it. -/
def request (name : String) : Request := ⟨(function name).signature, ascii "M", [7]⟩

/-- A request is answered, and another one is for no function. -/
def answeredRun : List (Action Str) :=
  [.register (function "f"), .send (request "f"), .send (request "g"), .receive 1,
    .handle fun p => .message (p ++ p), .reply, .quiet, .receive 0,
    .handle fun p => .message (p ++ p), .reply, .deliver 0 [ascii "M"], .deliver 1 []]

theorem agrees_of_reach_answered : ∃ s, Lts.run (step bytes [100, 100]) start answeredRun = some s ∧
    s.outcomes = [(0, .value [7, 7]),
      (1, .rmi (ascii "No registered function: 'g(M) -> M'"))] ∧ s.Agrees bytes [100, 100] := by
  obtain ⟨s, hs, houtcomes⟩ : ∃ s, Lts.run (step bytes [100, 100]) start answeredRun = some s ∧
      s.outcomes = [(0, .value [7, 7]),
        (1, .rmi (ascii "No registered function: 'g(M) -> M'"))] := ⟨_, rfl, by decide +kernel⟩
  exact ⟨s, hs, houtcomes, agrees_of_reach (Lts.reach_of_run hs)⟩

/-- The request whose callback throws a `ShutdownException` is not answered. -/
theorem not_answersAll : ∃ s, Lts.run (step bytes []) start
    [.register (function "f"), .send (request "f"), .receive 0, .handle fun _ => .shutdown] =
      some s ∧ s.replier = .ended .shutdown ∧ s.read = [0] ∧ ¬ s.AnswersAll := by
  refine ⟨_, rfl, by decide +kernel, rfl, fun h => ?_⟩
  obtain ⟨frames, hframes⟩ := h 0 List.mem_cons_self (by decide +kernel) (by decide +kernel)
  cases hframes

end Rpc

end ProtoReplier

end Sem.Zmq
