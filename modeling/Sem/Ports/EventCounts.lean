import Mathlib.Data.List.Perm.Basic
import Mathlib.Data.List.Count

/-!
# Event counts

A port counts the events that it received, processed and ignored. Here each counter is the list of
the events that it counted, and an event is a number.

* `Ledger`: every received event was processed or ignored, or is still pending.
* `Ledger.balanced`, `Ledger.distinct`: the counts are in balance, and no event was counted twice.
-/

namespace Sem.Ports

/-- `received_count_`, `processed_count_` and `ignored_count_`, with the events counted. -/
structure EventCounts where
  received : List ℕ
  processed : List ℕ
  ignored : List ℕ

namespace EventCounts

/-- No event has been counted. -/
def start : EventCounts := ⟨[], [], []⟩

/-- `EventRecieved`. -/
def eventReceived (c : EventCounts) (e : ℕ) : EventCounts := { c with received := e :: c.received }

/-- `EventProcessed`. -/
def eventProcessed (c : EventCounts) (e : ℕ) : EventCounts :=
  { c with processed := e :: c.processed }

/-- `EventIgnored`. -/
def eventIgnored (c : EventCounts) (e : ℕ) : EventCounts := { c with ignored := e :: c.ignored }

/-- The counts agree while `queued` events are queued and nothing else is going on. -/
def Balanced (c : EventCounts) (queued : ℕ) : Prop :=
  c.received.length = c.processed.length + c.ignored.length + queued

/-- No event is counted as processed and ignored, or as one of them twice. -/
def Distinct (c : EventCounts) : Prop := (c.processed ++ c.ignored).Nodup

instance (c : EventCounts) (queued : ℕ) : Decidable (c.Balanced queued) :=
  inferInstanceAs (Decidable (_ = _))

instance (c : EventCounts) : Decidable c.Distinct := inferInstanceAs (Decidable (List.Nodup _))

end EventCounts

/-- The events received are those processed, those ignored and those pending. Of the events below
`next`, those in `waiting` are still to be received. -/
structure Ledger (c : EventCounts) (pending waiting : List ℕ) (next : ℕ) : Prop where
  once : c.received.Perm (c.processed ++ c.ignored ++ pending)
  nodup : (c.received ++ waiting).Nodup
  bound : ∀ e ∈ c.received ++ waiting, e < next

namespace Ledger

variable {c : EventCounts} {pending pending' waiting waiting' : List ℕ} {next e : ℕ}

theorem start : Ledger .start [] [] 0 := ⟨.nil, List.nodup_nil, fun _ h => by cases h⟩

theorem perm (h : Ledger c pending waiting next) (hpending : pending.Perm pending')
    (hwaiting : waiting.Perm waiting') : Ledger c pending' waiting' next where
  once := h.once.trans (hpending.append_left _)
  nodup := (hwaiting.append_left _).nodup_iff.mp h.nodup
  bound e he := h.bound e ((hwaiting.append_left _).mem_iff.mpr he)

/-- One more event. -/
theorem await (h : Ledger c pending waiting next) :
    Ledger c pending (next :: waiting) (next + 1) where
  once := h.once
  nodup := List.perm_middle.nodup_iff.mpr
    (List.nodup_cons.mpr ⟨fun hmem => Nat.lt_irrefl _ (h.bound _ hmem), h.nodup⟩)
  bound e he := by
    obtain rfl | he := List.mem_cons.mp (List.perm_middle.mem_iff.mp he)
    · exact Nat.lt_succ_self _
    · exact Nat.lt_succ_of_lt (h.bound e he)

theorem eventReceived (h : Ledger c pending (e :: waiting) next) :
    Ledger (c.eventReceived e) (e :: pending) waiting next where
  once := (h.once.cons e).trans List.perm_middle.symm
  nodup := List.perm_middle.nodup_iff.mp h.nodup
  bound e' he := h.bound e' (List.perm_middle.mem_iff.mpr he)

theorem eventProcessed (h : Ledger c (e :: pending) waiting next) :
    Ledger (c.eventProcessed e) pending waiting next :=
  ⟨h.once.trans List.perm_middle, h.nodup, h.bound⟩

theorem eventIgnored (h : Ledger c (e :: pending) waiting next) :
    Ledger (c.eventIgnored e) pending waiting next := by
  refine ⟨h.once.trans ?_, h.nodup, h.bound⟩
  show (c.processed ++ c.ignored ++ e :: pending).Perm (c.processed ++ (e :: c.ignored) ++ pending)
  rw [List.append_assoc, List.append_assoc]
  exact List.perm_middle.append_left _

/-- An event that is never received. -/
theorem dismiss (h : Ledger c pending (e :: waiting) next) : Ledger c pending waiting next where
  once := h.once
  nodup := (List.nodup_cons.mp (List.perm_middle.nodup_iff.mp h.nodup)).2
  bound e' he := h.bound e' (List.perm_middle.mem_iff.mpr (List.mem_cons_of_mem _ he))

theorem balanced (h : Ledger c pending waiting next) : c.Balanced pending.length := by
  have hlen := h.once.length_eq
  rw [List.length_append, List.length_append] at hlen
  exact hlen

theorem distinct (h : Ledger c pending waiting next) : c.Distinct :=
  (List.nodup_append.mp (h.once.nodup_iff.mp (List.nodup_append.mp h.nodup).1)).1

end Ledger

end Sem.Ports
