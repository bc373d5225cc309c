import Sem.Lib.Table

/-!
# Memo tables

A table remembers the answers to the questions that have been asked, each under a key that is made
of its question. Other questions may have the same key.

* `Remembers.insert`, `Remembers.mono`: one more answer, one more question.
* `Remembers.eq_of_lookup`: what is found under the key of a question is its answer, if no other
  question with this key has been asked.
-/

namespace Sem.Lib

universe u v w

variable {Q : Type u} {K : Type v} {A : Type w} [DecidableEq K] {asked asked' : Q → Prop}
  {key : Q → K} {answer : Q → Option A} {t : Table K A} {q : Q} {a : A}

/-- Each entry is the answer to a question with its key. -/
def Remembers (asked : Q → Prop) (key : Q → K) (answer : Q → Option A) (t : Table K A) : Prop :=
  t.Entries fun k a => ∃ q, asked q ∧ key q = k ∧ answer q = some a

namespace Remembers

theorem empty : Remembers asked key answer (∅ : Table K A) := Table.Entries.empty

theorem mono (h : Remembers asked key answer t) (hmore : ∀ q, asked q → asked' q) :
    Remembers asked' key answer t :=
  Table.Entries.mono h fun _ _ _ ⟨q, hq, hkey, ha⟩ => ⟨q, hmore q hq, hkey, ha⟩

theorem insert (h : Remembers asked key answer t) (hq : asked q) (ha : answer q = some a) :
    Remembers asked key answer (t.insert (key q) a) :=
  Table.Entries.insert h ⟨q, hq, rfl, ha⟩

theorem eq_of_lookup (h : Remembers asked key answer t) (hlookup : t.lookup (key q) = some a)
    (hone : ∀ q', asked q' → key q' = key q → q' = q) : answer q = some a := by
  obtain ⟨q', hq', hkey, ha⟩ := h _ _ hlookup
  rwa [hone q' hq' hkey] at ha

theorem lookup_eq_none {k : K} (h : Remembers asked key answer t)
    (hnone : ∀ q, asked q → key q ≠ k) : t.lookup k = none := by
  cases hlookup : t.lookup k with
  | none => rfl
  | some a =>
    obtain ⟨q, hq, hkey, -⟩ := h k a hlookup
    exact absurd hkey (hnone q hq)

end Remembers

end Sem.Lib
