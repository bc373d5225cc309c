import Mathlib.Algebra.Order.Monoid.Defs
import Sem.Lib.PartialTriples

/-!
# What programs take and give back

`Ends P p Q E` is partial correctness of programs that may throw: started where `P` holds, `p`
returns only where `Q` holds and throws only where `E` holds.

A program may take things from its state and give things back. `Balanced free b p a t` says that
nothing is made up on the way: what is free, with `b` in hand, is enough for what is free and in
hand afterwards. Things may get lost. The amounts are of any ordered monoid, for example of the
functions that count each thing.

* `Ends.bind`, `Ends.tryCatch`, `Ends.read`, `Ends.forM`, `Ends.foldlM`: the rules of the
  constructs.
* `Preserves`: an invariant of a program, also when it throws.
* `NeverThrows`: a program that does not throw.
* `Balanced.frame`: what else is in hand stays there.
* `Balanced.bind`, `Balanced.tryCatch`, `Balanced.forM`, `Balanced.foldlM`: the rules again.
-/

namespace Sem.Throwing

universe u v

variable {σ ε α β : Type u}

/-- `p` goes from `P` to `Q` when it returns, and to `E` when it throws. -/
def Ends (P : σ → Prop) (p : Throwing σ ε α) (Q : α → σ → Prop) (E : σ → Prop) : Prop :=
  ∀ ⦃s r s'⦄, P s → p s = some (r, s') →
    match r with
    | .ok a => Q a s'
    | .error _ => E s'

namespace Ends

variable {P P' : σ → Prop} {p : Throwing σ ε α} {Q Q' : α → σ → Prop} {E E' : σ → Prop}

theorem conseq (h : Ends P p Q E) (hP : ∀ s, P' s → P s) (hQ : ∀ a s, Q a s → Q' a s)
    (hE : ∀ s, E s → E' s) : Ends P' p Q' E' := by
  intro s r s' hs hrun
  have hend := h (hP s hs) hrun
  cases r with
  | ok a => exact hQ a s' hend
  | error e => exact hE s' hend

theorem pre (h : Ends P p Q E) (hP : ∀ s, P' s → P s) : Ends P' p Q E :=
  h.conseq hP (fun _ _ => id) fun _ => id

theorem post (h : Ends P p Q E) (hQ : ∀ a s, Q a s → Q' a s) : Ends P p Q' E :=
  h.conseq (fun _ => id) hQ fun _ => id

theorem any : Ends P p (fun _ _ => True) fun _ => True := by
  intro s r s' _ _
  cases r with
  | ok a => trivial
  | error e => trivial

/-- A precondition that does not speak of the state. -/
theorem given {φ : Prop} (h : φ → Ends (fun _ => True) p Q E) : Ends (fun _ => φ) p Q E :=
  fun _ _ _ hφ hrun => h hφ trivial hrun

/-- A part of the precondition that does not speak of the state. -/
theorem assuming {φ : Prop} (h : φ → Ends P p Q E) : Ends (fun s => φ ∧ P s) p Q E :=
  fun _ _ _ hs hrun => h hs.1 hs.2 hrun

theorem pure {a : α} (h : ∀ s, P s → Q a s) : Ends P (Pure.pure a : Throwing σ ε α) Q E := by
  rintro s r s' hs ⟨⟩
  exact h s hs

theorem throw {e : ε} (h : ∀ s, P s → E s) :
    Ends P (MonadExcept.throw e : Throwing σ ε α) Q E := by
  rintro s r s' hs ⟨⟩
  exact h s hs

theorem undefined : Ends P (Throwing.undefined : Throwing σ ε α) Q E := by
  rintro s r s' hs ⟨⟩

theorem update {f : σ → σ} {Q : PUnit → σ → Prop} (h : ∀ s, P s → Q ⟨⟩ (f s)) :
    Ends P (Throwing.update f : Throwing σ ε PUnit) Q E := by
  rintro s r s' hs ⟨⟩
  exact h s hs

theorem bind {k : α → Throwing σ ε β} {R : α → σ → Prop} {Q : β → σ → Prop}
    (h : Ends P p R E) (hk : ∀ a, Ends (R a) (k a) Q E) : Ends P (p >>= k) Q E := by
  intro s r s' hs hrun
  obtain ⟨a, t, hfirst, hrest⟩ | ⟨e, hfirst, rfl⟩ := bind_cases hrun
  · exact hk a (h hs hfirst) hrest
  · exact h hs hfirst

/-- The program that goes on with what the state is. -/
theorem read {k : σ → Throwing σ ε β} {Q : β → σ → Prop}
    (h : ∀ s, P s → Ends (fun t => t = s) (k s) Q E) : Ends P (Throwing.read >>= k) Q E :=
  fun s _ _ hs hrun => h s hs rfl hrun

/-- The handler starts where the program throws. -/
theorem tryCatch {handler : ε → Throwing σ ε α} {R : σ → Prop} (h : Ends P p Q R)
    (hh : ∀ e, Ends R (handler e) Q E) : Ends P (MonadExcept.tryCatch p handler) Q E := by
  intro s r s' hs hrun
  obtain ⟨a, hfirst, rfl⟩ | ⟨e, t, hfirst, hrest⟩ := tryCatch_cases hrun
  · exact h hs hfirst
  · exact hh e (h hs hfirst) hrest

theorem ite {c : Prop} [Decidable c] {q : Throwing σ ε α} (ht : c → Ends P p Q E)
    (hf : ¬c → Ends P q Q E) : Ends P (if c then p else q) Q E := by
  split
  · next hc => exact ht hc
  · next hc => exact hf hc

/-- What is known besides of runs that return. -/
theorem returning (h : Ends P p Q E) (h' : Returns P p Q') :
    Ends P p (fun a s => Q' a s ∧ Q a s) E := by
  intro s r s' hs hrun
  cases r with
  | ok a => exact ⟨h' hs hrun, h hs hrun⟩
  | error e => exact h hs hrun

/-- A loop that builds a value; the invariant speaks of the elements to do. -/
theorem foldlM {f : β → α → Throwing σ ε β} (I : List α → β → σ → Prop)
    (h : ∀ a rest b, Ends (I (a :: rest) b) (f b a) (I rest) E) (l : List α) (b : β) :
    Ends (I l b) (l.foldlM f b) (I []) E := by
  induction l generalizing b with
  | nil => exact pure fun _ => id
  | cons a rest ih =>
    rw [List.foldlM_cons]
    exact (h a rest b).bind ih

/-- A loop; the invariant speaks of the elements to do. -/
theorem forM {f : α → Throwing σ ε PUnit} (I : List α → σ → Prop)
    (h : ∀ a rest, Ends (I (a :: rest)) (f a) (fun _ => I rest) E) (l : List α) :
    Ends (I l) (l.forM f) (fun _ => I []) E := by
  induction l with
  | nil => exact pure fun _ => id
  | cons a rest ih => exact (h a rest).bind fun _ => ih

end Ends

/-! ## Invariants -/

/-- `I` holds after `p` if it did before, also when `p` throws. -/
def Preserves (I : σ → Prop) (p : Throwing σ ε α) : Prop := Ends I p (fun _ => I) I

namespace Preserves

variable {I : σ → Prop} {p : Throwing σ ε α}

theorem run (h : Preserves I p) {s s' : σ} {r : Except ε α} (hs : I s)
    (hrun : p s = some (r, s')) : I s' := by
  have hend := h hs hrun
  cases r with
  | ok a => exact hend
  | error e => exact hend

theorem pure (a : α) : Preserves I (Pure.pure a : Throwing σ ε α) := Ends.pure fun _ => id

theorem throw (e : ε) : Preserves I (MonadExcept.throw e : Throwing σ ε α) := Ends.throw fun _ => id

theorem undefined : Preserves I (Throwing.undefined : Throwing σ ε α) := Ends.undefined

theorem read : Preserves I (Throwing.read : Throwing σ ε σ) := by
  rintro s r s' hs ⟨⟩
  exact hs

theorem update {f : σ → σ} (h : ∀ s, I s → I (f s)) :
    Preserves I (Throwing.update f : Throwing σ ε PUnit) := Ends.update h

theorem bind {k : α → Throwing σ ε β} (hp : Preserves I p) (hk : ∀ a, Preserves I (k a)) :
    Preserves I (p >>= k) := Ends.bind hp hk

theorem tryCatch {handler : ε → Throwing σ ε α} (hp : Preserves I p)
    (hh : ∀ e, Preserves I (handler e)) : Preserves I (MonadExcept.tryCatch p handler) :=
  Ends.tryCatch hp hh

theorem ite {c : Prop} [Decidable c] {q : Throwing σ ε α} (ht : Preserves I p)
    (hf : Preserves I q) : Preserves I (if c then p else q) :=
  Ends.ite (fun _ => ht) fun _ => hf

theorem forM {l : List β} {g : β → Throwing σ ε PUnit} (h : ∀ b, Preserves I (g b)) :
    Preserves I (l.forM g) :=
  Ends.forM (fun _ => I) (fun b _ => h b) l

theorem foldlM {l : List β} {g : α → β → Throwing σ ε α} (h : ∀ a b, Preserves I (g a b)) (a : α) :
    Preserves I (l.foldlM g a) :=
  Ends.foldlM (fun _ _ => I) (fun b _ a => h a b) l a

/-- Another invariant that holds as well. -/
theorem ends {P : σ → Prop} {Q : α → σ → Prop} {E : σ → Prop} (hI : Preserves I p)
    (h : Ends P p Q E) :
    Ends (fun s => I s ∧ P s) p (fun a s => I s ∧ Q a s) fun s => I s ∧ E s := by
  intro s r s' hs hrun
  have hinv := hI hs.1 hrun
  have hend := h hs.2 hrun
  cases r with
  | ok a => exact ⟨hinv, hend⟩
  | error e => exact ⟨hinv, hend⟩

end Preserves

/-- What is read off the state is the same after a program that preserves each value of it. -/
theorem Keeps.of_preserves {τ : Type v} {f : σ → τ} {p : Throwing σ ε α}
    (h : ∀ x, Preserves (fun s => f s = x) p) : Keeps f p := by
  intro s r s' hrun
  exact (h (f s)).run rfl hrun

/-! ## Programs that do not throw -/

/-- Whatever the state is, the program does not throw. -/
def NeverThrows (p : Throwing σ ε α) : Prop :=
  Ends (fun _ => True) p (fun _ _ => True) fun _ => False

/-- What holds after a throw does not matter. -/
theorem NeverThrows.ends {p : Throwing σ ε α} (hp : NeverThrows p) {P E E' : σ → Prop}
    {Q : α → σ → Prop} (h : Ends P p Q E) : Ends P p Q E' := by
  intro s r s' hs hrun
  cases r with
  | ok a => exact h hs hrun
  | error e => exact (hp trivial hrun).elim

/-! ## Balances -/

section Balanced

variable {M : Type v} [AddCommMonoid M] [PartialOrder M] [IsOrderedAddMonoid M]

/-- What bounds what is free and in hand before `p` bounds it afterwards: `after a` is in hand when
`p` returns `a`, and `thrown` when it throws. -/
def Balanced (free : σ → M) (before : M) (p : Throwing σ ε α) (after : α → M) (thrown : M) : Prop :=
  ∀ T, Ends (fun s => free s + before ≤ T) p (fun a s => free s + after a ≤ T)
    fun s => free s + thrown ≤ T

namespace Balanced

variable {free : σ → M} {before before' thrown thrown' : M} {p : Throwing σ ε α}
  {after after' : α → M}

omit [IsOrderedAddMonoid M] in
/-- A return leaves no more than there was. -/
theorem run_ok (h : Balanced free before p after thrown) {s s' : σ} {a : α}
    (hrun : p s = some (.ok a, s')) : free s' + after a ≤ free s + before :=
  h _ le_rfl hrun

omit [IsOrderedAddMonoid M] in
/-- Nor does a throw. -/
theorem run_error (h : Balanced free before p after thrown) {s s' : σ} {e : ε}
    (hrun : p s = some (.error e, s')) : free s' + thrown ≤ free s + before :=
  h _ le_rfl hrun

theorem conseq (h : Balanced free before p after thrown) (hb : before ≤ before')
    (ha : ∀ a, after' a ≤ after a) (ht : thrown' ≤ thrown) :
    Balanced free before' p after' thrown' := fun T =>
  (h T).conseq (fun s hs => (add_le_add_right hb (free s)).trans hs)
    (fun a s hs => (add_le_add_right (ha a) (free s)).trans hs)
    fun s hs => (add_le_add_right ht (free s)).trans hs

/-- What else is in hand stays there. -/
theorem frame (h : Balanced free before p after thrown) (f : M) :
    Balanced free (f + before) p (fun a => f + after a) (f + thrown) := by
  intro T s r s' hs hrun
  cases r with
  | ok a =>
    calc free s' + (f + after a) = f + (free s' + after a) := add_left_comm _ _ _
      _ ≤ f + (free s + before) := add_le_add_right (h.run_ok hrun) f
      _ = free s + (f + before) := add_left_comm _ _ _
      _ ≤ T := hs
  | error e =>
    calc free s' + (f + thrown) = f + (free s' + thrown) := add_left_comm _ _ _
      _ ≤ f + (free s + before) := add_le_add_right (h.run_error hrun) f
      _ = free s + (f + before) := add_left_comm _ _ _
      _ ≤ T := hs

omit [IsOrderedAddMonoid M] in
/-- A program that changes nothing of what is free. -/
theorem of_keeps (h : Keeps free p) : Balanced free before p (fun _ => before) before := by
  intro T s r s' hs hrun
  rw [← h hrun] at hs
  cases r with
  | ok a => exact hs
  | error e => exact hs

omit [IsOrderedAddMonoid M] in
/-- Of a program that does not throw. -/
theorem noThrow (h : Balanced free before p after thrown) (hp : NeverThrows p) (thrown' : M) :
    Balanced free before p after thrown' := by
  intro T s r s' hs hrun
  cases r with
  | ok a => exact h T hs hrun
  | error e => exact (hp trivial hrun).elim

theorem pure {a : α} (h : after a ≤ before) :
    Balanced free before (Pure.pure a : Throwing σ ε α) after thrown := fun _ =>
  Ends.pure fun s hs => (add_le_add_right h (free s)).trans hs

theorem throw {e : ε} (h : thrown ≤ before) :
    Balanced free before (MonadExcept.throw e : Throwing σ ε α) after thrown := fun _ =>
  Ends.throw fun s hs => (add_le_add_right h (free s)).trans hs

omit [IsOrderedAddMonoid M] in
theorem bind {mid : α → M} {k : α → Throwing σ ε β} {after : β → M}
    (h : Balanced free before p mid thrown) (hk : ∀ a, Balanced free (mid a) (k a) after thrown) :
    Balanced free before (p >>= k) after thrown := fun T =>
  (h T).bind fun a => hk a T

omit [IsOrderedAddMonoid M] in
theorem tryCatch (thrown : M) {handler : ε → Throwing σ ε α}
    (h : Balanced free before p after thrown)
    (hh : ∀ e, Balanced free thrown (handler e) after thrown') :
    Balanced free before (MonadExcept.tryCatch p handler) after thrown' := fun T =>
  (h T).tryCatch fun e => hh e T

omit [IsOrderedAddMonoid M] in
theorem ite {c : Prop} [Decidable c] {q : Throwing σ ε α}
    (ht : c → Balanced free before p after thrown) (hf : ¬c → Balanced free before q after thrown) :
    Balanced free before (if c then p else q) after thrown := fun T =>
  Ends.ite (fun hc => ht hc T) fun hc => hf hc T

omit [IsOrderedAddMonoid M] in
/-- A loop that builds a value; `hand` is what is in hand with these elements to do. -/
theorem foldlM {f : β → α → Throwing σ ε β} (hand : List α → β → M)
    (h : ∀ a rest b, Balanced free (hand (a :: rest) b) (f b a) (hand rest) thrown) (l : List α)
    (b : β) : Balanced free (hand l b) (l.foldlM f b) (hand []) thrown := fun T =>
  Ends.foldlM (fun l b s => free s + hand l b ≤ T) (fun a rest b => h a rest b T) l b

omit [IsOrderedAddMonoid M] in
/-- A loop; `hand` is what is in hand with these elements to do. -/
theorem forM {f : α → Throwing σ ε PUnit} (hand : List α → M)
    (h : ∀ a rest, Balanced free (hand (a :: rest)) (f a) (fun _ => hand rest) thrown)
    (l : List α) : Balanced free (hand l) (l.forM f) (fun _ => hand []) thrown := fun T =>
  Ends.forM (fun l s => free s + hand l ≤ T) (fun a rest => h a rest T) l

end Balanced

end Balanced

end Sem.Throwing
