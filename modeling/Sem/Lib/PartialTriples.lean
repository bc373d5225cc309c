import Sem.Lib.Throwing

/-!
# Frames and partial correctness of programs that may throw

`Keeps f p`: whatever `f` reads off the state is the same after `p`, also when `p` throws.

`Returns P p Q` is partial correctness: started where `P` holds, `p` returns only where `Q` holds.
Nothing is said of runs that throw.

* `Keeps.bind`, `Keeps.tryCatch`, `Keeps.forM`: what the parts keep, the whole keeps.
* `Returns.bind`, `Returns.forM`, `Returns.foldlM`: the rules of the constructs.
* `Keeps.returns`: a frame as a triple.
-/

namespace Sem.Throwing

universe u v

variable {σ ε α β : Type u} {τ : Type v}

/-- `p` does not change what `f` reads off the state. -/
def Keeps (f : σ → τ) (p : Throwing σ ε α) : Prop :=
  ∀ ⦃s r s'⦄, p s = some (r, s') → f s' = f s

/-- `p` goes from `P` to `Q` when it returns. -/
def Returns (P : σ → Prop) (p : Throwing σ ε α) (Q : α → σ → Prop) : Prop :=
  ∀ ⦃s a s'⦄, P s → p s = some (.ok a, s') → Q a s'

/-! ## Runs in parts -/

theorem bind_cases {p : Throwing σ ε α} {k : α → Throwing σ ε β} {s s' : σ} {r : Except ε β}
    (h : (p >>= k) s = some (r, s')) :
    (∃ a t, p s = some (.ok a, t) ∧ k a t = some (r, s')) ∨
      ∃ e, p s = some (.error e, s') ∧ r = .error e := by
  obtain ⟨⟨_ | a, t⟩, hp, hrest⟩ := Option.bind_eq_some_iff.mp h
  · cases hrest
    exact .inr ⟨_, hp, rfl⟩
  · exact .inl ⟨a, t, hp, hrest⟩

theorem tryCatch_cases {p : Throwing σ ε α} {handler : ε → Throwing σ ε α} {s s' : σ}
    {r : Except ε α} (h : tryCatch p handler s = some (r, s')) :
    (∃ a, p s = some (.ok a, s') ∧ r = .ok a) ∨
      ∃ e t, p s = some (.error e, t) ∧ handler e t = some (r, s') := by
  obtain ⟨⟨_ | a, t⟩, hp, hrest⟩ := Option.bind_eq_some_iff.mp h
  · exact .inr ⟨_, t, hp, hrest⟩
  · cases hrest
    exact .inl ⟨a, hp, rfl⟩

/-! ## Frames -/

namespace Keeps

variable {f : σ → τ} {p : Throwing σ ε α}

theorem pure (a : α) : Keeps f (Pure.pure a : Throwing σ ε α) := by
  rintro s r s' ⟨⟩
  rfl

theorem throw (e : ε) : Keeps f (MonadExcept.throw e : Throwing σ ε α) := by
  rintro s r s' ⟨⟩
  rfl

theorem read : Keeps f (Throwing.read : Throwing σ ε σ) := by
  rintro s r s' ⟨⟩
  rfl

theorem update {g : σ → σ} (h : ∀ s, f (g s) = f s) :
    Keeps f (Throwing.update g : Throwing σ ε PUnit) := by
  rintro s r s' ⟨⟩
  exact h s

theorem bind {k : α → Throwing σ ε β} (hp : Keeps f p) (hk : ∀ a, Keeps f (k a)) :
    Keeps f (p >>= k) := by
  intro s r s' h
  obtain ⟨a, t, hfirst, hrest⟩ | ⟨e, hfirst, -⟩ := bind_cases h
  · exact (hk a hrest).trans (hp hfirst)
  · exact hp hfirst

theorem tryCatch {handler : ε → Throwing σ ε α} (hp : Keeps f p)
    (hh : ∀ e, Keeps f (handler e)) : Keeps f (MonadExcept.tryCatch p handler) := by
  intro s r s' h
  obtain ⟨a, hfirst, -⟩ | ⟨e, t, hfirst, hrest⟩ := tryCatch_cases h
  · exact hp hfirst
  · exact (hh e hrest).trans (hp hfirst)

theorem ite {c : Prop} [Decidable c] {q : Throwing σ ε α} (ht : Keeps f p) (hf : Keeps f q) :
    Keeps f (if c then p else q) := by
  split
  · exact ht
  · exact hf

theorem forM {l : List β} {g : β → Throwing σ ε PUnit} (h : ∀ b, Keeps f (g b)) :
    Keeps f (l.forM g) := by
  induction l with
  | nil => exact pure _
  | cons b l ih => exact (h b).bind fun _ => ih

/-- A program that keeps what the condition is about. -/
theorem returns (h : Keeps f p) (P : τ → Prop) :
    Returns (fun s => P (f s)) p fun _ s => P (f s) := by
  intro s a s' hs hrun
  rw [h hrun]
  exact hs

end Keeps

/-! ## Triples -/

namespace Returns

variable {P P' : σ → Prop} {p : Throwing σ ε α} {Q Q' : α → σ → Prop}

theorem any : Returns P p fun _ _ => True :=
  fun _ _ _ _ _ => trivial

theorem conseq (h : Returns P p Q) (hP : ∀ s, P' s → P s) (hQ : ∀ a s, Q a s → Q' a s) :
    Returns P' p Q' :=
  fun _ _ _ hs hrun => hQ _ _ (h (hP _ hs) hrun)

/-- A precondition that does not speak of the state. -/
theorem given {φ : Prop} (h : φ → Returns (fun _ => True) p Q) : Returns (fun _ => φ) p Q :=
  fun _ _ _ hφ hrun => h hφ trivial hrun

/-- A part of the precondition that does not speak of the state. -/
theorem assuming {φ : Prop} (h : φ → Returns P p Q) : Returns (fun s => φ ∧ P s) p Q :=
  fun _ _ _ hs hrun => h hs.1 hs.2 hrun

theorem pure {a : α} (h : ∀ s, P s → Q a s) : Returns P (Pure.pure a : Throwing σ ε α) Q := by
  rintro s a s' hs ⟨⟩
  exact h s hs

theorem throw {e : ε} : Returns P (MonadExcept.throw e : Throwing σ ε α) Q := by
  rintro s a s' _ ⟨⟩

theorem undefined : Returns P (Throwing.undefined : Throwing σ ε α) Q := by
  rintro s a s' _ ⟨⟩

theorem update {g : σ → σ} {Q : PUnit → σ → Prop} (h : ∀ s, P s → Q ⟨⟩ (g s)) :
    Returns P (Throwing.update g : Throwing σ ε PUnit) Q := by
  rintro s a s' hs ⟨⟩
  exact h s hs

theorem bind {k : α → Throwing σ ε β} {R : α → σ → Prop} {Q : β → σ → Prop}
    (h : Returns P p R) (hk : ∀ a, Returns (R a) (k a) Q) : Returns P (p >>= k) Q := by
  intro s b s' hs hrun
  obtain ⟨a, t, hfirst, hrest⟩ | ⟨e, -, herror⟩ := bind_cases hrun
  · exact hk a (h hs hfirst) hrest
  · cases herror

/-- The program that goes on with what the state is. -/
theorem read {k : σ → Throwing σ ε β} {Q : β → σ → Prop}
    (h : ∀ s, P s → Returns (fun t => t = s) (k s) Q) : Returns P (Throwing.read >>= k) Q :=
  fun s _ _ hs hrun => h s hs rfl hrun

/-- An exception that is passed on. -/
theorem rethrow {handler : ε → Throwing σ ε α} (h : Returns P p Q)
    (hh : ∀ e, Returns (fun _ => True) (handler e) fun _ _ => False) :
    Returns P (MonadExcept.tryCatch p handler) Q := by
  intro s a s' hs hrun
  obtain ⟨b, hfirst, heq⟩ | ⟨e, t, -, hrest⟩ := tryCatch_cases hrun
  · cases heq
    exact h hs hfirst
  · exact absurd (hh e trivial hrest) id

theorem ite {c : Prop} [Decidable c] {q : Throwing σ ε α} (ht : c → Returns P p Q)
    (hf : ¬ c → Returns P q Q) : Returns P (if c then p else q) Q := by
  split
  · next hc => exact ht hc
  · next hc => exact hf hc

/-- A loop that builds a value; the invariant speaks of the elements done. -/
theorem foldlM {f : β → α → Throwing σ ε β} (I : List α → β → σ → Prop) {l : List α}
    (h : ∀ done a rest, l = done ++ a :: rest → ∀ b,
      Returns (I done b) (f b a) (I (done ++ [a]))) (b : β) :
    Returns (I [] b) (l.foldlM f b) (I l) := by
  suffices hrest : ∀ rest done b, l = done ++ rest → Returns (I done b) (rest.foldlM f b) (I l) from
    hrest l [] b rfl
  intro rest
  induction rest with
  | nil =>
    rintro done b rfl
    rw [List.append_nil]
    exact pure fun _ => id
  | cons a rest ih =>
    intro done b hl
    rw [List.foldlM_cons]
    exact (h done a rest hl b).bind fun b => ih (done ++ [a]) b (by simp [hl])

/-- A loop; the invariant speaks of the elements done. -/
theorem forM {f : α → Throwing σ ε PUnit} (I : List α → σ → Prop) {l : List α}
    (h : ∀ done a rest, l = done ++ a :: rest →
      Returns (I done) (f a) fun _ => I (done ++ [a])) :
    Returns (I []) (l.forM f) fun _ => I l := by
  suffices hrest : ∀ rest done, l = done ++ rest → Returns (I done) (rest.forM f) fun _ => I l from
    hrest l [] rfl
  intro rest
  induction rest with
  | nil =>
    rintro done rfl
    rw [List.append_nil]
    exact pure fun _ => id
  | cons a rest ih =>
    intro done hl
    exact (h done a rest hl).bind fun _ => ih (done ++ [a]) (by simp [hl])

end Returns

end Sem.Throwing
