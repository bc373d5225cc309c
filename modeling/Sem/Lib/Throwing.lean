import Mathlib.Data.List.Basic

/-!
# Programs that may throw

A program over a state either returns a value or throws; what it has done to the state before it
throws stays done. `none` stands for a run that leaves the language's rules (undefined behaviour).

`Triple P p Q E` is total correctness: started where `P` holds, `p` stays within the rules, and
returns only where `Q` holds and throws only where `E` holds.

* `Triple.bind`, `Triple.tryCatch`, `Triple.read`: the rules of the constructs.
* `Triple.foldlM`, `Triple.forM_const`: loops, by an invariant that speaks of the elements to do.
* `Triple.conseq`: other conditions.
-/

namespace Sem

universe u

/-- A program that returns an `α` or throws an `ε`, over the states `σ`. -/
def Throwing (σ : Type u) (ε α : Type u) := σ → Option (Except ε α × σ)

namespace Throwing

variable {σ ε α β : Type u}

instance : Monad (Throwing σ ε) where
  pure a := fun s => some (.ok a, s)
  bind p f := fun s => (p s).bind fun
    | (.ok a, s') => f a s'
    | (.error e, s') => some (.error e, s')

instance : LawfulMonad (Throwing σ ε) := LawfulMonad.mk' _
  (fun p => by
    funext s
    show (p s).bind _ = p s
    rcases p s with _ | ⟨_ | _, _⟩ <;> rfl)
  (fun _ _ => rfl)
  (fun p f g => by
    funext s
    show ((p s).bind _).bind _ = (p s).bind _
    rcases p s with _ | ⟨_ | _, _⟩ <;> rfl)

instance : MonadExceptOf ε (Throwing σ ε) where
  throw e := fun s => some (.error e, s)
  tryCatch p h := fun s => (p s).bind fun
    | (.ok a, s') => some (.ok a, s')
    | (.error e, s') => h e s'

/-- The state. -/
def read : Throwing σ ε σ := fun s => some (.ok s, s)

/-- Change the state. -/
def update (f : σ → σ) : Throwing σ ε PUnit := fun s => some (.ok ⟨⟩, f s)

/-- A run whose behaviour the language does not define. -/
def undefined : Throwing σ ε α := fun _ => none

/-! ## Runs in parts -/

theorem bind_error {p : Throwing σ ε α} {f : α → Throwing σ ε β} {s s' : σ} {e : ε}
    (hp : p s = some (.error e, s')) : (p >>= f) s = some (.error e, s') := by
  show (p s).bind _ = _
  rw [hp]
  rfl

theorem bind_ok {p : Throwing σ ε α} {f : α → Throwing σ ε β} {s s' : σ} {a : α}
    (hp : p s = some (.ok a, s')) : (p >>= f) s = f a s' := by
  show (p s).bind _ = _
  rw [hp]
  rfl

theorem tryCatch_error {p : Throwing σ ε α} {handler : ε → Throwing σ ε α} {s s' : σ} {e : ε}
    (hp : p s = some (.error e, s')) : tryCatch p handler s = handler e s' := by
  show (p s).bind _ = _
  rw [hp]
  rfl

theorem tryCatch_ok {p : Throwing σ ε α} {handler : ε → Throwing σ ε α} {s s' : σ} {a : α}
    (hp : p s = some (.ok a, s')) : tryCatch p handler s = some (.ok a, s') := by
  show (p s).bind _ = _
  rw [hp]
  rfl

/-- A step that throws ends its loop. -/
theorem forM_cons_error {f : α → Throwing σ ε PUnit} {a : α} {l : List α} {s s' : σ} {e : ε}
    (hf : f a s = some (.error e, s')) : (a :: l).forM f s = some (.error e, s') :=
  bind_error hf

theorem forM_of_eq_nil {f : α → Throwing σ ε PUnit} {l : List α} {s : σ} (hl : l = []) :
    l.forM f s = some (.ok ⟨⟩, s) := by
  subst hl
  rfl

theorem forM_append (l l' : List α) (f : α → Throwing σ ε PUnit) :
    (l ++ l').forM f = l.forM f >>= fun _ => l'.forM f :=
  List.forM_append

theorem forM_map (l : List α) (g : α → β) (f : β → Throwing σ ε PUnit) :
    (l.map g).forM f = l.forM fun a => f (g a) :=
  List.forM_map

theorem forM_flatMap (l : List α) (g : α → List β) (f : β → Throwing σ ε PUnit) :
    (l.flatMap g).forM f = l.forM fun a => (g a).forM f := by
  induction l with
  | nil => rfl
  | cons a l ih =>
    rw [List.flatMap_cons, forM_append, ih]
    rfl

/-! ## Triples -/

/-- `p` goes from `P` to `Q` when it returns and to `E` when it throws. -/
def Triple (P : σ → Prop) (p : Throwing σ ε α) (Q : α → σ → Prop) (E : σ → Prop) : Prop :=
  ∀ ⦃s⦄, P s → ∃ r s', p s = some (r, s') ∧
    match r with
    | .ok a => Q a s'
    | .error _ => E s'

namespace Triple

variable {P P' : σ → Prop} {p : Throwing σ ε α} {Q Q' : α → σ → Prop} {E E' : σ → Prop}

theorem conseq (h : Triple P p Q E) (hP : ∀ s, P' s → P s) (hQ : ∀ a s, Q a s → Q' a s)
    (hE : ∀ s, E s → E' s) : Triple P' p Q' E' := by
  intro s hs
  obtain ⟨r, s', hrun, hpost⟩ := h (hP s hs)
  refine ⟨r, s', hrun, ?_⟩
  cases r with
  | ok a => exact hQ a s' hpost
  | error e => exact hE s' hpost

theorem pre (h : Triple P p Q E) (hP : ∀ s, P' s → P s) : Triple P' p Q E :=
  h.conseq hP (fun _ _ => id) fun _ => id

/-- A program that does not throw. -/
theorem noThrow (h : Triple P p Q fun _ => False) : Triple P p Q E :=
  h.conseq (fun _ => id) (fun _ _ => id) fun _ => False.elim

theorem pure {a : α} (h : ∀ s, P s → Q a s) : Triple P (Pure.pure a : Throwing σ ε α) Q E :=
  fun s hs => ⟨.ok a, s, rfl, h s hs⟩

theorem throw {e : ε} (h : ∀ s, P s → E s) :
    Triple P (MonadExcept.throw e : Throwing σ ε α) Q E :=
  fun s hs => ⟨.error e, s, rfl, h s hs⟩

theorem update {f : σ → σ} {Q : PUnit → σ → Prop} (h : ∀ s, P s → Q ⟨⟩ (f s)) :
    Triple P (Throwing.update f : Throwing σ ε PUnit) Q E :=
  fun s hs => ⟨.ok ⟨⟩, f s, rfl, h s hs⟩

theorem bind {f : α → Throwing σ ε β} {R : α → σ → Prop} {Q : β → σ → Prop}
    (h : Triple P p R E) (hf : ∀ a, Triple (R a) (f a) Q E) : Triple P (p >>= f) Q E := by
  intro s hs
  obtain ⟨r, s₁, hp, hmid⟩ := h hs
  cases r with
  | ok a =>
    obtain ⟨r, s', hrest, hpost⟩ := hf a hmid
    refine ⟨r, s', ?_, hpost⟩
    show (p s).bind _ = _
    rw [hp]
    exact hrest
  | error e =>
    refine ⟨.error e, s₁, ?_, hmid⟩
    show (p s).bind _ = _
    rw [hp]
    rfl

/-- The program that goes on with what the state is. -/
theorem read {f : σ → Throwing σ ε β} {Q : β → σ → Prop}
    (h : ∀ s, P s → Triple (fun t => t = s) (f s) Q E) :
    Triple P (Throwing.read >>= f) Q E :=
  fun s hs => h s hs rfl

theorem tryCatch {handler : ε → Throwing σ ε α} {R : σ → Prop} (h : Triple P p Q R)
    (hh : ∀ e, Triple R (handler e) Q E) : Triple P (MonadExcept.tryCatch p handler) Q E := by
  intro s hs
  obtain ⟨r, s₁, hp, hmid⟩ := h hs
  cases r with
  | ok a =>
    refine ⟨.ok a, s₁, ?_, hmid⟩
    show (p s).bind _ = _
    rw [hp]
    rfl
  | error e =>
    obtain ⟨r, s', hrest, hpost⟩ := hh e hmid
    refine ⟨r, s', ?_, hpost⟩
    show (p s).bind _ = _
    rw [hp]
    exact hrest

theorem ite {c : Prop} [Decidable c] {q : Throwing σ ε α} (ht : c → Triple P p Q E)
    (hf : ¬c → Triple P q Q E) : Triple P (if c then p else q) Q E := by
  by_cases hc : c
  · rw [if_pos hc]
    exact ht hc
  · rw [if_neg hc]
    exact hf hc

/-- A loop that builds a value; the invariant speaks of the elements to do. -/
theorem foldlM {f : β → α → Throwing σ ε β} (I : List α → β → σ → Prop)
    (h : ∀ a rest b, Triple (I (a :: rest) b) (f b a) (I rest) E) (l : List α) (b : β) :
    Triple (I l b) (l.foldlM f b) (I []) E := by
  induction l generalizing b with
  | nil => exact Triple.pure fun _ => id
  | cons a rest ih =>
    rw [List.foldlM_cons]
    exact (h a rest b).bind ih

/-- A loop whose invariant does not change. -/
theorem forM_const {f : α → Throwing σ ε PUnit} {l : List α} {I : σ → Prop}
    (h : ∀ a ∈ l, Triple I (f a) (fun _ => I) E) : Triple I (l.forM f) (fun _ => I) E := by
  induction l with
  | nil => exact Triple.pure fun _ => id
  | cons a l ih =>
    exact (h a List.mem_cons_self).bind fun _ => ih fun b hb => h b (List.mem_cons_of_mem _ hb)

end Triple

end Throwing

end Sem
