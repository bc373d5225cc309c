import Mathlib.Data.Nat.Notation
import Mathlib.Logic.Basic

/-!
# Runs of labelled transition systems

A component is a type of states, the initial states and a relation that says what one action may
do. Everything that is claimed of *every run* is an **inductive property**: it holds initially and
every action keeps it. Some components keep their property only while the actions meet a
condition; `ReachBy ok` are the states of the runs all of whose actions meet `ok`.

* `Lts.ReachBy`, `Lts.Reach`: the states of conditional and of arbitrary runs.
* `InductiveBy.reach`: what is initially true and kept by every action that meets the condition
  holds in every state of such a run.
* `Lts.ofFun`: the system of a partial step function, with `runBy`, which executes a list of
  actions and checks the condition on the way.
* `runBy_potential`: a potential that no action raises and that each action of one kind lowers is
  down to 0 once there were as many of them, whatever else happens in between.
-/

namespace Sem

universe u v

/-- A labelled transition system: initial states and the effect of one action. -/
structure Lts (S : Type u) (A : Type v) where
  init : S → Prop
  step : S → A → S → Prop

namespace Lts

variable {S : Type u} {A : Type v} (L : Lts S A)

/-- The states of the runs in which every action meets `ok` in the state it is taken from. -/
inductive ReachBy (ok : S → A → Prop) : S → Prop
  | init {s : S} : L.init s → ReachBy ok s
  | step {s s' : S} (a : A) : ReachBy ok s → ok s a → L.step s a s' → ReachBy ok s'

/-- The reachable states. -/
def Reach : S → Prop := L.ReachBy fun _ _ => True

/-- `I` holds initially and every action that meets `ok` keeps it. -/
structure InductiveBy (ok : S → A → Prop) (I : S → Prop) : Prop where
  init : ∀ {s}, L.init s → I s
  step : ∀ {s a s'}, I s → ok s a → L.step s a s' → I s'

variable {L} {ok ok' : S → A → Prop} {I P : S → Prop}

theorem InductiveBy.reach (h : L.InductiveBy ok I) {s : S} (hs : L.ReachBy ok s) : I s := by
  induction hs with
  | init hi => exact h.init hi
  | step a _ ha hst ih => exact h.step ih ha hst

theorem ReachBy.mono (h : ∀ s a, ok s a → ok' s a) {s : S} (hs : L.ReachBy ok s) :
    L.ReachBy ok' s := by
  induction hs with
  | init hi => exact .init hi
  | step a _ ha hst ih => exact .step a ih (h _ _ ha) hst

theorem ReachBy.reach {s : S} (hs : L.ReachBy ok s) : L.Reach s :=
  hs.mono fun _ _ _ => trivial

/-- One more action of an arbitrary run. -/
theorem Reach.next {s s' : S} (hs : L.Reach s) (a : A) (h : L.step s a s') : L.Reach s' :=
  ReachBy.step a hs trivial h

/-! ## Systems of a partial step function -/

/-- The system that starts in `s₀` and steps by the partial function `f`. -/
def ofFun (s₀ : S) (f : S → A → Option S) : Lts S A where
  init s := s = s₀
  step s a s' := f s a = some s'

/-- Execute `as` from `s`; `none` when an action is disabled or does not meet `ok`. -/
def runBy (f : S → A → Option S) (ok : S → A → Prop) [∀ s a, Decidable (ok s a)] :
    S → List A → Option S
  | s, [] => some s
  | s, a :: as => if ok s a then (f s a).bind fun s' => runBy f ok s' as else none

/-- Execute `as` from `s`; `none` when an action is disabled. -/
def run (f : S → A → Option S) (s : S) (as : List A) : Option S :=
  runBy f (fun _ _ => True) s as

theorem ReachBy.runBy {s₀ : S} {f : S → A → Option S} [∀ s a, Decidable (ok s a)]
    {s s' : S} {as : List A} (hs : (ofFun s₀ f).ReachBy ok s) (h : Lts.runBy f ok s as = some s') :
    (ofFun s₀ f).ReachBy ok s' := by
  induction as generalizing s with
  | nil =>
    simp only [Lts.runBy, Option.some.injEq] at h
    exact h ▸ hs
  | cons a as ih =>
    simp only [Lts.runBy] at h
    split at h
    · rename_i ha
      obtain ⟨t, ht, hrest⟩ := Option.bind_eq_some_iff.mp h
      exact ih (.step a hs ha ht) hrest
    · cases h

/-- A list of actions that meet the condition leads to a state of a conditional run. -/
theorem reachBy_of_runBy {s₀ s' : S} {f : S → A → Option S} [∀ s a, Decidable (ok s a)]
    {as : List A} (h : Lts.runBy f ok s₀ as = some s') : (ofFun s₀ f).ReachBy ok s' :=
  ReachBy.runBy (.init rfl) h

theorem reach_of_run {s₀ s' : S} {f : S → A → Option S} {as : List A}
    (h : Lts.run f s₀ as = some s') : (ofFun s₀ f).Reach s' :=
  reachBy_of_runBy h

/-! ## Progress -/

/-- What the actions keep, and what is left of a potential that the actions of one kind lower. -/
theorem runBy_potential {f : S → A → Option S} [∀ s a, Decidable (ok s a)] {allowed : A → Prop}
    {serves : A → Bool} {φ : S → ℕ}
    (hstep : ∀ {s a s'}, I s → allowed a → ok s a → f s a = some s' →
      I s' ∧ φ s' ≤ φ s - (serves a).toNat)
    {s s' : S} {as : List A} (hs : I s) (hall : ∀ a ∈ as, allowed a)
    (hrun : Lts.runBy f ok s as = some s') : I s' ∧ φ s' ≤ φ s - as.countP serves := by
  induction as generalizing s with
  | nil =>
    obtain rfl := Option.some.inj hrun
    exact ⟨hs, Nat.le_refl _⟩
  | cons a as ih =>
    simp only [Lts.runBy] at hrun
    split at hrun
    · rename_i ha
      obtain ⟨t, ht, hrest⟩ := Option.bind_eq_some_iff.mp hrun
      obtain ⟨hit, hle⟩ := hstep hs (hall a List.mem_cons_self) ha ht
      obtain ⟨hit', hle'⟩ := ih hit (fun b hb => hall b (List.mem_cons_of_mem a hb)) hrest
      refine ⟨hit', ?_⟩
      rw [List.countP_cons]
      cases hserves : serves a <;> simp only [hserves, Bool.toNat_true, Bool.toNat_false, if_true,
        Bool.false_eq_true, if_false] at hle ⊢ <;> omega
    · cases hrun

end Lts

end Sem
