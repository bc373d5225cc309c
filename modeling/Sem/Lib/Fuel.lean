import Mathlib.Data.List.Forall2
import Mathlib.Logic.Basic
import Mathlib.Order.Basic

/-!
# Loops with fuel

A recursive procedure that may not return is a family of partial functions: with fuel `n`, it gives
up at a depth of `n` calls. More fuel never changes a result.

* `foldlM_inv`, `foldlM_keeps`: what a loop keeps, with or without the part of the list that is
  still to come.
* `foldlM_mono`: more fuel for each pass.
* `exists_foldlM`: a loop whose passes return with some fuel returns with some fuel.
* `mapM_eq_some_iff`: a sequence of results is one result after the other.
-/

namespace Sem

universe u v

variable {S : Type u} {α : Type v}

theorem foldlM_inv {f : S → α → Option S} {P : List α → S → Prop}
    (hstep : ∀ x l s s', P (x :: l) s → f s x = some s' → P l s') {l : List α} {s s' : S}
    (hs : P l s) (h : l.foldlM f s = some s') : P [] s' := by
  induction l generalizing s with
  | nil => exact Option.some.inj h ▸ hs
  | cons x l ih =>
    rw [List.foldlM_cons] at h
    obtain ⟨t, ht, h⟩ := Option.bind_eq_some_iff.mp h
    exact ih (hstep x l s t hs ht) h

/-- What every pass keeps. -/
theorem foldlM_keeps {f : S → α → Option S} {P : S → Prop} {l : List α} {s s' : S}
    (hstep : ∀ x ∈ l, ∀ s s', P s → f s x = some s' → P s') (hs : P s)
    (h : l.foldlM f s = some s') : P s' := by
  induction l generalizing s with
  | nil => exact Option.some.inj h ▸ hs
  | cons x l ih =>
    rw [List.foldlM_cons] at h
    obtain ⟨t, ht, h⟩ := Option.bind_eq_some_iff.mp h
    exact ih (fun y hy => hstep y (List.mem_cons_of_mem x hy)) (hstep x List.mem_cons_self s t hs ht)
      h

/-- Every pass of a loop that returns has returned. -/
theorem exists_pass {f : S → α → Option S} {P : S → Prop} {l : List α} {s s' : S} {x : α}
    (hstep : ∀ x ∈ l, ∀ s s', P s → f s x = some s' → P s') (hs : P s)
    (h : l.foldlM f s = some s') (hx : x ∈ l) : ∃ t t', P t ∧ f t x = some t' := by
  induction l generalizing s with
  | nil => cases hx
  | cons y l ih =>
    rw [List.foldlM_cons] at h
    obtain ⟨t, ht, h⟩ := Option.bind_eq_some_iff.mp h
    rcases List.mem_cons.mp hx with rfl | hx
    · exact ⟨s, t, hs, ht⟩
    · exact ih (fun z hz => hstep z (List.mem_cons_of_mem y hz))
        (hstep y List.mem_cons_self s t hs ht) h hx

theorem foldlM_mono {f g : S → α → Option S} (hfg : ∀ s x s', f s x = some s' → g s x = some s')
    {l : List α} {s s' : S} (h : l.foldlM f s = some s') : l.foldlM g s = some s' := by
  induction l generalizing s with
  | nil => exact h
  | cons x l ih =>
    rw [List.foldlM_cons] at h ⊢
    obtain ⟨t, ht, h⟩ := Option.bind_eq_some_iff.mp h
    exact Option.bind_eq_some_iff.mpr ⟨t, hfg s x t ht, ih h⟩

/-- More fuel gives the same result. -/
def FuelMono (f : ℕ → S → α → Option S) : Prop :=
  ∀ n m s x s', n ≤ m → f n s x = some s' → f m s x = some s'

theorem exists_foldlM {f : ℕ → S → α → Option S} {P : S → Prop} (hmono : FuelMono f) {l : List α}
    (hf : ∀ x ∈ l, ∀ s, P s → ∃ n s', f n s x = some s' ∧ P s') {s : S} (hs : P s) :
    ∃ n s', l.foldlM (f n) s = some s' ∧ P s' := by
  induction l generalizing s with
  | nil => exact ⟨0, s, rfl, hs⟩
  | cons x l ih =>
    obtain ⟨n, t, ht, hPt⟩ := hf x List.mem_cons_self s hs
    obtain ⟨m, s', hs', hPs'⟩ := ih (fun y hy => hf y (List.mem_cons_of_mem x hy)) hPt
    refine ⟨max n m, s', ?_, hPs'⟩
    rw [List.foldlM_cons]
    refine Option.bind_eq_some_iff.mpr ⟨t, hmono n _ s x t (Nat.le_max_left n m) ht, ?_⟩
    exact foldlM_mono (fun s x s' h => hmono m _ s x s' (Nat.le_max_right n m) h) hs'

/-! ## Sequences of results -/

variable {A : Type u} {B : Type v} {f : A → Option B} {l : List A} {l' : List B} {a : A} {b : B}

theorem mapM_eq_some_iff : l.mapM f = some l' ↔ List.Forall₂ (fun a b => f a = some b) l l' := by
  induction l generalizing l' with
  | nil => cases l' <;> simp
  | cons a l ih =>
    rw [List.mapM_cons, List.forall₂_cons_left_iff]
    cases ha : f a with
    | none => simp
    | some b =>
      simp only [← ih]
      cases hl : l.mapM f <;> simp
      grind

theorem exists_image_of_mapM (h : l.mapM f = some l') (ha : a ∈ l) : ∃ b ∈ l', f a = some b := by
  induction mapM_eq_some_iff.mp h with
  | nil => cases ha
  | @cons a₀ b₀ l l' hb hl ih =>
    rcases List.mem_cons.mp ha with rfl | ha
    · exact ⟨b₀, List.mem_cons_self, hb⟩
    · obtain ⟨b, hmem, hb⟩ := ih (mapM_eq_some_iff.mpr hl) ha
      exact ⟨b, List.mem_cons_of_mem b₀ hmem, hb⟩

theorem exists_source_of_mapM (h : l.mapM f = some l') (hb : b ∈ l') : ∃ a ∈ l, f a = some b := by
  induction mapM_eq_some_iff.mp h with
  | nil => cases hb
  | @cons a₀ b₀ l l' ha hl ih =>
    rcases List.mem_cons.mp hb with rfl | hb
    · exact ⟨a₀, List.mem_cons_self, ha⟩
    · obtain ⟨a, hmem, ha⟩ := ih (mapM_eq_some_iff.mpr hl) hb
      exact ⟨a, List.mem_cons_of_mem a₀ hmem, ha⟩

theorem mapM_mono {g : A → Option B} (hfg : ∀ a b, f a = some b → g a = some b)
    (h : l.mapM f = some l') : l.mapM g = some l' :=
  mapM_eq_some_iff.mpr ((mapM_eq_some_iff.mp h).imp hfg)

/-- One amount of fuel is enough for all of a list. -/
theorem exists_fuel_mapM {f : ℕ → A → Option B}
    (hmono : ∀ m n a b, m ≤ n → f m a = some b → f n a = some b)
    (h : ∀ a ∈ l, ∃ n b, f n a = some b) : ∃ n l', l.mapM (f n) = some l' := by
  induction l with
  | nil => exact ⟨0, [], by simp⟩
  | cons a l ih =>
    obtain ⟨m, b, hb⟩ := h a List.mem_cons_self
    obtain ⟨n, l', hl⟩ := ih fun c hc => h c (List.mem_cons_of_mem a hc)
    have hb := hmono m (max m n) a b (Nat.le_max_left m n) hb
    have hl := mapM_mono (fun a b => hmono n (max m n) a b (Nat.le_max_right m n)) hl
    exact ⟨max m n, b :: l', by simp [hb, hl]⟩

theorem exists_mapM_of_forall (h : ∀ a ∈ l, ∃ b, f a = some b) : ∃ l', l.mapM f = some l' := by
  induction l with
  | nil => exact ⟨[], by simp⟩
  | cons a l ih =>
    obtain ⟨b, hb⟩ := h a List.mem_cons_self
    obtain ⟨l', hl⟩ := ih fun c hc => h c (List.mem_cons_of_mem a hc)
    exact ⟨b :: l', by simp [hb, hl]⟩

end Sem
