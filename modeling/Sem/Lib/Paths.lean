import Mathlib.Data.List.Nodup
import Mathlib.Data.List.Lattice

/-!
# Paths from the root of a tree

Two paths from the root of one tree run together for a while and never meet again. `SameTree` says
of two lists that they are such paths: an element that is on both has the same elements before it.

* `SameTree.exists_fork`: a common part, then two parts without a common element.
* `find?_reverse_fork`: going up one path, the first element that is on the other one ends the
  common part.
* `agreeOnShared_fork`: with a label for every element of a path, two labellings agree on the
  elements of both paths exactly when they agree on the common part.
-/

namespace Sem

variable {α β : Type*}

/-- An element of both lists has the same elements before it in either. -/
def SameTree (p q : List α) : Prop :=
  ∀ k l a, p[k]? = some a → q[l]? = some a → p.take k = q.take l

theorem SameTree.nodup {p : List α} (h : SameTree p p) : p.Nodup := by
  refine List.nodup_iff_getElem?_ne_getElem?.mpr fun k l hkl hl heq => ?_
  have hk : p[k]? = some p[k] := List.getElem?_eq_getElem (by omega)
  have htake := congrArg List.length (h k l _ hk (heq ▸ hk))
  rw [List.length_take, List.length_take] at htake
  omega

theorem SameTree.tail {a : α} {p q : List α} (h : SameTree (a :: p) (a :: q)) : SameTree p q := by
  intro k l b hk hl
  have := h (k + 1) (l + 1) b (by simpa using hk) (by simpa using hl)
  simpa using this

theorem SameTree.append_left {w p q : List α} (h : SameTree (w ++ p) (w ++ q)) : SameTree p q := by
  induction w with
  | nil => exact h
  | cons a w ih => exact ih h.tail

/-- **Two paths run together and never meet again.** -/
theorem SameTree.exists_fork {p q : List α} (h : SameTree p q) :
    ∃ c x y, p = c ++ x ∧ q = c ++ y ∧ x.Disjoint y := by
  induction p generalizing q with
  | nil => exact ⟨[], [], q, rfl, rfl, List.disjoint_nil_left q⟩
  | cons a p ih =>
    cases q with
    | nil => exact ⟨[], a :: p, [], rfl, rfl, List.disjoint_nil_right _⟩
    | cons b q =>
      by_cases hab : a = b
      · subst hab
        obtain ⟨c, x, y, rfl, rfl, hdis⟩ := ih h.tail
        exact ⟨a :: c, x, y, rfl, rfl, hdis⟩
      · refine ⟨[], a :: p, b :: q, rfl, rfl, fun d hp hq => ?_⟩
        obtain ⟨k, hk⟩ := List.mem_iff_getElem?.mp hp
        obtain ⟨l, hl⟩ := List.mem_iff_getElem?.mp hq
        have htake := h k l d hk hl
        -- the paths have different first elements
        cases k with
        | zero =>
          cases l with
          | zero =>
            rw [List.getElem?_cons_zero] at hk hl
            exact hab (Option.some.inj (hk.trans hl.symm))
          | succ l => cases htake
        | succ k =>
          cases l with
          | zero => cases htake
          | succ l => exact hab (List.cons.inj htake).1

section Fork

variable {c x y : List α}

theorem find?_reverse_fork {other : α → Bool} (hother : ∀ a, other a = true ↔ a ∈ c ++ y)
    (hnd : (c ++ x).Nodup) (hdis : x.Disjoint y) (hc : c ≠ []) :
    (c ++ x).reverse.find? other = some (c.getLast hc) := by
  have hx : x.reverse.find? other = none := by
    refine List.find?_eq_none.mpr fun a ha hmem => ?_
    have hax := List.mem_reverse.mp ha
    rcases List.mem_append.mp ((hother a).mp hmem) with hac | hay
    · exact List.disjoint_of_nodup_append hnd hac hax
    · exact hdis hax hay
  have hlast : c.reverse = c.getLast hc :: c.dropLast.reverse := by
    conv_lhs => rw [← List.dropLast_append_getLast hc]
    rw [List.reverse_append, List.reverse_singleton, List.singleton_append]
  have hmem : other (c.getLast hc) = true :=
    (hother _).mpr (List.mem_append_left _ (List.getLast_mem hc))
  rw [List.reverse_append, List.find?_append, hx, Option.none_or, hlast,
    List.find?_cons_of_pos hmem]

variable [DecidableEq α]

/-- The labels `i` of `p` and `j` of `q` agree on the elements of both. -/
def AgreeOnShared (p : List α) (i : List β) (q : List α) (j : List β) : Prop :=
  ∀ a ∈ p, a ∈ q → (p.zip i).lookup a = (q.zip j).lookup a

instance [DecidableEq β] (p : List α) (i : List β) (q : List α) (j : List β) :
    Decidable (AgreeOnShared p i q j) :=
  List.decidableBAll _ p

/-- The label of an element of the first part. -/
theorem lookup_zip_append {a : α} (ha : a ∈ c) (x : List α) {i : List β}
    (hi : c.length ≤ i.length) :
    ((c ++ x).zip i).lookup a = (c.zip (i.take c.length)).lookup a := by
  induction c generalizing i with
  | nil => cases ha
  | cons b c ih =>
    cases i with
    | nil => simp at hi
    | cons n i =>
      rw [List.cons_append, List.zip_cons_cons, List.length_cons, List.take_succ_cons,
        List.zip_cons_cons, List.lookup_cons, List.lookup_cons]
      by_cases hab : a = b
      · simp [hab]
      · have hmem : a ∈ c := (List.mem_cons.mp ha).resolve_left hab
        have hle : c.length ≤ i.length := by simpa using hi
        rw [beq_false_of_ne hab]
        exact ih hmem hle

/-- The labels of a path are what its elements are labelled with. -/
theorem eq_of_lookup_zip {i j : List β} (hnd : c.Nodup) (hi : i.length = c.length)
    (hj : j.length = c.length) (h : ∀ a ∈ c, (c.zip i).lookup a = (c.zip j).lookup a) : i = j := by
  induction c generalizing i j with
  | nil => rw [List.length_eq_zero_iff.mp hi, List.length_eq_zero_iff.mp hj]
  | cons a c ih =>
    cases i with
    | nil => cases hi
    | cons m i =>
      cases j with
      | nil => cases hj
      | cons n j =>
        obtain ⟨hac, hnd⟩ := List.nodup_cons.mp hnd
        have hmn : m = n := by simpa using h a (by simp)
        have hrest : i = j := by
          refine ih hnd (by simpa using hi) (by simpa using hj) fun b hb => ?_
          have hba : b ≠ a := fun heq => hac (heq ▸ hb)
          simpa [List.lookup_cons, beq_false_of_ne hba] using h b (List.mem_cons_of_mem _ hb)
        rw [hmn, hrest]

/-- **Agreeing on the elements of both paths is agreeing on the common part.** -/
theorem agreeOnShared_fork {i j : List β} (hnd : (c ++ x).Nodup) (hdis : x.Disjoint y)
    (hi : i.length = (c ++ x).length) (hj : j.length = (c ++ y).length) :
    AgreeOnShared (c ++ x) i (c ++ y) j ↔ i.take c.length = j.take c.length := by
  rw [List.length_append] at hi hj
  have hci : c.length ≤ i.length := by omega
  have hcj : c.length ≤ j.length := by omega
  constructor
  · intro h
    refine eq_of_lookup_zip hnd.of_append_left (by simp [hci]) (by simp [hcj]) fun a ha => ?_
    rw [← lookup_zip_append ha x hci, ← lookup_zip_append ha y hcj]
    exact h a (List.mem_append_left _ ha) (List.mem_append_left _ ha)
  · intro h a hax hay
    have ha : a ∈ c := by
      rcases List.mem_append.mp hax with hc | hx
      · exact hc
      · exact (List.mem_append.mp hay).resolve_right fun hy => hdis hx hy
    rw [lookup_zip_append ha x hci, lookup_zip_append ha y hcj, h]

end Fork

end Sem
