import Mathlib.Algebra.BigOperators.Group.List.Basic
import Mathlib.Algebra.Group.Prod
import Mathlib.Tactic.Linarith
import Sem.OpenCL.Kmeans

/-!
# The kernels of an iteration

What the two kernels of K-means leave in memory, whatever the order of their work items.

* `classifyPoints_meets`: each point has the nearest centroid as its class.
* `adjustCentroids_meets`: each work group has, for each centroid, the sum of the halving tree over
  what its items picked up in strides.
-/

namespace Sem.OpenCL.KmeansSizes

open Sem.Kernel

variable {z : KmeansSizes} {points centers : ℕ → Float4}

/-! ## Classification -/

section Classify

/-- Every point's class is the item's own cell. -/
def classTerritory : z.Cell → Option Unit
  | .classes _ => some ()
  | _ => none

/-- The point whose class is in a cell. -/
def classOwner : z.Cell → Option (Fin z.numPoints)
  | .classes i => if h : i < z.numPoints then some ⟨i, h⟩ else none
  | _ => none

/-- One more centroid that is nearer than all before. -/
theorem Nearest.closer {k cur : ℕ} {dist : ℕ → ℚ} (h : k = 0 ∨ Nearest k dist cur ∧ dist k < dist cur) :
    Nearest (k + 1) dist k := by
  have hlt : ∀ d < k, dist k < dist d := by
    intro d hd
    rcases h with rfl | ⟨hnearest, hless⟩
    · omega
    · exact lt_of_lt_of_le hless (hnearest.2.1 d hd)
  refine ⟨Nat.lt_succ_self k, fun d hd => ?_, hlt⟩
  rcases Nat.lt_succ_iff_lt_or_eq.mp hd with hless | rfl
  · exact (hlt d hless).le
  · exact le_refl _

/-- One more centroid that is not. -/
theorem Nearest.keep {k cur : ℕ} {dist : ℕ → ℚ} (h : Nearest k dist cur) (hle : dist cur ≤ dist k) :
    Nearest (k + 1) dist cur := by
  refine ⟨Nat.lt_succ_of_lt h.1, fun d hd => ?_, h.2.2⟩
  rcases Nat.lt_succ_iff_lt_or_eq.mp hd with hless | rfl
  · exact h.2.1 d hless
  · exact hle

theorem Nearest.unique {n c d : ℕ} {dist : ℕ → ℚ} (hc : Nearest n dist c) (hd : Nearest n dist d) :
    c = d := by
  rcases Nat.lt_trichotomy c d with hlt | rfl | hlt
  · exact absurd (hd.2.2 c hlt) (not_lt.mpr (hc.2.1 d hd.1))
  · rfl
  · exact absurd (hc.2.2 d hlt) (not_lt.mpr (hd.2.1 c hc.1))

variable {index : ℕ} {p : Float4}

/-- The scan, from the centroid `k` on. -/
theorem classifyFrom_wp (hindex : index < z.numPoints) (hmax : ∀ c < z.numCenters,
      sqDistance p (centers c) < fltMax * fltMax) {k r : ℕ} (hk : k + r = z.numCenters)
    {minDist : ℚ} {m : z.Memory} (hp : m (.points index) = p)
    (hcenters : ∀ c < z.numCenters, m (.centers c) = centers c)
    (hmin : k = 0 ∧ minDist = fltMax * fltMax ∨
      Nearest k (fun d => sqDistance p (centers d)) (m (.classes index)) ∧
        minDist = sqDistance p (centers (m (.classes index)))) :
    (z.classifyFrom index (List.range' k r) minDist).Wp z.Exists
      (Readable classTerritory classOwner () ⟨index, hindex⟩)
      (fun c => classOwner c = some ⟨index, hindex⟩)
      (fun _ m => Nearest z.numCenters (fun d => sqDistance p (centers d)) (m (.classes index))) m := by
  induction r generalizing k minDist m with
  | zero =>
    have hpos := z.numCenters_pos
    rw [List.range'_zero, classifyFrom, Prog.wp_pure]
    rcases hmin with ⟨hzero, -⟩ | ⟨hnearest, -⟩
    · omega
    · rwa [← hk]
  | succ r ih =>
    have hklt : k < z.numCenters := by omega
    rw [List.range'_succ, classifyFrom]
    simp only [Prog.wp_bind, Prog.wp_get, hp, hcenters k hklt]
    refine ⟨⟨hindex, .inr ⟨rfl, .inl rfl⟩⟩, ⟨hklt, .inr ⟨rfl, .inl rfl⟩⟩, ?_⟩
    by_cases hlt : sqDistance p (centers k) < minDist
    · rw [if_pos hlt, Prog.wp_bind, Prog.wp_set]
      refine ⟨⟨hindex, dif_pos hindex⟩, ih (by omega) ?_ ?_ (.inr ?_)⟩
      · rwa [Function.update_of_ne (by simp)]
      · intro c hc
        rw [Function.update_of_ne (by simp), hcenters c hc]
      · rw [Function.update_self]
        have hbefore : k = 0 ∨ Nearest k (fun d => sqDistance p (centers d)) (m (.classes index)) ∧
            sqDistance p (centers k) < sqDistance p (centers (m (.classes index))) := by
          rcases hmin with ⟨hzero, -⟩ | ⟨hnearest, hdist⟩
          · exact .inl hzero
          · exact .inr ⟨hnearest, hdist ▸ hlt⟩
        exact ⟨Nearest.closer hbefore, rfl⟩
    · rw [if_neg hlt]
      refine ih (by omega) hp hcenters (.inr ?_)
      rcases hmin with ⟨rfl, rfl⟩ | ⟨hnearest, rfl⟩
      · exact absurd (hmax 0 hklt) hlt
      · exact ⟨hnearest.keep (not_lt.mp hlt), rfl⟩

/-- **The classification, in any order.** -/
theorem classifyPoints_meets {m : z.Memory} (hpoints : ∀ i < z.numPoints, m (.points i) = points i)
    (hcenters : ∀ c < z.numCenters, m (.centers c) = centers c)
    (hmax : ∀ i < z.numPoints, ∀ c < z.numCenters,
      sqDistance (points i) (centers c) < fltMax * fltMax) :
    Meets (fun _ : Fin z.numPoints => ()) [fun i _ => z.classifyPoints i] (fun _ => ()) m z.Exists
      fun m => ∀ i < z.numPoints, m (.points i) = points i ∧
        Nearest z.numCenters (fun d => sqDistance (points i) (centers d)) (m (.classes i)) := by
  refine Proof.meets classTerritory
    (fun _ _ m => (∀ i < z.numPoints, m (.points i) = points i) ∧
      ∀ c < z.numCenters, m (.centers c) = centers c)
    (fun _ _ m => ∀ i < z.numPoints, m (.points i) = points i ∧
        Nearest z.numCenters (fun d => sqDistance (points i) (centers d)) (m (.classes i)))
    (fun _ _ m' _ hm => ⟨fun i hi => ?_, fun c hc => ?_⟩) (fun _ => ⟨_, ?_, fun _ _ h => h⟩)
    fun _ m h => h ()
  · rw [hm _ (.inl rfl), hpoints i hi]
  · rw [hm _ (.inl rfl), hcenters c hc]
  refine Phase.of_wp (Q := fun _ _ i _ m => Nearest z.numCenters
    (fun d => sqDistance (points i) (centers d)) (m (.classes i))) classOwner ?_ ?_ ?_
  · intro c i hc
    refine ⟨rfl, ?_⟩
    cases c <;> first | rfl | cases hc
  · rintro own m ⟨hp, hc⟩ i -
    rw [classifyPoints, List.range_eq_range']
    exact classifyFrom_wp i.2 (hmax i i.2) (Nat.zero_add _) (hp i i.2) hc (.inl ⟨rfl, rfl⟩)
  · rintro own m own' m' ⟨hp, -⟩ hitems hrest i hi
    refine ⟨?_, ?_⟩
    · rw [hrest _ rfl (.inl rfl), hp i hi]
    · obtain ⟨mi, hnearest, hmi⟩ := hitems ⟨i, hi⟩ rfl
      rw [hmi (.classes i) (dif_pos hi)]
      exact hnearest

end Classify

/-! ## Adjustment -/

section Adjust

/-- A work group's own cells. -/
def groupTerritory : z.Cell → Option (Fin z.numGroups)
  | .localCenters g _ | .localCounts g _ => some g
  | .workGroupCenters i | .workGroupCounts i => some ⟨i % z.numGroups, Nat.mod_lt i z.numGroups_pos⟩
  | _ => none

/-- The first `n` items of a work group own the cells of their column. -/
def localOwner (g : Fin z.numGroups) (n : ℕ) : z.Cell → Option z.WorkItem
  | .localCenters g' i | .localCounts g' i =>
    if g' = g ∧ i % z.localSize < n then
      some (g, ⟨i % z.localSize, Nat.mod_lt i z.localSize_pos⟩)
    else none
  | _ => none

/-- The first item of a work group owns the group's results. -/
def resultOwner (g : Fin z.numGroups) : z.Cell → Option z.WorkItem
  | .workGroupCenters i | .workGroupCounts i =>
    if i % z.numGroups = g then some (g, ⟨0, z.localSize_pos⟩) else none
  | _ => none

/-- An accumulator of a work group: sum and count. -/
def acc (m : z.Memory) (g : Fin z.numGroups) (i : ℕ) : Float4 × ℕ :=
  (m (.localCenters g i), m (.localCounts g i))

/-- Write both parts of an accumulator. -/
def setAcc (m : z.Memory) (g : Fin z.numGroups) (i : ℕ) (v : Float4 × ℕ) : z.Memory :=
  Function.update (Function.update m (.localCenters g i) v.1) (.localCounts g i) v.2

variable {m m' : z.Memory} {g : Fin z.numGroups} {i j : ℕ} {v : Float4 × ℕ}

@[simp] theorem acc_setAcc : acc (setAcc m g i v) g i = v := by
  unfold acc setAcc
  rw [Function.update_self, Function.update_of_ne (by nofun), Function.update_self]

theorem acc_setAcc_of_ne (h : j ≠ i) : acc (setAcc m g i v) g j = acc m g j := by
  unfold acc setAcc
  rw [Function.update_of_ne (by nofun), Function.update_of_ne (by simpa using h),
    Function.update_of_ne (by simpa using h), Function.update_of_ne (by nofun)]

@[simp] theorem setAcc_points : setAcc m g i v (.points j) = m (.points j) := by
  unfold setAcc
  rw [Function.update_of_ne (by nofun), Function.update_of_ne (by nofun)]

@[simp] theorem setAcc_classes : setAcc m g i v (.classes j) = m (.classes j) := by
  unfold setAcc
  rw [Function.update_of_ne (by nofun), Function.update_of_ne (by nofun)]

/-- An accumulator's cells are told apart by centroid and item. -/
theorem column_inj {c c' l l' n : ℕ} (hl : l < n) (hl' : l' < n) (h : c * n + l = c' * n + l') :
    c = c' ∧ l = l' := by
  have hmod := congrArg (· % n) h
  simp only [Nat.mul_add_mod_self_right, Nat.mod_eq_of_lt hl, Nat.mod_eq_of_lt hl'] at hmod
  subst hmod
  exact ⟨Nat.eq_of_mul_eq_mul_right (by omega) (Nat.add_right_cancel h), rfl⟩

theorem column_lt {c l n k : ℕ} (hc : c < k) (hl : l < n) : c * n + l < n * k :=
  calc c * n + l < (c + 1) * n := by rw [Nat.succ_mul]; omega
    _ ≤ n * k := by rw [Nat.mul_comm]; exact Nat.mul_le_mul_left n hc

theorem mem_range_of_split {n x : ℕ} {xs₁ xs₂ : List ℕ} (h : List.range n = xs₁ ++ x :: xs₂) :
    x < n ∧ x ∉ xs₁ := by
  have hmem : x ∈ List.range n := by
    rw [h]
    exact List.mem_append_right _ List.mem_cons_self
  refine ⟨List.mem_range.mp hmem, fun hbefore => ?_⟩
  have hnodup := List.nodup_range (n := n)
  rw [h] at hnodup
  exact (List.nodup_append.mp hnodup).2.2 x hbefore x List.mem_cons_self rfl

variable {w : z.WorkItem} {n : ℕ}

theorem localOwner_centers {c l : ℕ} (hl : l < z.localSize) :
    localOwner g n (.localCenters g (c * z.localSize + l)) =
      if l < n then some (g, ⟨l, hl⟩) else none := by
  simp [localOwner, Nat.mod_eq_of_lt hl]

theorem localOwner_counts {c l : ℕ} (hl : l < z.localSize) :
    localOwner g n (.localCounts g (c * z.localSize + l)) =
      if l < n then some (g, ⟨l, hl⟩) else none := by
  simp [localOwner, Nat.mod_eq_of_lt hl]

/-- What an item has at the barrier stays. -/
theorem acc_congr {c l : ℕ} (hl : l < z.localSize) (hn : l < n)
    (h : ∀ x, localOwner g n x = some (g, ⟨l, hl⟩) → m' x = m x) :
    acc m' g (c * z.localSize + l) = acc m g (c * z.localSize + l) := by
  unfold acc
  rw [h _ ((localOwner_centers hl).trans (if_pos hn)),
    h _ ((localOwner_counts hl).trans (if_pos hn))]

theorem localOwner_owned {x : z.Cell} (h : localOwner g n x = some w) :
    w.1 = g ∧ groupTerritory x = some g := by
  cases x with
  | localCenters g' i =>
    simp only [localOwner] at h
    split at h
    · rename_i hif
      cases h
      exact ⟨rfl, congrArg some hif.1⟩
    · cases h
  | localCounts g' i =>
    simp only [localOwner] at h
    split at h
    · rename_i hif
      cases h
      exact ⟨rfl, congrArg some hif.1⟩
    · cases h
  | _ => cases h

/-- What an item reads and writes at an accumulator of its own. -/
theorem readWrite {c l : ℕ} (hc : c < z.numCenters) (hl : l < z.localSize) (hn : l < n) :
    z.Exists (.localCenters g (c * z.localSize + l)) ∧
      z.Exists (.localCounts g (c * z.localSize + l)) ∧
      localOwner g n (.localCenters g (c * z.localSize + l)) = some (g, ⟨l, hl⟩) ∧
      localOwner g n (.localCounts g (c * z.localSize + l)) = some (g, ⟨l, hl⟩) :=
  ⟨column_lt hc hl, column_lt hc hl, (localOwner_centers hl).trans (if_pos hn),
    (localOwner_counts hl).trans (if_pos hn)⟩

/-- A point as a contribution to its centroid. -/
def weight (points : ℕ → Float4) (i : ℕ) : Float4 × ℕ := (points i, 1)

/-- What one item picks up for the centroid `c`. -/
def part (z : KmeansSizes) (points : ℕ → Float4) (cls : ℕ → ℕ) (c globalId : ℕ) : Float4 × ℕ :=
  (((strided (z.localSize * z.numGroups) z.numPoints globalId).filter (cls · = c)).map
    (weight points)).sum

variable {cls : ℕ → ℕ}

/-- The points and their classes are in memory. -/
def Given (z : KmeansSizes) (points : ℕ → Float4) (cls : ℕ → ℕ) (m : z.Memory) : Prop :=
  ∀ i < z.numPoints, m (.points i) = points i ∧ m (.classes i) = cls i

theorem Given.setAcc (h : z.Given points cls m) : z.Given points cls (setAcc m g i v) := by
  intro i hi
  rw [setAcc_points, setAcc_classes]
  exact h i hi

theorem accumulate_wp (hcls : ∀ i < z.numPoints, cls i < z.numCenters)
    (hm : z.Given points cls m) (w : z.WorkItem) :
    (z.accumulate w).Wp z.Exists (Readable groupTerritory (localOwner w.1 z.localSize) w.1 w)
      (fun c => localOwner w.1 z.localSize c = some w)
      (fun _ m' => ∀ c < z.numCenters, acc m' w.1 (c * z.localSize + w.2) =
        z.part points cls c w.globalId) m := by
  rw [accumulate, Prog.wp_bind]
  refine (Prog.wp_forM (fun done m => z.Given points cls m ∧
    ∀ c ∈ done, acc m w.1 (c * z.localSize + w.2) = 0) ?_ ⟨hm, by simp⟩).mono ?_
  · rintro done c rest m hsplit ⟨hgiven, hzero⟩
    obtain ⟨hc, -⟩ := mem_range_of_split hsplit
    obtain ⟨hcenter, hcount, hownCenter, hownCount⟩ :=
      readWrite (g := w.1) (n := z.localSize) hc w.2.2 w.2.2
    simp only [Prog.wp_bind, Prog.wp_set]
    refine ⟨⟨hcenter, hownCenter⟩, ⟨hcount, hownCount⟩, hgiven.setAcc (v := (0, 0)), fun d hd => ?_⟩
    change acc (KmeansSizes.setAcc m w.1 _ 0) w.1 _ = 0
    by_cases heq : d = c
    · rw [heq, acc_setAcc]
    · rw [acc_setAcc_of_ne fun h => heq (column_inj w.2.2 w.2.2 h).1]
      rcases List.mem_append.mp hd with hbefore | hlast
      · exact hzero d hbefore
      · exact absurd (List.mem_singleton.mp hlast) heq
  · rintro - m ⟨hgiven, hzero⟩
    refine (Prog.wp_forM (fun done m => z.Given points cls m ∧
      ∀ c < z.numCenters, acc m w.1 (c * z.localSize + w.2) =
        ((done.filter (cls · = c)).map (weight points)).sum) ?_ ?_).mono fun _ _ h => h.2
    · rintro done i rest m hsplit ⟨hgiven, hsum⟩
      have hi : i < z.numPoints := mem_strided (hsplit ▸ List.mem_append_right _ List.mem_cons_self)
      obtain ⟨hpoint, hclass⟩ := hgiven i hi
      obtain ⟨hcenter, hcount, hownCenter, hownCount⟩ :=
        readWrite (g := w.1) (n := z.localSize) (hclass.trans_lt (hcls i hi)) w.2.2 w.2.2
      simp only [Prog.wp_bind, Prog.wp_get, Prog.wp_set, hpoint]
      refine ⟨⟨hi, .inr ⟨rfl, .inl rfl⟩⟩, ⟨hi, .inr ⟨rfl, .inl rfl⟩⟩, ⟨hcenter, .inl hownCenter⟩,
        ⟨hcenter, hownCenter⟩, ⟨hcount, .inl hownCount⟩, ⟨hcount, hownCount⟩, ?_⟩
      rw [Function.update_of_ne (by simp)]
      refine ⟨hgiven.setAcc (v := (_, _)), fun c hc => ?_⟩
      change acc (KmeansSizes.setAcc m w.1 (m (.classes i) * z.localSize + w.2)
        (acc m w.1 (m (.classes i) * z.localSize + w.2) + weight points i)) w.1 _ = _
      rw [List.filter_append, List.map_append, List.sum_append, ← hsum c hc]
      by_cases heq : m (.classes i) = c
      · rw [heq, acc_setAcc]
        simp [hclass.symm.trans heq]
      · rw [acc_setAcc_of_ne fun h => heq (column_inj w.2.2 w.2.2 h).1.symm]
        have hne : cls i ≠ c := fun h => heq (hclass.trans h)
        simp [hne]
    · exact ⟨hgiven, fun c hc => hzero c (List.mem_range.mpr hc)⟩

/-- The accumulators of a centroid, added up by halving, are what they were to be. -/
def Live (z : KmeansSizes) (g : Fin z.numGroups) (total : ℕ → Float4 × ℕ) (n : ℕ)
    (m : z.Memory) : Prop :=
  ∀ c < z.numCenters, treeSum n (fun l => acc m g (c * z.localSize + l)) = total c

theorem treeSum_congr {f f' : ℕ → Float4 × ℕ} (hn : 0 < n) (h : ∀ l < n, f l = f' l) :
    treeSum n f = treeSum n f' := by
  rw [treeSum_eq hn, treeSum_eq hn]
  refine Finset.sum_congr rfl fun l hl => h l ?_
  exact Finset.mem_range.mp (Finset.mem_filter.mp hl).1

/-- One round of an item that takes in another. -/
theorem halve_wp {offset : ℕ} (hoffset : 2 * offset ≤ z.localSize) (w : z.WorkItem)
    (hw : w.2 < offset) (m : z.Memory) :
    (z.halve offset w).Wp z.Exists (Readable groupTerritory (localOwner w.1 offset) w.1 w)
      (fun c => localOwner w.1 offset c = some w)
      (fun _ m' => ∀ c < z.numCenters, acc m' w.1 (c * z.localSize + w.2) =
        acc m w.1 (c * z.localSize + w.2) + acc m w.1 (c * z.localSize + w.2 + offset)) m := by
  have hupper : w.2 + offset < z.localSize := by omega
  rw [halve, if_pos hw]
  refine (Prog.wp_forM (fun done m' =>
    (∀ c, acc m' w.1 (c * z.localSize + w.2 + offset) =
      acc m w.1 (c * z.localSize + w.2 + offset)) ∧
    ∀ c, acc m' w.1 (c * z.localSize + w.2) = if c ∈ done then
      acc m w.1 (c * z.localSize + w.2) + acc m w.1 (c * z.localSize + w.2 + offset)
      else acc m w.1 (c * z.localSize + w.2)) ?_ ⟨fun c => rfl, fun c => rfl⟩).mono ?_
  · rintro done c rest m' hsplit ⟨hother, hown⟩
    obtain ⟨hc, hfresh⟩ := mem_range_of_split hsplit
    obtain ⟨hcenter, hcount, hownCenter, hownCount⟩ :=
      readWrite (g := w.1) (n := offset) hc w.2.2 hw
    have hexists : c * z.localSize + w.2 + offset < z.localSize * z.numCenters := by
      rw [Nat.add_assoc]
      exact column_lt hc hupper
    have hfree : ∀ x, x = Cell.localCenters w.1 (c * z.localSize + w.2 + offset) ∨
        x = Cell.localCounts w.1 (c * z.localSize + w.2 + offset) →
        z.Exists x ∧ Readable groupTerritory (localOwner w.1 offset) w.1 w x := by
      rintro x (rfl | rfl)
      · refine ⟨hexists, .inr ⟨?_, .inr rfl⟩⟩
        rw [Nat.add_assoc, localOwner_centers hupper, if_neg (by omega)]
      · refine ⟨hexists, .inr ⟨?_, .inr rfl⟩⟩
        rw [Nat.add_assoc, localOwner_counts hupper, if_neg (by omega)]
    simp only [Prog.wp_bind, Prog.wp_get, Prog.wp_set]
    refine ⟨⟨hcenter, .inl hownCenter⟩, ⟨hcount, .inl hownCount⟩, hfree _ (.inl rfl),
      hfree _ (.inr rfl), ⟨hcenter, hownCenter⟩, ⟨hcount, hownCount⟩, ?_⟩
    change (∀ d, acc (KmeansSizes.setAcc m' w.1 (c * z.localSize + w.2)
        (acc m' w.1 (c * z.localSize + w.2) + acc m' w.1 (c * z.localSize + w.2 + offset))) w.1 _
          = _) ∧ ∀ d, acc (KmeansSizes.setAcc m' w.1 (c * z.localSize + w.2)
        (acc m' w.1 (c * z.localSize + w.2) + acc m' w.1 (c * z.localSize + w.2 + offset))) w.1 _
          = _
    constructor
    · intro d
      rw [acc_setAcc_of_ne, hother d]
      rw [Nat.add_assoc]
      intro h
      have := (column_inj hupper w.2.2 h).2
      omega
    · intro d
      by_cases heq : d = c
      · subst heq
        rw [acc_setAcc, hother d, hown d, if_neg hfresh,
          if_pos (List.mem_append_right _ List.mem_cons_self)]
      · rw [acc_setAcc_of_ne fun h => heq (column_inj w.2.2 w.2.2 h).1, hown d]
        simp [heq]
  · rintro - m' ⟨-, hown⟩ c hc
    rw [hown c, if_pos (List.mem_range.mpr hc)]

/-- A round keeps what the tree adds up to. -/
theorem halve_phase {total : ℕ → Float4 × ℕ} (hn : n ≤ z.localSize) (hhalf : n / 2 ≠ 0) :
    Phase Prod.fst groupTerritory z.Exists g (fun _ m => z.Live g total n m)
      (fun w _ => z.halve (n / 2) w) (fun _ m => z.Live g total (n / 2) m) := by
  refine Phase.of_wp (Q := fun _ m w _ m' => w.2 < n / 2 → ∀ c < z.numCenters,
    acc m' w.1 (c * z.localSize + w.2) =
      acc m w.1 (c * z.localSize + w.2) + acc m w.1 (c * z.localSize + w.2 + n / 2))
    (localOwner g (n / 2)) (fun _ _ h => localOwner_owned h) ?_ ?_
  · rintro - m - w rfl
    by_cases hw : w.2 < n / 2
    · exact (halve_wp (by omega) w hw m).mono fun _ _ h _ => h
    · rw [halve, if_neg hw, Prog.wp_pure]
      exact fun h => absurd h hw
  · intro _ m _ m' hlive hitems _ c hc
    rw [← hlive c hc]
    conv_rhs => rw [treeSum, if_neg hhalf]
    refine treeSum_congr (by omega) fun l hl => ?_
    have hlt : l < z.localSize := by omega
    obtain ⟨mi, hmi, hstays⟩ := hitems (g, ⟨l, hlt⟩) rfl
    rw [acc_congr hlt hl hstays, ← Nat.add_assoc]
    exact hmi hl c hc

theorem resultOwner_owned {x : z.Cell} (h : resultOwner g x = some w) :
    w.1 = g ∧ groupTerritory x = some g := by
  cases x with
  | workGroupCenters i =>
    simp only [resultOwner] at h
    split at h
    · rename_i hif
      cases h
      exact ⟨rfl, congrArg some (Fin.ext hif)⟩
    · cases h
  | workGroupCounts i =>
    simp only [resultOwner] at h
    split at h
    · rename_i hif
      cases h
      exact ⟨rfl, congrArg some (Fin.ext hif)⟩
    · cases h
  | _ => cases h

/-- A group's result for a centroid. -/
def result (m : z.Memory) (g : Fin z.numGroups) (c : ℕ) : Float4 × ℕ :=
  (m (.workGroupCenters (c * z.numGroups + g)), m (.workGroupCounts (c * z.numGroups + g)))

theorem resultOwner_result (c : ℕ) :
    resultOwner g (.workGroupCenters (c * z.numGroups + g)) = some (g, ⟨0, z.localSize_pos⟩) ∧
      resultOwner g (.workGroupCounts (c * z.numGroups + g)) = some (g, ⟨0, z.localSize_pos⟩) := by
  simp [resultOwner, Nat.mod_eq_of_lt g.2]

theorem copyOut_wp (w : z.WorkItem) (hw : w.2.val = 0) (m : z.Memory) :
    (z.copyOut w).Wp z.Exists (Readable groupTerritory (resultOwner w.1) w.1 w)
      (fun c => resultOwner w.1 c = some w)
      (fun _ m' => ∀ c < z.numCenters, result m' w.1 c = acc m w.1 (c * z.localSize)) m := by
  have hitem : w = (w.1, ⟨0, z.localSize_pos⟩) := Prod.ext rfl (Fin.ext hw)
  rw [copyOut, if_pos hw]
  refine (Prog.wp_forM (fun done m' =>
    (∀ c, acc m' w.1 (c * z.localSize) = acc m w.1 (c * z.localSize)) ∧
    ∀ c ∈ done, result m' w.1 c = acc m w.1 (c * z.localSize)) ?_ ⟨fun c => rfl, by simp⟩).mono ?_
  · rintro done c rest m' hsplit ⟨hsame, hdone⟩
    obtain ⟨hc, -⟩ := mem_range_of_split hsplit
    obtain ⟨hownCenter, hownCount⟩ := resultOwner_result (g := w.1) c
    rw [← hitem] at hownCenter hownCount
    have hexists : c * z.localSize < z.localSize * z.numCenters := column_lt hc z.localSize_pos
    have hresult : c * z.numGroups + w.1 < z.numCenters * z.numGroups := by
      rw [Nat.mul_comm z.numCenters]
      exact column_lt hc w.1.2
    simp only [Prog.wp_bind, Prog.wp_get, Prog.wp_set]
    refine ⟨⟨hexists, .inr ⟨rfl, .inr rfl⟩⟩, ⟨hresult, hownCenter⟩,
      ⟨hexists, .inr ⟨rfl, .inr rfl⟩⟩, ⟨hresult, hownCount⟩, fun d => ?_, fun d hd => ?_⟩
    · rw [← hsame d]
      unfold acc
      rw [Function.update_of_ne (by simp), Function.update_of_ne (by simp),
        Function.update_of_ne (by simp), Function.update_of_ne (by simp)]
    · by_cases heq : d = c
      · subst heq
        rw [← hsame d]
        unfold result acc
        rw [Function.update_self, Function.update_of_ne (by simp), Function.update_self,
          Function.update_of_ne (by simp)]
      · have hne : d * z.numGroups + w.1 ≠ c * z.numGroups + w.1 :=
          fun h => heq (column_inj w.1.2 w.1.2 h).1
        rcases List.mem_append.mp hd with hbefore | hlast
        · rw [← hdone d hbefore]
          unfold result
          rw [Function.update_of_ne (by simp), Function.update_of_ne (by simpa using hne),
            Function.update_of_ne (by simpa using hne), Function.update_of_ne (by simp)]
        · exact absurd (List.mem_singleton.mp hlast) heq
  · rintro - m' ⟨-, hdone⟩ c hc
    exact hdone c (List.mem_range.mpr hc)

theorem copyOut_phase {total : ℕ → Float4 × ℕ} :
    Phase Prod.fst groupTerritory z.Exists g (fun _ m => z.Live g total 1 m)
      (fun w _ => z.copyOut w) (fun _ m => ∀ c < z.numCenters, result m g c = total c) := by
  refine Phase.of_wp (Q := fun _ m w _ m' => w.2.val = 0 → ∀ c < z.numCenters,
    result m' w.1 c = acc m w.1 (c * z.localSize))
    (resultOwner g) (fun _ _ h => resultOwner_owned h) ?_ ?_
  · rintro - m - w rfl
    by_cases hw : w.2.val = 0
    · exact (copyOut_wp w hw m).mono fun _ _ h _ => h
    · rw [copyOut, if_neg hw, Prog.wp_pure]
      exact fun h => absurd h hw
  · intro _ m _ m' hlive hitems _ c hc
    obtain ⟨mi, hmi, hstays⟩ := hitems (g, ⟨0, z.localSize_pos⟩) rfl
    have hfirst := hlive c hc
    rw [treeSum, if_pos rfl, Nat.add_zero] at hfirst
    rw [← hfirst, ← hmi rfl c hc]
    unfold result
    rw [hstays _ (resultOwner_result c).1, hstays _ (resultOwner_result c).2]

/-- The rounds, by halving. -/
theorem rounds_proof {total : ℕ → Float4 × ℕ} (hpos : 0 < n) (hn : n ≤ z.localSize) :
    Proof Prod.fst groupTerritory z.Exists g (fun _ m => z.Live g total n m)
      (z.rounds (n / 2) ++ [fun w _ => z.copyOut w])
      (fun _ m => ∀ c < z.numCenters, result m g c = total c) := by
  induction n using Nat.strong_induction_on with
  | _ n ih =>
    rw [rounds]
    by_cases hhalf : n / 2 = 0
    · obtain rfl : n = 1 := by omega
      rw [if_pos hhalf]
      exact ⟨_, copyOut_phase, fun _ _ h => h⟩
    · rw [if_neg hhalf]
      exact ⟨_, halve_phase hn hhalf, ih (n / 2) (by omega) (by omega) (by omega)⟩

/-- **The adjustment, in any order.** -/
theorem adjustCentroids_meets (hcls : ∀ i < z.numPoints, cls i < z.numCenters)
    (hm : z.Given points cls m) :
    Meets Prod.fst z.adjustCentroids (fun _ => ()) m z.Exists fun m => ∀ g : Fin z.numGroups,
      ∀ c < z.numCenters, result m g c =
        treeSum z.localSize fun l => z.part points cls c (g * z.localSize + l) := by
  refine Proof.meets groupTerritory (fun _ _ m => z.Given points cls m)
    (fun g _ m => ∀ c < z.numCenters, result m g c =
      treeSum z.localSize fun l => z.part points cls c (g * z.localSize + l))
    (fun _ _ m' _ hvisible i hi => ?_) (fun g => ⟨_, ?_, rounds_proof z.localSize_pos le_rfl⟩)
    fun _ _ h => h
  · rw [hvisible _ (.inl rfl), hvisible _ (.inl rfl)]
    exact hm i hi
  refine Phase.of_wp (Q := fun _ _ (w : z.WorkItem) _ m' => ∀ c < z.numCenters,
    acc m' w.1 (c * z.localSize + w.2) = z.part points cls c w.globalId)
    (localOwner g z.localSize) (fun _ _ h => localOwner_owned h) ?_ ?_
  · rintro - m hgiven w rfl
    exact accumulate_wp hcls hgiven w
  · intro _ m _ m' _ hitems _ c hc
    refine treeSum_congr z.localSize_pos fun l hl => ?_
    obtain ⟨mi, hmi, hstays⟩ := hitems (g, ⟨l, hl⟩) rfl
    rw [acc_congr hl hl hstays]
    exact hmi c hc

end Adjust

end Sem.OpenCL.KmeansSizes
