import Mathlib.Algebra.BigOperators.Fin
import Mathlib.Algebra.BigOperators.Pi
import Sem.OpenCL.KmeansKernels

/-!
# An iteration of K-means

The sums of the work groups, added up by the host, are those of the points that the halving trees
keep; so an iteration gives the means of the clusters exactly if they keep every point.

* `total_eq`: what the work groups have for a centroid.
* `finalReduction_eq`: what the host makes of it.
* `iterationLaw_iff`: the law holds exactly if the halving keeps every item that has a point.
* `not_iterationLaw`: three work items lose the third point.
-/

namespace Sem.OpenCL.KmeansSizes

open Sem.Kernel

variable {z : KmeansSizes} {points centers : ℕ → Float4} {cls : ℕ → ℕ} {c : ℕ}

/-! ## The sums of the work groups -/

section Totals

variable (z points cls) in
/-- What all work groups have for the centroid `c`. -/
def total (c : ℕ) : Float4 × ℕ :=
  ∑ g ∈ Finset.range z.numGroups,
    treeSum z.localSize fun l => z.part points cls c (g * z.localSize + l)

theorem sum_map_filter {A : Type} [AddCommMonoid A] (p : ℕ → Prop) [DecidablePred p] (f : ℕ → A)
    (xs : List ℕ) :
    ((xs.filter p).map f).sum = (xs.map fun i => if p i then f i else 0).sum := by
  induction xs with
  | nil => rfl
  | cons x xs ih =>
    by_cases hx : p x
    · simp [hx, ih]
    · simp [hx, ih]

theorem part_eq {globalId : ℕ} (h : globalId < z.localSize * z.numGroups) :
    z.part points cls c globalId = ∑ i ∈ Finset.range z.numPoints,
      if i % (z.localSize * z.numGroups) = globalId ∧ cls i = c then weight points i else 0 := by
  rw [part, sum_map_filter, strided_sum (by omega), Finset.sum_filter]
  refine Finset.sum_congr rfl fun i _ => ?_
  rw [Nat.mod_eq_of_lt h]
  have hle : i % (z.localSize * z.numGroups) = globalId → globalId ≤ i := by
    rintro rfl
    exact Nat.mod_le _ _
  by_cases hmod : i % (z.localSize * z.numGroups) = globalId
  · simp only [hle hmod, hmod, and_self, if_true, true_and]
  · simp only [hmod, and_false, false_and, if_false]

/-- A number below a product is in one row and one column. -/
theorem sum_rows {A : Type} [AddCommMonoid A] {L W x : ℕ} (hx : x < L * W) (f : ℕ → A) :
    ∑ g ∈ Finset.range W, ∑ l ∈ Finset.range L, (if x = g * L + l then f l else 0) = f (x % L) := by
  have hL : 0 < L := Nat.pos_of_mul_pos_right (Nat.zero_lt_of_lt hx)
  have hdiv := Nat.div_add_mod' x L
  have hrow : x / L < W := Nat.div_lt_of_lt_mul hx
  have hlt := Nat.mod_lt x hL
  rw [Finset.sum_eq_single_of_mem (x / L) (Finset.mem_range.mpr hrow),
    Finset.sum_eq_single_of_mem (x % L) (Finset.mem_range.mpr hlt), if_pos hdiv.symm]
  · intro l hl hne
    refine if_neg fun heq => hne ?_
    omega
  · intro g _ hne
    refine Finset.sum_eq_zero fun l hl => if_neg fun heq => hne ?_
    exact (column_inj (Finset.mem_range.mp hl) hlt (heq.symm.trans hdiv.symm)).1

/-- The work groups have the points that the halving keeps. -/
theorem total_eq : z.total points cls c = ∑ i ∈ Finset.range z.numPoints,
    if kept z.localSize (i % z.localSize) ∧ cls i = c then weight points i else 0 := by
  have hgroup : ∀ g ∈ Finset.range z.numGroups,
      treeSum z.localSize (fun l => z.part points cls c (g * z.localSize + l)) =
        ∑ l ∈ Finset.range z.localSize, ∑ i ∈ Finset.range z.numPoints,
          if i % (z.localSize * z.numGroups) = g * z.localSize + l then
            if kept z.localSize l ∧ cls i = c then weight points i else 0
          else 0 := by
    intro g hg
    rw [treeSum_eq z.localSize_pos, Finset.sum_filter]
    refine Finset.sum_congr rfl fun l hl => ?_
    rw [part_eq (column_lt (Finset.mem_range.mp hg) (Finset.mem_range.mp hl))]
    by_cases hkept : kept z.localSize l
    · simp [hkept, ite_and]
    · simp [hkept]
  have hswap : ∀ F : ℕ → ℕ → ℕ → Float4 × ℕ,
      ∑ g ∈ Finset.range z.numGroups, ∑ l ∈ Finset.range z.localSize,
        ∑ i ∈ Finset.range z.numPoints, F g l i =
      ∑ i ∈ Finset.range z.numPoints, ∑ g ∈ Finset.range z.numGroups,
        ∑ l ∈ Finset.range z.localSize, F g l i := by
    intro F
    rw [Finset.sum_comm]
    simp only [Finset.sum_comm (s := Finset.range z.numPoints)]
    exact Finset.sum_comm
  rw [total, Finset.sum_congr rfl hgroup, hswap]
  refine Finset.sum_congr rfl fun i _ => ?_
  have hlt := Nat.mod_lt i (Nat.mul_pos z.localSize_pos z.numGroups_pos)
  rw [sum_rows hlt (fun l => if kept z.localSize l ∧ cls i = c then weight points i else 0),
    Nat.mod_mod_of_dvd i ⟨z.numGroups, rfl⟩]

end Totals

/-! ## The host -/

section Host

variable {v : ℕ → Float4} {u : ℕ → ℕ}

theorem readData_vec (i : ℕ) :
    ![readData v (i * 4), readData v (i * 4 + 1), readData v (i * 4 + 2), readData v (i * 4 + 3)] =
      v i := by
  have hdiv : ∀ k < 4, (i * 4 + k) / 4 = i ∧ (i * 4 + k) % 4 = k := by
    intro k hk
    omega
  funext k
  match k with
  | 0 => simp [readData]
  | 1 => simp [readData, hdiv 1 (by decide)]
  | 2 => simp [readData, hdiv 2 (by decide)]
  | 3 => simp [readData, hdiv 3 (by decide)]

theorem pushCentroid_eq (s : Float4) (n : ℕ) : pushCentroid s n = List.ofFn ((n : ℚ)⁻¹ • s) := by
  unfold pushCentroid
  by_cases hn : 0 < n
  · simp [hn, List.ofFn_succ, div_eq_inv_mul]
  · obtain rfl : n = 0 := by omega
    simp [List.ofFn_succ]

/-- The part of a row. -/
theorem reduce_part (k : ℕ) (cs : List ℚ) {n : ℕ} (hn : n < z.numGroups) :
    ((List.range n).map (k * z.numGroups + ·)).foldl (z.reduceStep (readData v) u) ⟨0, 0, 0, cs⟩ =
      ⟨∑ g ∈ Finset.range n, v (k * z.numGroups + g), ∑ g ∈ Finset.range n, u (k * z.numGroups + g),
        n, cs⟩ := by
  induction n with
  | zero => rfl
  | succ n ih =>
    rw [List.range_succ, List.map_append, List.foldl_append, ih (by omega)]
    simp only [List.map_cons, List.map_nil, List.foldl_cons, List.foldl_nil, reduceStep,
      readData_vec]
    rw [if_neg (by omega), Finset.sum_range_succ, Finset.sum_range_succ]

/-- A whole row. -/
theorem reduce_row (k : ℕ) (cs : List ℚ) :
    ((List.range z.numGroups).map (k * z.numGroups + ·)).foldl (z.reduceStep (readData v) u)
      ⟨0, 0, 0, cs⟩ =
      ⟨0, 0, 0, cs ++ pushCentroid (∑ g ∈ Finset.range z.numGroups, v (k * z.numGroups + g))
        (∑ g ∈ Finset.range z.numGroups, u (k * z.numGroups + g))⟩ := by
  have hpos := z.numGroups_pos
  obtain ⟨n, hn⟩ : ∃ n, z.numGroups = n + 1 := ⟨z.numGroups - 1, by omega⟩
  have hpart := reduce_part (z := z) (v := v) (u := u) k cs (n := n) (by omega)
  have hrange : List.range z.numGroups = List.range n ++ [n] := by rw [hn, List.range_succ]
  rw [hrange, List.map_append, List.foldl_append, hpart]
  simp only [List.map_cons, List.map_nil, List.foldl_cons, List.foldl_nil, reduceStep, readData_vec]
  rw [if_pos (by omega)]
  conv_rhs => rw [show Finset.range z.numGroups = Finset.range (n + 1) by rw [hn]]
  rw [Finset.sum_range_succ, Finset.sum_range_succ]

/-- **The host pushes one centroid a row.** -/
theorem finalReduction_eq : z.finalReduction (readData v) u =
    (List.range z.numCenters).flatMap fun k =>
      pushCentroid (∑ g ∈ Finset.range z.numGroups, v (k * z.numGroups + g))
        (∑ g ∈ Finset.range z.numGroups, u (k * z.numGroups + g)) := by
  suffices h : ∀ n, (List.range (n * z.numGroups)).foldl (z.reduceStep (readData v) u)
      ⟨0, 0, 0, []⟩ = ⟨0, 0, 0, (List.range n).flatMap fun k =>
        pushCentroid (∑ g ∈ Finset.range z.numGroups, v (k * z.numGroups + g))
          (∑ g ∈ Finset.range z.numGroups, u (k * z.numGroups + g))⟩ by
    rw [finalReduction, h]
  intro n
  induction n with
  | zero => simp
  | succ n ih =>
    rw [Nat.succ_mul, List.range_add, List.foldl_append, ih, reduce_row, List.range_succ,
      List.flatMap_append, List.flatMap_singleton]

end Host

/-! ## The law -/

section Law

/-- The classes of a classification. -/
def Classified (z : KmeansSizes) (points centers : ℕ → Float4) (cls : ℕ → ℕ) : Prop :=
  ∀ i < z.numPoints, Nearest z.numCenters (fun d => sqDistance (points i) (centers d)) (cls i)

theorem Classified.cluster_eq (h : z.Classified points centers cls) (c : ℕ) :
    z.cluster points centers c = {i ∈ Finset.range z.numPoints | cls i = c} := by
  ext i
  simp only [cluster, Finset.mem_filter, Finset.mem_range]
  refine and_congr_right fun hi => ⟨fun hnearest => (h i hi).unique hnearest, ?_⟩
  rintro rfl
  exact h i hi

/-- The sum of the weights of some points. -/
theorem sum_weight (s : Finset ℕ) : ∑ i ∈ s, weight points i = (∑ i ∈ s, points i, s.card) := by
  refine Prod.ext ?_ ?_
  · rw [Prod.fst_sum]
    rfl
  · rw [Prod.snd_sum]
    simp [weight]

theorem total_filter : z.total points cls c =
    (∑ i ∈ Finset.range z.numPoints with kept z.localSize (i % z.localSize) ∧ cls i = c, points i,
      {i ∈ Finset.range z.numPoints | kept z.localSize (i % z.localSize) ∧ cls i = c}.card) := by
  rw [total_eq, ← Finset.sum_filter, sum_weight]

/-- The memory after both kernels. -/
def Reduced (z : KmeansSizes) (points : ℕ → Float4) (cls : ℕ → ℕ) (m : z.Memory) : Prop :=
  ∀ g : Fin z.numGroups, ∀ c < z.numCenters, result m g c =
    treeSum z.localSize fun l => z.part points cls c (g * z.localSize + l)

theorem Reduced.sum {m : z.Memory} (h : z.Reduced points cls m) (hc : c < z.numCenters) :
    (∑ g ∈ Finset.range z.numGroups, m (.workGroupCenters (c * z.numGroups + g)),
      ∑ g ∈ Finset.range z.numGroups, m (.workGroupCounts (c * z.numGroups + g))) =
      z.total points cls c := by
  have hrow : z.total points cls c = ∑ g ∈ Finset.range z.numGroups,
      ((m (.workGroupCenters (c * z.numGroups + g)),
        m (.workGroupCounts (c * z.numGroups + g))) : Float4 × ℕ) :=
    Finset.sum_congr rfl fun g hg => (h ⟨g, Finset.mem_range.mp hg⟩ c hc).symm
  rw [hrow]
  refine Prod.ext ?_ ?_
  · rw [Prod.fst_sum]
  · rw [Prod.snd_sum]

/-- The law of the memory after both kernels. -/
theorem Reduced.updated_iff {m : z.Memory} (h : z.Reduced points cls m)
    (hcls : z.Classified points centers cls) : z.Updated points centers m ↔ z.HalvesWell := by
  have hcounts : ∀ c < z.numCenters, ∑ g ∈ Finset.range z.numGroups,
      m (.workGroupCounts (c * z.numGroups + g)) = (z.total points cls c).2 :=
    fun c hc => congrArg Prod.snd (h.sum hc)
  have hsums : ∀ c < z.numCenters, ∑ g ∈ Finset.range z.numGroups,
      m (.workGroupCenters (c * z.numGroups + g)) = (z.total points cls c).1 :=
    fun c hc => congrArg Prod.fst (h.sum hc)
  rw [HalvesWell, ← kept_mod_iff z.localSize_pos z.numPoints]
  constructor
  · rintro ⟨hupdated, -⟩ i hi
    have hc := (hcls i hi).1
    have hcard := hupdated (cls i) hc
    rw [hcounts _ hc, total_filter, hcls.cluster_eq] at hcard
    have hsubset : {j ∈ Finset.range z.numPoints | kept z.localSize (j % z.localSize) ∧
        cls j = cls i} ⊆ {j ∈ Finset.range z.numPoints | cls j = cls i} := by
      intro j hj
      simp only [Finset.mem_filter] at hj ⊢
      exact ⟨hj.1, hj.2.2⟩
    have hmem : i ∈ {j ∈ Finset.range z.numPoints | cls j = cls i} :=
      Finset.mem_filter.mpr ⟨Finset.mem_range.mpr hi, rfl⟩
    rw [← Finset.eq_of_subset_of_card_le hsubset hcard.ge] at hmem
    exact (Finset.mem_filter.mp hmem).2.1
  · intro hkept
    have htotal : ∀ c, z.total points cls c =
        (∑ i ∈ z.cluster points centers c, points i, (z.cluster points centers c).card) := by
      intro c
      have hset : {i ∈ Finset.range z.numPoints | kept z.localSize (i % z.localSize) ∧ cls i = c} =
          z.cluster points centers c := by
        rw [hcls.cluster_eq]
        refine Finset.filter_congr fun i hi => and_iff_right ?_
        exact hkept i (Finset.mem_range.mp hi)
      rw [total_filter, hset]
    refine ⟨fun c hc => ?_, ?_⟩
    · rw [hcounts c hc, htotal]
    · rw [finalReduction_eq]
      refine List.flatMap_congr fun c hc => ?_
      have hlt := List.mem_range.mp hc
      rw [hsums c hlt, hcounts c hlt, htotal, pushCentroid_eq, mean]

variable (z points centers) in
/-- Memory before an iteration. -/
def initialMemory : z.Memory
  | .points i => points i
  | .centers i => centers i
  | .localCenters _ _ | .workGroupCenters _ => (0 : Float4)
  | .classes _ | .localCounts _ _ | .workGroupCounts _ => (0 : ℕ)

/-- After a classification, the adjustment. -/
theorem adjust_classified {m : z.Memory} (hm : ∀ i < z.numPoints, m (.points i) = points i ∧
      Nearest z.numCenters (fun d => sqDistance (points i) (centers d)) (m (.classes i))) :
    Meets Prod.fst z.adjustCentroids (fun _ => ()) m z.Exists
        (z.Reduced points fun i => m (.classes i)) ∧
      z.Classified points centers fun i => m (.classes i) := by
  refine ⟨adjustCentroids_meets (fun i hi => (hm i hi).2.1) fun i hi => ⟨(hm i hi).1, rfl⟩, ?_⟩
  exact fun i hi => (hm i hi).2

variable (hmax : ∀ i < z.numPoints, ∀ c < z.numCenters,
  sqDistance (points i) (centers c) < fltMax * fltMax)
include hmax

theorem IterationLaw.halvesWell (h : z.IterationLaw points centers) : z.HalvesWell := by
  have hclassify := h (z.initialMemory points centers) (fun _ _ => rfl) fun _ _ => rfl
  obtain ⟨s, hs, hstuck⟩ := hclassify.exists_final
  have hactual := classifyPoints_meets (m := z.initialMemory points centers)
    (fun _ _ => rfl) (fun _ _ => rfl) hmax
  obtain ⟨hmeets, hclassified⟩ := adjust_classified (hactual.final s hs hstuck).2
  have hupdate := (hclassify.final s hs hstuck).2
  obtain ⟨t, ht, hend⟩ := hupdate.exists_final
  exact ((hmeets.final t ht hend).2.updated_iff hclassified).mp (hupdate.final t ht hend).2

theorem HalvesWell.iterationLaw (h : z.HalvesWell) : z.IterationLaw points centers := by
  intro m hpoints hcenters
  refine (classifyPoints_meets hpoints hcenters hmax).mono fun m hm => ?_
  obtain ⟨hmeets, hclassified⟩ := adjust_classified hm
  exact hmeets.mono fun _ hreduced => (hreduced.updated_iff hclassified).mpr h

/-- **An iteration is the plain one exactly if the halving keeps every item that has a point.** -/
theorem iterationLaw_iff : z.IterationLaw points centers ↔ z.HalvesWell :=
  ⟨IterationLaw.halvesWell hmax, HalvesWell.iterationLaw hmax⟩

omit hmax in
/-- A work group of a power of two halves well, whatever the number of points. -/
theorem halvesWell_of_two_pow {k : ℕ} (h : z.localSize = 2 ^ k) : z.HalvesWell := by
  intro j hodd hlt
  rw [h] at hodd hlt
  rcases Nat.lt_trichotomy j k with hless | rfl | hgreater
  · obtain ⟨d, rfl⟩ := Nat.exists_eq_add_of_lt hless
    rw [Nat.pow_div hless.le (by decide), Nat.add_assoc, Nat.add_sub_cancel_left, Nat.pow_succ] at hodd
    omega
  · rw [Nat.div_self (Nat.two_pow_pos j)] at hlt
    omega
  · rw [Nat.div_eq_of_lt (Nat.pow_lt_pow_right (by decide) hgreater)] at hlt
    omega

end Law

/-- Four points on a line. -/
def line (i : ℕ) : Float4 := fun _ => i

/-- Two work groups of four items. -/
theorem iterationLaw_line : KmeansSizes.IterationLaw ⟨4, 2, 4, 2, by decide, by decide, by decide,
    by decide⟩ line line :=
  (iterationLaw_iff (by decide +kernel)).mpr (halvesWell_of_two_pow (k := 2) rfl)

/-- One work group of three items loses the third point. -/
theorem not_iterationLaw :
    (∀ i < 3, ∀ c < 1, sqDistance (line i) (line c) < fltMax * fltMax) ∧
      ¬ KmeansSizes.IterationLaw ⟨3, 1, 3, 1, by decide, by decide, by decide, by decide⟩
        line line := by
  have hmax : ∀ i < 3, ∀ c < 1, sqDistance (line i) (line c) < fltMax * fltMax := by
    decide +kernel
  refine ⟨hmax, fun h => ?_⟩
  have := IterationLaw.halvesWell hmax h 0 rfl (by decide)
  exact Nat.lt_irrefl 3 this

end Sem.OpenCL.KmeansSizes
