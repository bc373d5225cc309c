import Mathlib.Tactic.Linarith
import Sem.OpenCL.MatrixMult

/-!
# The blocked product is the plain one

What a work group has at each barrier: before a block is loaded, each of its items that has an
element of the result has the products of the blocks so far; after it, local memory has the
elements of the block, recorded as such.

* `load_phase`, `multiply_phase`, `store_phase`: from one barrier to the next.
* `productLaw`: the kernel, where no two elements of a block share a local cell.
* `loadsApart_of_le`: so it is for blocks with up to `2 ^ 32` cells.
* `not_productLaw`: three rows in blocks of `2 ^ 31`.
-/

namespace Sem.OpenCL

/-! ## Sizes -/

theorem le_roundUp {b max width : ℕ} (hb : 0 < b) : max ≤ roundUp b max width := by
  fun_induction roundUp b max width with
  | case1 width _ ih => exact ih
  | case2 width h => omega

theorem dvd_roundUp {b max width : ℕ} (h : b ∣ width) : b ∣ roundUp b max width := by
  fun_induction roundUp b max width with
  | case1 width _ ih => exact ih (Nat.dvd_add h (Nat.dvd_refl b))
  | case2 width _ => exact h

namespace MatrixSizes

open Sem.Kernel

variable {z : MatrixSizes} {w : z.WorkItem} {block : ℕ}

theorem row_lt_groups {r : ℕ} (h : r < z.M) : r / z.blockLength < z.globalWidth / z.blockLength := by
  have hb := z.pos.2.2.2
  have hle : max z.M z.K ≤ z.globalWidth := le_roundUp hb
  obtain ⟨k, hk⟩ : z.blockLength ∣ z.globalWidth := dvd_roundUp (Nat.dvd_zero _)
  rw [hk, Nat.mul_div_cancel_left k hb]
  exact Nat.div_lt_of_lt_mul (by omega)

theorem col_lt_groups {c : ℕ} (h : c < z.N) : c / z.blockLength < z.globalHeight / z.blockLength := by
  have hb := z.pos.2.2.2
  have hle : max z.N z.K ≤ z.globalHeight := le_roundUp hb
  obtain ⟨k, hk⟩ : z.blockLength ∣ z.globalHeight := dvd_roundUp (Nat.dvd_zero _)
  rw [hk, Nat.mul_div_cancel_left k hb]
  exact Nat.div_lt_of_lt_mul (by omega)

/-- A block that the loop comes to starts within the inner dimension. -/
theorem block_lt : block < (z.K - 1) / z.blockLength + 1 ↔ block * z.blockLength < z.K := by
  have hK := z.pos.2.1
  rw [Nat.lt_succ_iff, Nat.le_div_iff_mul_le z.pos.2.2.2]
  omega

/-- The index of a step in a block is a `uint`. -/
theorem step_lt {step : ℕ} (hblock : block * z.blockLength < z.K) (hstep : step < z.blockLength) :
    block * z.blockLength + step < 2 ^ 32 := by
  have hle : max z.M z.K ≤ roundUp z.blockLength (max z.M z.K) 0 := le_roundUp z.pos.2.2.2
  obtain ⟨k, hk⟩ : z.blockLength ∣ roundUp z.blockLength (max z.M z.K) 0 :=
    dvd_roundUp (Nat.dvd_zero _)
  have hlt := z.width_lt
  rw [hk] at hle hlt
  have hblocks : block < k := by
    by_contra hge
    have := Nat.mul_le_mul_left z.blockLength (Nat.not_lt.mp hge)
    rw [Nat.mul_comm _ block] at this
    omega
  calc block * z.blockLength + step < (block + 1) * z.blockLength := by
        rw [Nat.add_mul, Nat.one_mul]
        omega
    _ ≤ z.blockLength * k := by
        rw [Nat.mul_comm]
        exact Nat.mul_le_mul_left _ hblocks
    _ < 2 ^ 32 := hlt

/-- An index of a matrix. -/
theorem index_lt {col row cols rows : ℕ} (hcol : col < cols) (hrow : row < rows) :
    col + row * cols < rows * cols :=
  calc col + row * cols < (row + 1) * cols := by rw [Nat.add_mul, Nat.one_mul]; omega
    _ ≤ rows * cols := Nat.mul_le_mul_right cols hrow

namespace WorkItem

theorem lRow_lt : w.lRow < z.blockLength := w.2.1.2

theorem lCol_lt : w.lCol < z.blockLength := w.2.2.2

theorem lRow_le : w.lRow ≤ w.eRow := Nat.le_add_left _ _

theorem lCol_le : w.lCol ≤ w.eCol := Nat.le_add_left _ _

theorem eRow_div : w.eRow / z.blockLength = w.1.1 := by
  rw [eRow, Nat.mul_comm, Nat.mul_add_div z.pos.2.2.2, Nat.div_eq_of_lt lRow_lt, Nat.add_zero]

theorem eCol_div : w.eCol / z.blockLength = w.1.2 := by
  rw [eCol, Nat.mul_comm, Nat.mul_add_div z.pos.2.2.2, Nat.div_eq_of_lt lCol_lt, Nat.add_zero]

theorem ext_local {w w' : z.WorkItem} (hg : w.1 = w'.1) (hr : w.lRow = w'.lRow)
    (hc : w.lCol = w'.lCol) : w = w' :=
  Prod.ext hg (Prod.ext (Fin.ext hr) (Fin.ext hc))

end WorkItem

/-! ## Loading a block -/

section Load

/-- The guard of the first load, and the cell it fills. -/
def LoadsA (block : ℕ) (w : z.WorkItem) : Prop :=
  block * z.blockLength + w.lCol < z.K ∧ w.eRow < z.M

/-- The work-item loads a cell of the second matrix. -/
def LoadsB (block : ℕ) (w : z.WorkItem) : Prop :=
  w.eCol < z.N ∧ block * z.blockLength + w.lRow < z.K

/-- The local cell of an item. -/
def WorkItem.cell (w : z.WorkItem) : ℕ := uint (w.lCol + z.blockLength * w.lRow)

/-- The cells that an item of the group fills for a block. -/
def Fills (g : z.Group) (block : ℕ) (w : z.WorkItem) (c : z.Cell) : Prop :=
  w.1 = g ∧ (LoadsA block w ∧ c = .localA g w.cell ∨ LoadsB block w ∧ c = .localB g w.cell)

/-- Where the three matrices and the local arrays lie: an element of the result belongs to the
group that has its row and its column. -/
def territory : z.Cell → Option z.Group
  | .localA g _ | .localB g _ => some g
  | .out i =>
    if h : i / z.N / z.blockLength < z.globalWidth / z.blockLength ∧
        i % z.N / z.blockLength < z.globalHeight / z.blockLength then
      some (⟨_, h.1⟩, ⟨_, h.2⟩)
    else none
  | _ => none

theorem Fills.unique (hapart : z.LoadsApart) {g : z.Group} {w w' : z.WorkItem} {c : z.Cell}
    (h : Fills g block w c) (h' : Fills g block w' c) : w = w' := by
  obtain ⟨hg, hw⟩ := h
  obtain ⟨hg', hw'⟩ := h'
  have hrow := w.lRow_lt
  have hrow' := w'.lRow_lt
  have hcol := w.lCol_lt
  have hcol' := w'.lCol_lt
  rcases hw with ⟨⟨hK, hM⟩, rfl⟩ | ⟨⟨hN, hK⟩, rfl⟩
  · rcases hw' with ⟨⟨hK', hM'⟩, hcell⟩ | ⟨-, hcell⟩
    · have hindex : w.cell = w'.cell := by simpa using hcell
      have := w.lRow_le
      have := w'.lRow_le
      obtain ⟨hr, hc⟩ := hapart.1 w.lRow w.lCol w'.lRow w'.lCol (by omega) (by omega) (by omega)
        (by omega) hindex
      exact WorkItem.ext_local (hg.trans hg'.symm) hr hc
    · cases hcell
  · rcases hw' with ⟨-, hcell⟩ | ⟨⟨hN', hK'⟩, hcell⟩
    · cases hcell
    · have hindex : w.cell = w'.cell := by simpa using hcell
      have := w.lCol_le
      have := w'.lCol_le
      obtain ⟨hr, hc⟩ := hapart.2 w.lRow w.lCol w'.lRow w'.lCol (by omega) (by omega) (by omega)
        (by omega) hindex
      exact WorkItem.ext_local (hg.trans hg'.symm) hr hc

/-- The first two matrices are in memory. -/
def Given (in1 in2 : ℕ → ℚ) (m : z.Memory) : Prop :=
  (∀ i < z.M * z.K, m (.in1 i) = in1 i) ∧ ∀ i < z.K * z.N, m (.in2 i) = in2 i

variable {in1 in2 : ℕ → ℚ} {m : z.Memory} {reads owns : z.Cell → Prop}

/-- The first load of an item. -/
theorem loadA_wp (hblock : block * z.blockLength < z.K) (hm : z.Given in1 in2 m) (w : z.WorkItem)
    (hreads : ∀ i, reads (.in1 i)) (howns : LoadsA block w → owns (.localA w.1 w.cell)) :
    (z.loadA block w).Wp z.Exists reads owns (fun _ m' =>
      (LoadsA block w → m' (.localA w.1 w.cell) =
        ⟨in1 (block * z.blockLength + w.lCol + w.eRow * z.K), some block⟩) ∧
      ∀ c, c ≠ .localA w.1 w.cell → m' c = m c) m := by
  rw [loadA, uint_of_lt (step_lt hblock w.lCol_lt)]
  by_cases hguard : block * z.blockLength + w.lCol < z.K ∧ w.eRow < z.M
  · have hlt := index_lt hguard.1 hguard.2
    rw [if_pos hguard, uint_of_lt (lt_trans hlt z.lenA_lt)]
    simp only [Prog.wp_bind, Prog.wp_get, Prog.wp_set]
    refine ⟨⟨hlt, hreads _⟩, ⟨trivial, howns hguard⟩, fun _ => ?_, fun c hc => ?_⟩
    · rw [WorkItem.cell, Function.update_self, hm.1 _ hlt]
    · exact Function.update_of_ne hc _ _
  · rw [if_neg hguard, Prog.wp_pure]
    exact ⟨fun h => (hguard h).elim, fun _ _ => rfl⟩

/-- The second load. -/
theorem loadB_wp (hblock : block * z.blockLength < z.K) (hm : z.Given in1 in2 m) (w : z.WorkItem)
    (hreads : ∀ i, reads (.in2 i)) (howns : LoadsB block w → owns (.localB w.1 w.cell)) :
    (z.loadB block w).Wp z.Exists reads owns (fun _ m' =>
      (LoadsB block w → m' (.localB w.1 w.cell) =
        ⟨in2 (w.eCol + (block * z.blockLength + w.lRow) * z.N), some block⟩) ∧
      ∀ c, c ≠ .localB w.1 w.cell → m' c = m c) m := by
  rw [loadB, uint_of_lt (step_lt hblock w.lRow_lt)]
  by_cases hguard : w.eCol < z.N ∧ block * z.blockLength + w.lRow < z.K
  · have hlt := index_lt hguard.1 hguard.2
    rw [if_pos hguard, uint_of_lt (lt_trans hlt z.lenB_lt)]
    simp only [Prog.wp_bind, Prog.wp_get, Prog.wp_set]
    refine ⟨⟨hlt, hreads _⟩, ⟨trivial, howns hguard⟩, fun _ => ?_, fun c hc => ?_⟩
    · rw [WorkItem.cell, Function.update_self, hm.2 _ hlt]
    · exact Function.update_of_ne hc _ _
  · rw [if_neg hguard, Prog.wp_pure]
    exact ⟨fun h => (hguard h).elim, fun _ _ => rfl⟩

/-- Both loads of an item. -/
theorem load_wp (hblock : block * z.blockLength < z.K) (hm : z.Given in1 in2 m) (w : z.WorkItem)
    (eSum : PartialSum) (hreads : ∀ i, reads (.in1 i) ∧ reads (.in2 i))
    (hownsA : LoadsA block w → owns (.localA w.1 w.cell))
    (hownsB : LoadsB block w → owns (.localB w.1 w.cell)) :
    (z.load block w eSum).Wp z.Exists reads owns (fun eSum' m' => eSum' = eSum ∧
      (LoadsA block w → m' (.localA w.1 w.cell) =
        ⟨in1 (block * z.blockLength + w.lCol + w.eRow * z.K), some block⟩) ∧
      (LoadsB block w → m' (.localB w.1 w.cell) =
        ⟨in2 (w.eCol + (block * z.blockLength + w.lRow) * z.N), some block⟩)) m := by
  rw [load, Prog.wp_bind]
  refine (loadA_wp hblock hm w (fun i => (hreads i).1) hownsA).mono ?_
  rintro - m₁ ⟨hA, hsame⟩
  have hm₁ : z.Given in1 in2 m₁ :=
    ⟨fun i hi => (hsame _ (by nofun)).trans (hm.1 i hi),
      fun i hi => (hsame _ (by nofun)).trans (hm.2 i hi)⟩
  rw [Prog.wp_bind]
  refine (loadB_wp hblock hm₁ w (fun i => (hreads i).2) hownsB).mono ?_
  rintro - m₂ ⟨hB, hsame₂⟩
  rw [Prog.wp_pure]
  exact ⟨rfl, fun h => (hsame₂ _ (by nofun)).trans (hA h), hB⟩

end Load

/-! ## From barrier to barrier -/

section Barriers

variable {in1 in2 : ℕ → ℚ} {g : z.Group}

/-- Before a block is loaded, the items that have an element of the result have the products of the
blocks so far. -/
def Before (in1 in2 : ℕ → ℚ) (g : z.Group) (block : ℕ) : Assertion z.WorkItem z.Cell z.Value PartialSum :=
  fun own m => z.Given in1 in2 m ∧ ∀ w : z.WorkItem, w.1 = g → w.eRow < z.M → w.eCol < z.N →
    own w = ⟨∑ k ∈ Finset.range (min (block * z.blockLength) z.K),
      in1 (k + w.eRow * z.K) * in2 (w.eCol + k * z.N), true⟩

/-- After it, local memory has the elements of the block. -/
def After (in1 in2 : ℕ → ℚ) (g : z.Group) (block : ℕ) : Assertion z.WorkItem z.Cell z.Value PartialSum :=
  fun own m => Before in1 in2 g block own m ∧ ∀ w : z.WorkItem, w.1 = g →
    (LoadsA block w → m (.localA g w.cell) =
      ⟨in1 (block * z.blockLength + w.lCol + w.eRow * z.K), some block⟩) ∧
    (LoadsB block w → m (.localB g w.cell) =
      ⟨in2 (w.eCol + (block * z.blockLength + w.lRow) * z.N), some block⟩)

theorem Fills.territory {c : z.Cell} (h : Fills g block w c) : w.1 = g ∧ z.territory c = some g := by
  obtain ⟨hg, ⟨-, rfl⟩ | ⟨-, rfl⟩⟩ := h
  · exact ⟨hg, rfl⟩
  · exact ⟨hg, rfl⟩

theorem load_phase (hapart : z.LoadsApart) (hblock : block * z.blockLength < z.K) :
    Phase Prod.fst territory z.Exists g (Before in1 in2 g block) (z.load block)
      (After in1 in2 g block) := by
  have howner : ∀ c (w : z.WorkItem), ownerOf (Fills g block) c = some w ↔ Fills g block w c :=
    fun c w => ownerOf_eq_some fun _ _ h h' => h.unique hapart h'
  have hfree : ∀ i, ownerOf (Fills g block) (.in1 i) = none ∧
      ownerOf (Fills g block) (.in2 i) = none := by
    intro i
    constructor
    · exact ownerOf_eq_none.mpr fun w h => nomatch h.territory.2
    · exact ownerOf_eq_none.mpr fun w h => nomatch h.territory.2
  refine Phase.of_wp (Q := fun own _ (w : z.WorkItem) eSum' m' => eSum' = own w ∧
      (LoadsA block w → m' (.localA w.1 w.cell) =
        ⟨in1 (block * z.blockLength + w.lCol + w.eRow * z.K), some block⟩) ∧
      (LoadsB block w → m' (.localB w.1 w.cell) =
        ⟨in2 (w.eCol + (block * z.blockLength + w.lRow) * z.N), some block⟩))
    (ownerOf (Fills g block)) (fun c w hc => ((howner c w).mp hc).territory) ?_ ?_
  · rintro own m ⟨hm, -⟩ w rfl
    refine load_wp hblock hm w (own w) (fun i => ⟨.inr ⟨(hfree i).1, .inl rfl⟩,
      .inr ⟨(hfree i).2, .inl rfl⟩⟩) (fun hA => ?_) fun hB => ?_
    · exact (howner _ w).mpr ⟨rfl, .inl ⟨hA, rfl⟩⟩
    · exact (howner _ w).mpr ⟨rfl, .inr ⟨hB, rfl⟩⟩
  · rintro own m own' m' ⟨hm, hown⟩ hitems hrest
    refine ⟨⟨⟨fun i hi => ?_, fun i hi => ?_⟩, fun w hw hr hc => ?_⟩, fun w hw => ?_⟩
    · rw [hrest _ (hfree i).1 (.inl rfl), hm.1 i hi]
    · rw [hrest _ (hfree i).2 (.inl rfl), hm.2 i hi]
    · obtain ⟨mi, ⟨hsame, -⟩, -⟩ := hitems w hw
      rw [hsame, hown w hw hr hc]
    · obtain ⟨mi, ⟨-, hA, hB⟩, hmi⟩ := hitems w hw
      subst hw
      refine ⟨fun h => ?_, fun h => ?_⟩
      · rw [hmi _ ((howner _ w).mpr ⟨rfl, .inl ⟨h, rfl⟩⟩), hA h]
      · rw [hmi _ ((howner _ w).mpr ⟨rfl, .inr ⟨h, rfl⟩⟩), hB h]

/-- A loop over a range has done as many rounds as its variable says. -/
theorem range_split {n x : ℕ} {xs₁ xs₂ : List ℕ} (h : List.range n = xs₁ ++ x :: xs₂) :
    x = xs₁.length ∧ x < n := by
  have hmem : x ∈ List.range n := by
    rw [h]
    exact List.mem_append_right _ List.mem_cons_self
  have hget : (List.range n)[xs₁.length]? = some x := by
    rw [h, List.getElem?_append_right le_rfl, Nat.sub_self]
    rfl
  have hlt : xs₁.length < n := by
    rw [← List.length_range (n := n), h, List.length_append, List.length_cons]
    omega
  rw [List.getElem?_range hlt, Option.some.injEq] at hget
  exact ⟨hget.symm, List.mem_range.mp hmem⟩

/-- The factors of a step, as they were loaded. -/
theorem After.factors {own : z.WorkItem → PartialSum} {m : z.Memory} {step : ℕ}
    (h : After in1 in2 w.1 block own m) (hr : w.eRow < z.M) (hc : w.eCol < z.N)
    (hstep : step < z.blockLength) (hK : block * z.blockLength + step < z.K) :
    m (.localA w.1 (uint (step + z.blockLength * w.lRow))) =
        ⟨in1 (block * z.blockLength + step + w.eRow * z.K), some block⟩ ∧
      m (.localB w.1 (uint (w.lCol + z.blockLength * step))) =
        ⟨in2 (w.eCol + (block * z.blockLength + step) * z.N), some block⟩ :=
  ⟨(h.2 (w.1, w.2.1, ⟨step, hstep⟩) rfl).1 ⟨hK, hr⟩, (h.2 (w.1, ⟨step, hstep⟩, w.2.2) rfl).2 ⟨hc, hK⟩⟩

theorem multiply_phase (hblock : block * z.blockLength < z.K) :
    Phase Prod.fst territory z.Exists g (After in1 in2 g block) (z.multiply block)
      (Before in1 in2 g (block + 1)) := by
  have hsize : block * z.blockLength + min z.blockLength (z.K - z.blockLength * block) =
      min ((block + 1) * z.blockLength) z.K := by
    rw [Nat.mul_comm z.blockLength block, Nat.add_mul, Nat.one_mul]
    omega
  refine Phase.of_wp (Q := fun _ _ (w : z.WorkItem) eSum _ => w.eRow < z.M → w.eCol < z.N →
      eSum = ⟨∑ k ∈ Finset.range (min ((block + 1) * z.blockLength) z.K),
        in1 (k + w.eRow * z.K) * in2 (w.eCol + k * z.N), true⟩) (fun _ => none) nofun ?_ ?_
  · rintro own m hafter (w : z.WorkItem) rfl
    rw [← hsize, multiply]
    refine (Prog.wp_foldlM (fun done eSum m' => m' = m ∧ (w.eRow < z.M → w.eCol < z.N →
      eSum = ⟨∑ k ∈ Finset.range (block * z.blockLength + done.length),
        in1 (k + w.eRow * z.K) * in2 (w.eCol + k * z.N), true⟩)) ?_ ?_).mono ?_
    · rintro done step rest eSum m' hsplit ⟨rfl, hsum⟩
      simp only [Prog.wp_bind, Prog.wp_get, Prog.wp_pure]
      refine ⟨⟨trivial, .inr ⟨rfl, .inr rfl⟩⟩, ⟨trivial, .inr ⟨rfl, .inr rfl⟩⟩, trivial, fun hr hc => ?_⟩
      obtain ⟨rfl, hstep⟩ := range_split hsplit
      rw [Nat.mul_comm z.blockLength block] at hstep
      obtain ⟨hA, hB⟩ := hafter.factors hr hc (hstep.trans_le (Nat.min_le_left _ _)) (by omega)
      rw [hsum hr hc, hA, hB, List.length_append, List.length_singleton, ← Nat.add_assoc,
        Finset.sum_range_succ]
      simp [PartialSum.add]
    · refine ⟨rfl, fun hr hc => ?_⟩
      rw [hafter.1.2 w rfl hr hc, List.length_nil, Nat.add_zero, Nat.min_eq_left hblock.le]
    · rintro eSum m' ⟨-, hsum⟩
      rwa [List.length_range] at hsum
  · rintro own m own' m' ⟨⟨hm, -⟩, -⟩ hitems hrest
    refine ⟨⟨fun i hi => ?_, fun i hi => ?_⟩, fun w hw hr hc => ?_⟩
    · rw [hrest _ rfl (.inl rfl), hm.1 i hi]
    · rw [hrest _ rfl (.inl rfl), hm.2 i hi]
    · obtain ⟨mi, hsum, -⟩ := hitems w hw
      exact hsum hr hc

/-- The items that store an element of the result. -/
def Stores (g : z.Group) (w : z.WorkItem) (c : z.Cell) : Prop :=
  w.1 = g ∧ (w.eRow < z.M ∧ w.eCol < z.N) ∧ c = .out (w.eCol + w.eRow * z.N)

theorem Stores.unique {w w' : z.WorkItem} {c : z.Cell} (h : Stores g w c) (h' : Stores g w' c) :
    w = w' := by
  obtain ⟨rfl, ⟨-, hcol⟩, rfl⟩ := h
  obtain ⟨hg, ⟨-, hcol'⟩, heq⟩ := h'
  have hindex : w.eCol + w.eRow * z.N = w'.eCol + w'.eRow * z.N := by simpa using heq
  have hmod := congrArg (· % z.N) hindex
  simp only [Nat.add_mul_mod_self_right, Nat.mod_eq_of_lt hcol, Nat.mod_eq_of_lt hcol'] at hmod
  have hrow : w.eRow = w'.eRow := by
    rw [hmod] at hindex
    exact Nat.eq_of_mul_eq_mul_right z.pos.2.2.1 (Nat.add_left_cancel hindex)
  refine WorkItem.ext_local hg.symm ?_ ?_
  · unfold WorkItem.eRow at hrow
    rw [hg] at hrow
    exact Nat.add_left_cancel hrow
  · unfold WorkItem.eCol at hmod
    rw [hg] at hmod
    exact Nat.add_left_cancel hmod

theorem Stores.territory {c : z.Cell} (h : Stores g w c) : w.1 = g ∧ z.territory c = some g := by
  obtain ⟨rfl, ⟨-, hcol⟩, rfl⟩ := h
  refine ⟨rfl, ?_⟩
  have hrow : (w.eCol + w.eRow * z.N) / z.N / z.blockLength = w.1.1 := by
    rw [Nat.add_mul_div_right _ _ z.pos.2.2.1, Nat.div_eq_of_lt hcol, Nat.zero_add, w.eRow_div]
  have hcol' : (w.eCol + w.eRow * z.N) % z.N / z.blockLength = w.1.2 := by
    rw [Nat.add_mul_mod_self_right, Nat.mod_eq_of_lt hcol, w.eCol_div]
  simp only [MatrixSizes.territory]
  rw [dif_pos ⟨hrow ▸ w.1.1.2, hcol' ▸ w.1.2.2⟩]
  exact congrArg some (Prod.ext (Fin.ext hrow) (Fin.ext hcol'))

/-- The stores, from any assertion about the sums. -/
theorem store_sums {A : (z.WorkItem → PartialSum) → Prop} :
    Phase Prod.fst territory z.Exists g (fun own _ => A own) z.store fun _ m =>
      ∃ own, A own ∧ ∀ w : z.WorkItem, w.1 = g → w.eRow < z.M → w.eCol < z.N →
        m (.out (w.eCol + w.eRow * z.N)) = own w := by
  have howner : ∀ c (w : z.WorkItem), ownerOf (Stores g) c = some w ↔ Stores g w c :=
    fun c w => ownerOf_eq_some fun _ _ h h' => h.unique h'
  refine Phase.of_wp (Q := fun own _ (w : z.WorkItem) _ m' => w.eRow < z.M → w.eCol < z.N →
      m' (.out (w.eCol + w.eRow * z.N)) = own w)
    (ownerOf (Stores g)) (fun c w hc => ((howner c w).mp hc).territory) ?_ ?_
  · rintro own m - (w : z.WorkItem) rfl
    rw [store]
    by_cases hguard : w.eRow < z.M ∧ w.eCol < z.N
    · have hlt := index_lt hguard.2 hguard.1
      rw [if_pos hguard, uint_of_lt (lt_trans hlt z.lenC_lt)]
      simp only [Prog.wp_bind, Prog.wp_set, Prog.wp_pure]
      refine ⟨⟨hlt, (howner _ w).mpr ⟨rfl, hguard, rfl⟩⟩, fun _ _ => ?_⟩
      rw [Function.update_self]
    · rw [if_neg hguard, Prog.wp_pure]
      exact fun hr hc => (hguard ⟨hr, hc⟩).elim
  · rintro own m own' m' hA hitems -
    refine ⟨own, hA, fun w hw hr hc => ?_⟩
    obtain ⟨mi, hout, hmi⟩ := hitems w hw
    rw [hmi _ ((howner _ w).mpr ⟨hw, ⟨hr, hc⟩, rfl⟩), hout hr hc]

/-- After the last block the products are complete. -/
theorem store_phase (hblock : z.K ≤ block * z.blockLength) :
    Phase Prod.fst territory z.Exists g (Before in1 in2 g block) z.store fun _ m =>
      ∀ w : z.WorkItem, w.1 = g → w.eRow < z.M → w.eCol < z.N →
        m (.out (w.eCol + w.eRow * z.N)) = ⟨∑ k ∈ Finset.range z.K,
          in1 (k + w.eRow * z.K) * in2 (w.eCol + k * z.N), true⟩ := by
  refine store_sums.weaken (fun own m h => h.2) fun _ m h w hw hr hc => ?_
  obtain ⟨own, hown, hout⟩ := h
  rw [hout w hw hr hc, hown w hw hr hc, Nat.min_eq_right hblock]

/-- The loop, from a block on. -/
theorem blocks_proof (hapart : z.LoadsApart) (block : ℕ) :
    Proof Prod.fst territory z.Exists g (Before in1 in2 g block) (z.blocks block) fun _ m =>
      ∀ w : z.WorkItem, w.1 = g → w.eRow < z.M → w.eCol < z.N →
        m (.out (w.eCol + w.eRow * z.N)) = ⟨∑ k ∈ Finset.range z.K,
          in1 (k + w.eRow * z.K) * in2 (w.eCol + k * z.N), true⟩ := by
  fun_induction blocks z block with
  | case1 block hlt ih =>
    have hblock := block_lt.mp hlt
    exact ⟨_, load_phase hapart hblock, _, multiply_phase hblock, ih⟩
  | case2 block hge =>
    exact ⟨_, store_phase (Nat.not_lt.mp fun h => hge (block_lt.mpr h)), fun _ _ h => h⟩

end Barriers

/-- Every element of the result is some item's. -/
theorem exists_workItem {r c : ℕ} (hr : r < z.M) (hc : c < z.N) :
    ∃ w : z.WorkItem, w.eRow = r ∧ w.eCol = c := by
  have hb := z.pos.2.2.2
  refine ⟨((⟨_, row_lt_groups hr⟩, ⟨_, col_lt_groups hc⟩), ⟨_, Nat.mod_lt r hb⟩,
    ⟨_, Nat.mod_lt c hb⟩), ?_, ?_⟩
  · exact Nat.div_add_mod' r z.blockLength
  · exact Nat.div_add_mod' c z.blockLength

/-- **The blocked product is the plain one**, where no two elements of a block share a cell. -/
theorem productLaw (hapart : z.LoadsApart) : z.ProductLaw := by
  intro in1 in2 m h1 h2
  refine Proof.meets territory (fun g => Before in1 in2 g 0) _
    (fun g own' m' hown hm => ⟨⟨fun i hi => ?_, fun i hi => ?_⟩, fun w hw _ _ => ?_⟩)
    (fun g => blocks_proof hapart 0) fun own m hdone r hr c hc => ?_
  · rw [hm _ (.inl rfl), h1 i hi]
  · rw [hm _ (.inl rfl), h2 i hi]
  · rw [hown w hw, Nat.zero_mul, Nat.zero_min, Finset.range_zero, Finset.sum_empty]
    rfl
  · obtain ⟨w, rfl, rfl⟩ := exists_workItem hr hc
    exact hdone w.1 w rfl hr hc

/-- A block of at most `2 ^ 32` cells. -/
theorem loadsApart_of_le (h : z.blockLength * z.blockLength ≤ 2 ^ 32) : z.LoadsApart := by
  have hlt : ∀ r s, r < z.blockLength → s < z.blockLength →
      s + z.blockLength * r < 2 ^ 32 := by
    intro r s hr hs
    calc s + z.blockLength * r < z.blockLength * (r + 1) := by
          rw [Nat.mul_add, Nat.mul_one]
          omega
      _ ≤ z.blockLength * z.blockLength := Nat.mul_le_mul_left _ hr
      _ ≤ 2 ^ 32 := h
  have hseparate : ∀ rows cols, rows ≤ z.blockLength → cols ≤ z.blockLength →
      Separate z.blockLength rows cols := by
    intro rows cols hrows hcols r s r' s' hr hs hr' hs' heq
    rw [uint_of_lt (hlt r s (by omega) (by omega)),
      uint_of_lt (hlt r' s' (by omega) (by omega))] at heq
    have hmod := congrArg (· % z.blockLength) heq
    simp only [Nat.add_mul_mod_self_left, Nat.mod_eq_of_lt (by omega : s < z.blockLength),
      Nat.mod_eq_of_lt (by omega : s' < z.blockLength)] at hmod
    subst hmod
    exact ⟨Nat.eq_of_mul_eq_mul_left z.pos.2.2.2 (Nat.add_left_cancel heq), rfl⟩
  exact ⟨hseparate _ _ (Nat.min_le_left _ _) (Nat.min_le_left _ _),
    hseparate _ _ (Nat.min_le_left _ _) (Nat.min_le_left _ _)⟩

/-- Two rows by three and three by two, in blocks of two. -/
def small : MatrixSizes where
  M := 2
  K := 3
  N := 2
  blockLength := 2
  pos := by decide
  lenA_lt := by decide
  lenB_lt := by decide
  lenC_lt := by decide
  width_lt := by
    rw [roundUp, if_pos (by decide), roundUp, if_pos (by decide), roundUp, if_neg (by decide)]
    decide
  height_lt := by
    rw [roundUp, if_pos (by decide), roundUp, if_pos (by decide), roundUp, if_neg (by decide)]
    decide

theorem productLaw_small : small.ProductLaw :=
  productLaw (loadsApart_of_le (by decide))

/-! ## A block too large -/

section Tall

/-- Three rows, in one block of `2 ^ 31` by `2 ^ 31`. -/
def tall : MatrixSizes where
  M := 3
  K := 1
  N := 1
  blockLength := 2 ^ 31
  pos := by decide
  lenA_lt := by decide
  lenB_lt := by decide
  lenC_lt := by decide
  width_lt := by
    rw [roundUp, if_pos (by decide), roundUp, if_neg (by decide)]
    decide
  height_lt := by
    rw [roundUp, if_pos (by decide), roundUp, if_neg (by decide)]
    decide

variable {g : tall.Group} {in1 in2 : ℕ → ℚ}

/-- The local arrays of a group, which several items write at once. -/
def Local (g : z.Group) : z.Cell → Prop
  | .localA g' _ | .localB g' _ => g' = g
  | _ => False

theorem tall_load : Phase Prod.fst territory tall.Exists g
    (fun own m => tall.Given in1 in2 m ∧ ∀ w, w.1 = g → own w = ⟨0, true⟩) (tall.load 0)
    fun own _ => ∀ w, w.1 = g → own w = ⟨0, true⟩ := by
  refine Phase.of_wp_racy (Q := fun own _ w eSum _ => eSum = own w) (fun _ => none) (Local g)
    nofun (fun c hc => ?_) ?_ ?_
  · cases c with
    | localA g' i => exact congrArg some hc
    | localB g' i => exact congrArg some hc
    | _ => exact hc.elim
  · rintro own m ⟨hm, -⟩ w rfl
    refine (load_wp (by decide) hm w (own w) (fun i => ⟨⟨.inr ⟨rfl, .inl rfl⟩, fun h => h⟩,
      .inr ⟨rfl, .inl rfl⟩, fun h => h⟩) (fun _ => .inr rfl) fun _ => .inr rfl).mono ?_
    exact fun _ _ h => h.1
  · rintro own m own' m' ⟨-, hown⟩ hitems - w hw
    obtain ⟨mi, hsame, -⟩ := hitems w hw
    rw [hsame, hown w hw]

/-- The first and the third row read the same cell. -/
theorem tall_multiply : Phase Prod.fst territory tall.Exists g
    (fun own _ => ∀ w, w.1 = g → own w = ⟨0, true⟩) (tall.multiply 0)
    fun own _ => ∀ w w' : tall.WorkItem, w.1 = g → w'.1 = g → w.lCol = 0 → w'.lCol = 0 →
      w.lRow = 0 → w'.lRow = 2 → own w = own w' := by
  refine Phase.of_wp (Q := fun own m (w : tall.WorkItem) eSum _ => eSum = (own w).add 0
    (m (.localA w.1 (uint (0 + 2 ^ 31 * w.lRow)))) (m (.localB w.1 (uint (w.lCol + 2 ^ 31 * 0)))))
    (fun _ => none) nofun ?_ ?_
  · rintro own m - (w : tall.WorkItem) rfl
    change ([0].foldlM _ _ : Prog _ _ _).Wp _ _ _ _ _
    simp only [List.foldlM_cons, List.foldlM_nil, Prog.wp_bind, Prog.wp_get, Prog.wp_pure]
    exact ⟨⟨trivial, .inr ⟨rfl, .inr rfl⟩⟩, ⟨trivial, .inr ⟨rfl, .inr rfl⟩⟩, rfl⟩
  · intro own m own' m' hown hitems _ w w' hw hw' hc hc' hr hr'
    obtain ⟨_, hsum, -⟩ := hitems w hw
    obtain ⟨_, hsum', -⟩ := hitems w' hw'
    have hcell : uint (0 + 2 ^ 31 * 0) = uint (0 + 2 ^ 31 * 2) := by decide
    rw [hsum, hsum', hown w hw, hown w' hw', hc, hc', hr, hr', hw, hw', hcell]

theorem tall_blocks : tall.matrixMultFull = [tall.load 0, tall.multiply 0, tall.store] := by
  rw [matrixMultFull, blocks, if_pos (by decide), blocks, if_neg (by decide)]

/-- In every run the first and the third element of the result are the same. -/
theorem tall_meets {m : tall.Memory} (hm : tall.Given in1 in2 m) :
    Meets Prod.fst tall.matrixMultFull tall.noSum m tall.Exists
      fun m => m (.out (0 + 0 * 1)) = m (.out (0 + 2 * 1)) := by
  rw [tall_blocks]
  refine Proof.meets territory
    (fun g own m => tall.Given in1 in2 m ∧ ∀ w, w.1 = g → own w = ⟨0, true⟩) _
    (fun g own' m' hown hvisible => ⟨⟨fun i hi => ?_, fun i hi => ?_⟩, hown⟩)
    (fun g => ⟨_, tall_load, _, tall_multiply, _, store_sums, fun _ _ h => h⟩)
    fun _ m hdone => ?_
  · rw [hvisible _ (.inl rfl), hm.1 i hi]
  · rw [hvisible _ (.inl rfl), hm.2 i hi]
  · obtain ⟨w, hrow, hcol⟩ := exists_workItem (z := tall) (r := 0) (c := 0) (by decide) (by decide)
    obtain ⟨w', hrow', hcol'⟩ :=
      exists_workItem (z := tall) (r := 2) (c := 0) (by decide) (by decide)
    have hlocal : ∀ (v : tall.WorkItem) r, v.eRow = r → r < 2 ^ 31 → v.eCol = 0 →
        v.lRow = r ∧ v.lCol = 0 ∧ v.1.1.val = 0 ∧ v.1.2.val = 0 := by
      intro v r hr hlt hc
      change v.1.1.val * 2 ^ 31 + v.lRow = r at hr
      change v.1.2.val * 2 ^ 31 + v.lCol = 0 at hc
      omega
    obtain ⟨hr, hc, hg1, hg2⟩ := hlocal w 0 hrow (by decide) hcol
    obtain ⟨hr', hc', hg1', hg2'⟩ := hlocal w' 2 hrow' (by decide) hcol'
    have hgroup : w'.1 = w.1 :=
      Prod.ext (Fin.ext (hg1'.trans hg1.symm)) (Fin.ext (hg2'.trans hg2.symm))
    obtain ⟨own, hequal, hout⟩ := hdone w.1
    have hfirst := hout w rfl (by rw [hrow]; decide) (by rw [hcol]; decide)
    have hthird := hout w' hgroup (by rw [hrow']; decide) (by rw [hcol']; decide)
    rw [hrow, hcol] at hfirst
    rw [hrow', hcol'] at hthird
    exact hfirst.trans ((hequal w w' rfl hgroup hc hc' hr hr').trans hthird.symm)

/-- A column of `0, 1, 2`, times one. -/
def tallMemory : tall.Memory
  | .in1 i => (i : ℚ)
  | .in2 _ => (1 : ℚ)
  | .out _ => ⟨0, true⟩
  | .localA _ _ | .localB _ _ => ⟨0, none⟩

/-- The third row comes out as the first. -/
theorem not_productLaw : ¬ tall.ProductLaw := by
  intro h
  have hlaw := h (fun i => i) (fun _ => 1) tallMemory (fun _ _ => rfl) fun _ _ => rfl
  have hgiven : tall.Given (fun i => i) (fun _ => 1) tallMemory := ⟨fun _ _ => rfl, fun _ _ => rfl⟩
  have hrows := tall_meets hgiven
  obtain ⟨s, hs, hstuck⟩ := hlaw.exists_final
  have hproduct := (hlaw.final s hs hstuck).2
  have hfirst := hproduct 0 (by decide) 0 (by decide)
  have hthird := hproduct 2 (by decide) 0 (by decide)
  have hsame := (hrows.final s hs hstuck).2
  have hvalue := congrArg PartialSum.value (hfirst.symm.trans (hsame.trans hthird))
  revert hvalue
  decide +kernel

end Tall

end MatrixSizes

end Sem.OpenCL
