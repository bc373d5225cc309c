import Mathlib.Algebra.Module.Pi
import Mathlib.Algebra.Order.Field.Rat
import Mathlib.Data.Fin.VecNotation
import Mathlib.Data.Fintype.Prod
import Sem.Lib.HalvingTree
import Sem.Lib.Kernel

/-!
# K-means clustering

One iteration of `OpenCL_Worker::KmeansCluster`: the kernel `classifyPoints` finds the nearest
centroid of each point, `adjustCentroids` adds up the points of each centroid by work groups, and
the host adds up the work groups. Arithmetic is exact; a distance is compared by its square.

* `classifyPoints`, `adjustCentroids`: the kernels, as programs of one work item.
* `finalReduction`: the part of the host.
* `IterationLaw`: in every run the new centroids are the means of their clusters.
-/

namespace Sem.OpenCL

open Sem.Kernel

/-- A `float4`. -/
abbrev Float4 := Fin 4 → ℚ

/-- The square of `distance`. -/
def sqDistance (p q : Float4) : ℚ := ∑ k, (p k - q k) * (p k - q k)

/-- `FLT_MAX`. -/
def fltMax : ℚ := (2 ^ 24 - 1) * 2 ^ 104

/-- The sizes of an iteration. -/
structure KmeansSizes where
  numPoints : ℕ
  numCenters : ℕ
  /-- `adjust_local_size` -/
  localSize : ℕ
  /-- `num_compute_units` -/
  numGroups : ℕ
  numPoints_pos : 0 < numPoints
  numCenters_pos : 0 < numCenters
  localSize_pos : 0 < localSize
  numGroups_pos : 0 < numGroups

namespace KmeansSizes

variable (z : KmeansSizes)

/-- The memory of both kernels; every work group has its own `local_centers` and `local_counts`. -/
inductive Cell
  | points (i : ℕ)
  | classes (i : ℕ)
  | centers (i : ℕ)
  | localCenters (group : Fin z.numGroups) (i : ℕ)
  | localCounts (group : Fin z.numGroups) (i : ℕ)
  | workGroupCenters (i : ℕ)
  | workGroupCounts (i : ℕ)
  deriving DecidableEq

/-- What a cell holds; the classes are read as `uint`. -/
abbrev Value : z.Cell → Type
  | .points _ | .centers _ | .localCenters _ _ | .workGroupCenters _ => Float4
  | .classes _ | .localCounts _ _ | .workGroupCounts _ => ℕ

/-- The cells of the buffers. -/
def Exists : z.Cell → Prop
  | .points i | .classes i => i < z.numPoints
  | .centers i => i < z.numCenters
  | .localCenters _ i | .localCounts _ i => i < z.localSize * z.numCenters
  | .workGroupCenters i | .workGroupCounts i => i < z.numCenters * z.numGroups

/-- The contents of the cells. -/
abbrev Memory := (c : z.Cell) → z.Value c

/-- A program of one work item, which keeps no private values over a barrier. -/
abbrev Item := Prog z.Cell z.Value Unit

/-! ## The kernels -/

/-- The loop of `classifyPoints` from some centroid on. -/
def classifyFrom (index : ℕ) : List ℕ → ℚ → z.Item
  | [], _ => pure ()
  | i :: is, minDist => do
    let point ← Prog.get (.points index)
    let center ← Prog.get (.centers i)
    let currentDist := sqDistance point center
    if currentDist < minDist then do
      Prog.set (.classes index) i
      classifyFrom index is currentDist
    else classifyFrom index is minDist

/-- `classifyPoints`: the nearest centre of a point. -/
def classifyPoints (index : ℕ) : z.Item :=
  z.classifyFrom index (List.range z.numCenters) (fltMax * fltMax)

/-- A work item of `adjustCentroids`. -/
abbrev WorkItem := Fin z.numGroups × Fin z.localSize

variable {z}

/-- `get_global_id(0)`. -/
def WorkItem.globalId (w : z.WorkItem) : ℕ := w.1 * z.localSize + w.2

variable (z)

/-- Up to the first barrier: clear the accumulators, and step through the points. -/
def accumulate (w : z.WorkItem) : z.Item := do
  forM (List.range z.numCenters) fun centerIndex => do
    Prog.set (.localCenters w.1 (centerIndex * z.localSize + w.2)) 0
    Prog.set (.localCounts w.1 (centerIndex * z.localSize + w.2)) 0
  forM (strided (z.localSize * z.numGroups) z.numPoints w.globalId) fun gId => do
    let currentClass ← Prog.get (.classes gId)
    let currentPoint ← Prog.get (.points gId)
    let center ← Prog.get (.localCenters w.1 (currentClass * z.localSize + w.2))
    Prog.set (.localCenters w.1 (currentClass * z.localSize + w.2)) (center + currentPoint)
    let count ← Prog.get (.localCounts w.1 (currentClass * z.localSize + w.2))
    Prog.set (.localCounts w.1 (currentClass * z.localSize + w.2)) (count + 1)

/-- One round of the halving. -/
def halve (offset : ℕ) (w : z.WorkItem) : z.Item :=
  if w.2 < offset then
    forM (List.range z.numCenters) fun centerIndex => do
      let thisVec ← Prog.get (.localCenters w.1 (centerIndex * z.localSize + w.2))
      let thisCount ← Prog.get (.localCounts w.1 (centerIndex * z.localSize + w.2))
      let otherVec ← Prog.get (.localCenters w.1 (centerIndex * z.localSize + w.2 + offset))
      let otherCount ← Prog.get (.localCounts w.1 (centerIndex * z.localSize + w.2 + offset))
      Prog.set (.localCenters w.1 (centerIndex * z.localSize + w.2)) (thisVec + otherVec)
      Prog.set (.localCounts w.1 (centerIndex * z.localSize + w.2)) (thisCount + otherCount)
  else pure ()

/-- The loop of the halving. -/
def rounds (offset : ℕ) : Code z.WorkItem z.Cell z.Value Unit :=
  if offset = 0 then [] else (fun w _ => z.halve offset w) :: rounds (offset / 2)
termination_by offset
decreasing_by omega

/-- After the last barrier: copy the sums of the group. -/
def copyOut (w : z.WorkItem) : z.Item :=
  if w.2.val = 0 then
    forM (List.range z.numCenters) fun centerIndex => do
      let center ← Prog.get (.localCenters w.1 (centerIndex * z.localSize))
      Prog.set (.workGroupCenters (centerIndex * z.numGroups + w.1)) center
      let count ← Prog.get (.localCounts w.1 (centerIndex * z.localSize))
      Prog.set (.workGroupCounts (centerIndex * z.numGroups + w.1)) count
  else pure ()

/-- `adjustCentroids`: every round of the reduction ends at a barrier. -/
def adjustCentroids : Code z.WorkItem z.Cell z.Value Unit :=
  (fun w _ => z.accumulate w) :: (z.rounds (z.localSize / 2) ++ [fun w _ => z.copyOut w])

/-! ## The host -/

/-- The accumulators of the host, and the centroids so far. -/
structure Reduction where
  centerAccumulator : Float4
  countAccumulator : ℕ
  centersProcessed : ℕ
  newCentroids : List ℚ

/-- The `push_back`s of one centroid. -/
def pushCentroid (centerAccumulator : Float4) (countAccumulator : ℕ) : List ℚ :=
  if 0 < countAccumulator then
    [centerAccumulator 0 / countAccumulator, centerAccumulator 1 / countAccumulator,
      centerAccumulator 2 / countAccumulator, centerAccumulator 3 / countAccumulator]
  else [0, 0, 0, 0]

variable (wgCenterVec : ℕ → ℚ) (wgCountVec : ℕ → ℕ)

/-- One round of the final reduction. -/
def reduceStep (r : Reduction) (i : ℕ) : Reduction :=
  let centerAccumulator := r.centerAccumulator +
    ![wgCenterVec (i * 4), wgCenterVec (i * 4 + 1), wgCenterVec (i * 4 + 2), wgCenterVec (i * 4 + 3)]
  let countAccumulator := r.countAccumulator + wgCountVec i
  let centersProcessed := r.centersProcessed + 1
  if z.numGroups ≤ centersProcessed then
    { centerAccumulator := 0, countAccumulator := 0, centersProcessed := 0,
      newCentroids := r.newCentroids ++ pushCentroid centerAccumulator countAccumulator }
  else { r with centerAccumulator, countAccumulator, centersProcessed }

/-- `new_centroids`, from the two buffers read back. -/
def finalReduction : List ℚ :=
  ((List.range (z.numCenters * z.numGroups)).foldl (z.reduceStep wgCenterVec wgCountVec)
    ⟨0, 0, 0, []⟩).newCentroids

/-- `ReadData` of a buffer of `float4`. -/
def readData (v : ℕ → Float4) (i : ℕ) : ℚ := v (i / 4) ⟨i % 4, Nat.mod_lt i (by decide)⟩

/-! ## What an iteration is for -/

section Law

variable (points centers : ℕ → Float4)

/-- The centroid `c` is the nearest of `n`, and the first of these. -/
def Nearest (n : ℕ) (dist : ℕ → ℚ) (c : ℕ) : Prop :=
  c < n ∧ (∀ d < n, dist c ≤ dist d) ∧ ∀ d < c, dist c < dist d

instance (n : ℕ) (dist : ℕ → ℚ) (c : ℕ) : Decidable (Nearest n dist c) :=
  inferInstanceAs (Decidable (_ ∧ _ ∧ _))

/-- The points of a centroid. -/
def cluster (c : ℕ) : Finset ℕ :=
  {i ∈ Finset.range z.numPoints | Nearest z.numCenters (fun d => sqDistance (points i) (centers d)) c}

/-- The mean of a cluster, and zero if it is empty. -/
def mean (c : ℕ) : Float4 :=
  ((z.cluster points centers c).card : ℚ)⁻¹ • ∑ i ∈ z.cluster points centers c, points i

/-- Each work group's counts and the host's centroids are those of the clusters. -/
def Updated (m : z.Memory) : Prop :=
  (∀ c < z.numCenters, ∑ g ∈ Finset.range z.numGroups,
    m (.workGroupCounts (c * z.numGroups + g)) = (z.cluster points centers c).card) ∧
  z.finalReduction (readData fun i => m (.workGroupCenters i)) (fun i => m (.workGroupCounts i)) =
    (List.range z.numCenters).flatMap fun c => List.ofFn (z.mean points centers c)

/-- Every run of the two kernels ends, stays within the buffers and gives the new centroids. -/
def IterationLaw : Prop :=
  ∀ m : z.Memory, (∀ i < z.numPoints, m (.points i) = points i) →
    (∀ c < z.numCenters, m (.centers c) = centers c) →
    Meets (fun _ : Fin z.numPoints => ()) [fun i _ => z.classifyPoints i] (fun _ => ()) m z.Exists
      fun m => Meets Prod.fst z.adjustCentroids (fun _ => ()) m z.Exists
        (z.Updated points centers)

/-- No row that the halving of a work group comes to has an odd number of cells, more than one and
not more than there are points. -/
def HalvesWell : Prop :=
  ∀ j, z.localSize / 2 ^ j % 2 = 1 → 1 < z.localSize / 2 ^ j →
    z.numPoints < z.localSize / 2 ^ j

end Law

end KmeansSizes

end Sem.OpenCL
