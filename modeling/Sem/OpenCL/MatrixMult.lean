import Mathlib.Algebra.BigOperators.Intervals
import Mathlib.Algebra.Order.Field.Rat
import Mathlib.Data.Fintype.Prod
import Mathlib.Tactic.Ring
import Sem.Lib.Kernel

/-!
# The blocked matrix product

The kernel `matrixMultFull`, launched with the sizes of `OpenCL_Worker::MatrixMult`. A work group
computes one block of the result; it goes through the blocks of a row of the first matrix and of a
column of the second, loads each into local memory and adds up its products. Arithmetic on the
elements is exact, that on `uint`s is not.

A local cell records the block that filled it, and a sum whether all of its terms were read from
cells filled in the block at hand.

* `matrixMultFull`: the kernel, as programs of one work item.
* `Separate`: no two cells that one block fills share an index.
* `MatrixSizes.Product`: the result, in memory.
-/

namespace Sem.OpenCL

open Sem.Kernel

/-- The value of an expression of `uint`s. -/
def uint (n : ℕ) : ℕ := n % 2 ^ 32

theorem uint_of_lt {n : ℕ} (h : n < 2 ^ 32) : uint n = n := Nat.mod_eq_of_lt h

/-- The loop that finds `global_width` and `global_height`, from a width on. -/
def roundUp (blockLength max width : ℕ) : ℕ :=
  if width < max ∧ 0 < blockLength then roundUp blockLength max (width + blockLength) else width
termination_by max - width

/-- A launch of the kernel: the dimensions, and the side of a work group. -/
structure MatrixSizes where
  M : ℕ
  K : ℕ
  N : ℕ
  blockLength : ℕ
  pos : 0 < M ∧ 0 < K ∧ 0 < N ∧ 0 < blockLength
  /-- The lengths and the global sizes are `uint`s. -/
  lenA_lt : M * K < 2 ^ 32
  lenB_lt : K * N < 2 ^ 32
  lenC_lt : M * N < 2 ^ 32
  width_lt : roundUp blockLength (max M K) 0 < 2 ^ 32
  height_lt : roundUp blockLength (max N K) 0 < 2 ^ 32

namespace MatrixSizes

variable (z : MatrixSizes)

/-- The width of the global range. -/
def globalWidth : ℕ := roundUp z.blockLength (max z.M z.K) 0

/-- The height of the global range. -/
def globalHeight : ℕ := roundUp z.blockLength (max z.N z.K) 0

/-- A work-group. -/
abbrev Group := Fin (z.globalWidth / z.blockLength) × Fin (z.globalHeight / z.blockLength)

/-- A work-item, by its group and its place in it. -/
abbrev WorkItem := z.Group × Fin z.blockLength × Fin z.blockLength

variable {z}

namespace WorkItem

variable (w : z.WorkItem)

/-- `get_local_id(0)`. -/
def lRow : ℕ := w.2.1

/-- `get_local_id(1)`. -/
def lCol : ℕ := w.2.2

/-- The row of the element that the work-item computes. -/
def eRow : ℕ := w.1.1 * z.blockLength + w.lRow

/-- The column of the element that the work-item computes. -/
def eCol : ℕ := w.1.2 * z.blockLength + w.lCol

end WorkItem

variable (z)

/-- The three matrices, and the two local arrays of each work group. -/
inductive Cell
  | in1 (i : ℕ)
  | in2 (i : ℕ)
  | out (i : ℕ)
  | localA (g : z.Group) (i : ℕ)
  | localB (g : z.Group) (i : ℕ)
  deriving DecidableEq

/-- An element in local memory, and the block that it was loaded for. -/
structure Loaded where
  value : ℚ
  block : Option ℕ

/-- A sum of products, and whether all their factors were loaded for the block at hand. -/
structure PartialSum where
  value : ℚ
  fresh : Bool

/-- `eSum += a * b`. -/
def PartialSum.add (block : ℕ) (s : PartialSum) (a b : Loaded) : PartialSum :=
  { value := s.value + a.value * b.value
    fresh := s.fresh && a.block == some block && b.block == some block }

/-- What is in a cell. -/
abbrev Value : z.Cell → Type
  | .in1 _ | .in2 _ => ℚ
  | .out _ => PartialSum
  | .localA _ _ | .localB _ _ => Loaded

/-- The elements of the three matrices. -/
def Exists : z.Cell → Prop
  | .in1 i => i < z.M * z.K
  | .in2 i => i < z.K * z.N
  | .out i => i < z.M * z.N
  | .localA _ _ | .localB _ _ => True

/-- The contents of the cells. -/
abbrev Memory := (c : z.Cell) → z.Value c

/-! ## The kernel -/

/-- A work item keeps `eSum` over the barriers. -/
abbrev Item := Prog z.Cell z.Value PartialSum

/-- The guarded load of an element of the first matrix. -/
def loadA (block : ℕ) (w : z.WorkItem) : Prog z.Cell z.Value Unit :=
  if uint (block * z.blockLength + w.lCol) < z.K ∧ w.eRow < z.M then do
    let element ← Prog.get (.in1 (uint (block * z.blockLength + w.lCol + w.eRow * z.K)))
    Prog.set (.localA w.1 (uint (w.lCol + z.blockLength * w.lRow))) ⟨element, some block⟩
  else pure ()

/-- The guarded load of an element of the second. -/
def loadB (block : ℕ) (w : z.WorkItem) : Prog z.Cell z.Value Unit :=
  if w.eCol < z.N ∧ uint (block * z.blockLength + w.lRow) < z.K then do
    let element ← Prog.get (.in2 (uint (w.eCol + (block * z.blockLength + w.lRow) * z.N)))
    Prog.set (.localB w.1 (uint (w.lCol + z.blockLength * w.lRow))) ⟨element, some block⟩
  else pure ()

/-- A work-item loads its cells of the two blocks. -/
def load (block : ℕ) (w : z.WorkItem) (eSum : PartialSum) : z.Item := do
  z.loadA block w
  z.loadB block w
  return eSum

/-- The products of a block; in it `blockLength * block` is less than `K`. -/
def multiply (block : ℕ) (w : z.WorkItem) (eSum : PartialSum) : z.Item :=
  (List.range (min z.blockLength (z.K - z.blockLength * block))).foldlM (fun eSum step => do
    let a ← Prog.get (.localA w.1 (uint (step + z.blockLength * w.lRow)))
    let b ← Prog.get (.localB w.1 (uint (w.lCol + z.blockLength * step)))
    return eSum.add block a b) eSum

/-- The guarded store. -/
def store (w : z.WorkItem) (eSum : PartialSum) : z.Item :=
  if w.eRow < z.M ∧ w.eCol < z.N then do
    Prog.set (.out (uint (w.eCol + w.eRow * z.N))) eSum
    return eSum
  else return eSum

/-- The loop over the blocks, from `block` on. -/
def blocks (block : ℕ) : Code z.WorkItem z.Cell z.Value PartialSum :=
  if block < (z.K - 1) / z.blockLength + 1 then
    z.load block :: z.multiply block :: blocks (block + 1)
  else [z.store]
termination_by (z.K - 1) / z.blockLength + 1 - block

/-- `matrixMultFull`, from the first block on. -/
def matrixMultFull : Code z.WorkItem z.Cell z.Value PartialSum := z.blocks 0

/-- The work items start with an empty sum. -/
def noSum : z.WorkItem → PartialSum := fun _ => ⟨0, true⟩

/-! ## What it is for -/

/-- The cells `r, s` of a block of `rows` by `cols` have different indices. -/
def Separate (blockLength rows cols : ℕ) : Prop :=
  ∀ r s r' s', r < rows → s < cols → r' < rows → s' < cols →
    uint (s + blockLength * r) = uint (s' + blockLength * r') → r = r' ∧ s = s'

/-- No two elements that a block loads share a local cell. -/
def LoadsApart : Prop :=
  Separate z.blockLength (min z.blockLength z.M) (min z.blockLength z.K) ∧
    Separate z.blockLength (min z.blockLength z.K) (min z.blockLength z.N)

/-- The result is the product of the matrices, and nothing that an earlier block left in local
memory went into it. -/
def Product (in1 in2 : ℕ → ℚ) (m : z.Memory) : Prop :=
  ∀ r < z.M, ∀ c < z.N, m (.out (c + r * z.N)) =
    ⟨∑ k ∈ Finset.range z.K, in1 (k + r * z.K) * in2 (c + k * z.N), true⟩

/-- Every run of the kernel ends, stays within the matrices and leaves the product. -/
def ProductLaw : Prop :=
  ∀ (in1 in2 : ℕ → ℚ) (m : z.Memory), (∀ i < z.M * z.K, m (.in1 i) = in1 i) →
    (∀ i < z.K * z.N, m (.in2 i) = in2 i) →
    Meets Prod.fst z.matrixMultFull z.noSum m z.Exists (z.Product in1 in2)

end MatrixSizes

end Sem.OpenCL
