import Mathlib.Algebra.Group.Int.Defs
import Mathlib.Algebra.Group.Nat.Defs
import Mathlib.Data.List.Basic
import Sem.Lib.Decimal

/-!
# Version numbers (`versionkey.cpp`)

A version is three numbers and an optional suffix. `matchVersion` are the captures of
`^(\d+)\.(\d+)\.(\d+)(-.+)?$`, where `.` matches no line feed and `$` also matches before a final
one. A number that does not fit an `int` counts as `0`, as `QString::toInt` returns.
-/

namespace Sem.Medea

namespace VersionKey

open QString (toInt)

/-- `(\d+)`, and what is left. -/
def captureDigits (s : List Char) : Option (List Char × List Char) :=
  match s.takeWhile Char.isDigit with
  | [] => none
  | d :: ds => some (d :: ds, s.dropWhile Char.isDigit)

/-- `\.` -/
def dropDot : List Char → Option (List Char)
  | '.' :: s => some s
  | _ => none

/-- `(-.+)?$` -/
def captureSuffix (s : List Char) : Option (List Char) :=
  let body := if s.getLast? = some '\n' then s.dropLast else s
  if '\n' ∈ body then none
  else match body with
  | [] => some []
  | '-' :: c :: cs => some ('-' :: c :: cs)
  | _ => none

/-- The four groups of the pattern of a version. -/
def matchVersion (s : List Char) :
    Option (List Char × List Char × List Char × List Char) := do
  let (major, s) ← captureDigits s
  let s ← dropDot s
  let (minor, s) ← captureDigits s
  let s ← dropDot s
  let (patch, s) ← captureDigits s
  let suffix ← captureSuffix s
  return (major, minor, patch, suffix)

/-- The sign of `QString::compare(.., Qt::CaseInsensitive)`; `fold` is Qt's case folding. -/
def compareFolded (fold : Char → Char) : List Char → List Char → Int
  | [], [] => 0
  | [], _ :: _ => -1
  | _ :: _, [] => 1
  | a :: as, b :: bs =>
    if (fold a).toNat < (fold b).toNat then -1
    else if (fold b).toNat < (fold a).toNat then 1
    else compareFolded fold as bs

/-- The fields in turn, then the suffixes. -/
def compareFields (fold : Char → Char) : List (Nat × Nat) → List Char × List Char → Int
  | [], (s, t) => compareFolded fold s t
  | (current, compare) :: fields, suffixes =>
    if current = compare then compareFields fold fields suffixes
    else if compare < current then 1 else -1

/-- `CompareVersion`; `none` is `std::invalid_argument`. -/
def compareVersion (fold : Char → Char) (current compare : List Char) : Option Int := do
  let (a₁, a₂, a₃, as) ← matchVersion current
  let (b₁, b₂, b₃, bs) ← matchVersion compare
  return compareFields fold [(toInt a₁, toInt b₁), (toInt a₂, toInt b₂), (toInt a₃, toInt b₃)]
    (as, bs)

theorem compareFolded_self (fold : Char → Char) (s : List Char) : compareFolded fold s s = 0 := by
  induction s with
  | nil => rfl
  | cons c s ih => simp [compareFolded, ih]

/-- **A version does not differ from itself.** -/
theorem compareVersion_self (fold : Char → Char) {s : List Char} (h : (matchVersion s).isSome) :
    compareVersion fold s s = some 0 := by
  obtain ⟨⟨a, b, c, suffix⟩, hm⟩ := Option.isSome_iff_exists.mp h
  simp [compareVersion, hm, compareFields, compareFolded_self]

end VersionKey

end Sem.Medea
