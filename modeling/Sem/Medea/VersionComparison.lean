import Sem.Medea.Version
import Mathlib.Data.List.Lex
import Mathlib.Data.Prod.Lex

/-!
# The order of versions

Versions have a lexicographic order: by their three numbers, then by their folded suffixes.
`CompareVersion` goes by numbers of an `int`, where one that does not fit counts as zero.

* `compareVersion_sign`: it is the order of these numbers, and so antisymmetric and transitive, and
  it does not depend on leading zeros.
* `comparesNumbers_iff`: for which versions it is the order of the numbers themselves.
* `not_comparesNumbers`: a version with a number of ten digits.
-/

namespace Sem.Medea.VersionKey

open QString (toInt)

/-- What `matchVersion` captures. -/
abbrev Captures := List Char × List Char × List Char × List Char

/-- The number that digits stand for. -/
def number (digits : List Char) : ℕ := Nat.ofDigitChars 10 digits 0

/-- What is compared: the numbers, and the suffix. -/
abbrev OrderKey := ℕ ×ₗ ℕ ×ₗ ℕ ×ₗ List ℕ

/-- The key of a version whose digits have these values. -/
def orderKey (value : List Char → ℕ) (fold : Char → Char) (m : Captures) : OrderKey :=
  toLex (value m.1, toLex (value m.2.1, toLex (value m.2.2.1, m.2.2.2.map fun c => (fold c).toNat)))

/-- The sign of a comparison. -/
structure IsSign {α : Type*} [LinearOrder α] (r : Int) (x y : α) : Prop where
  neg : r < 0 ↔ x < y
  zero : r = 0 ↔ x = y
  pos : 0 < r ↔ y < x

/-- `CompareVersion` is the comparison of the numbers, then of the suffixes. -/
def ComparesNumbers (fold : Char → Char) (current compare : List Char) : Prop :=
  ∃ m n r, matchVersion current = some m ∧ matchVersion compare = some n ∧
    compareVersion fold current compare = some r ∧
    IsSign r (orderKey number fold m) (orderKey number fold n)

/-- The value of a number in an `int`. -/
def clamp (n : ℕ) : ℕ := if n < 2 ^ 31 then n else 0

/-- The first numbers that differ fit, or they both count as zero and the rest of the versions is
in their order. -/
def InOrder (fold : Char → Char) : List (ℕ × ℕ) → List Char × List Char → Prop
  | [], _ => True
  | (m, n) :: fields, suffixes =>
    if m = n then InOrder fold fields suffixes
    else max m n < 2 ^ 31 ∨ clamp (min m n) = 0 ∧
      compareFields fold (fields.map fun f => (clamp f.1, clamp f.2)) suffixes =
        if m < n then -1 else 1

/-- The pairs of numbers of two versions. -/
def numberPairs (m n : Captures) : List (ℕ × ℕ) :=
  [(number m.1, number n.1), (number m.2.1, number n.2.1), (number m.2.2.1, number n.2.2.1)]

/-! ## Signs -/

section IsSign

variable {α β : Type*} [LinearOrder α] [LinearOrder β] {r r' : Int} {x y : α} {u v : β}

theorem isSign_of_lt (h : x < y) : IsSign (-1) x y :=
  ⟨by simp [h], by simp [h.ne], by simp [h.le]⟩

theorem isSign_of_gt (h : y < x) : IsSign 1 x y :=
  ⟨by simp [h.le], by simp [h.ne'], by simp [h]⟩

theorem isSign_self (x : α) : IsSign 0 x x := ⟨by simp, by simp, by simp⟩

theorem IsSign.eq_sign (h : IsSign r x y) (h' : IsSign r' x y) : r.sign = r'.sign := by
  rcases lt_trichotomy x y with hlt | heq | hgt
  · rw [Int.sign_eq_neg_one_of_neg (h.neg.mpr hlt), Int.sign_eq_neg_one_of_neg (h'.neg.mpr hlt)]
  · rw [h.zero.mpr heq, h'.zero.mpr heq]
  · rw [Int.sign_eq_one_of_pos (h.pos.mpr hgt), Int.sign_eq_one_of_pos (h'.pos.mpr hgt)]

/-- Of pairs with the same first part, the second one decides. -/
theorem isSign_toLex_iff (heq : x = y) : IsSign r (toLex (x, u)) (toLex (y, v)) ↔ IsSign r u v := by
  subst heq
  have hlt : ∀ w z : β, toLex (x, w) < toLex (x, z) ↔ w < z := by
    intro w z
    simp [Prod.Lex.toLex_lt_toLex]
  have hinj : toLex (x, u) = toLex (x, v) ↔ u = v := by simp
  exact ⟨fun h => ⟨h.neg.trans (hlt u v), h.zero.trans hinj, h.pos.trans (hlt v u)⟩,
    fun h => ⟨h.neg.trans (hlt u v).symm, h.zero.trans hinj.symm, h.pos.trans (hlt v u).symm⟩⟩

theorem toLex_lt_of_fst (h : x < y) (u v : β) : toLex (x, u) < toLex (y, v) := by
  rw [Prod.Lex.toLex_lt_toLex]
  exact .inl h

end IsSign

theorem isSign_compareFolded (fold : Char → Char) (s t : List Char) :
    IsSign (compareFolded fold s t) (s.map fun c => (fold c).toNat)
      (t.map fun c => (fold c).toNat) := by
  induction s generalizing t with
  | nil =>
    cases t with
    | nil => exact isSign_self _
    | cons b t => exact isSign_of_lt (List.nil_lt_cons _ _)
  | cons a s ih =>
    cases t with
    | nil => exact isSign_of_gt (List.nil_lt_cons _ _)
    | cons b t =>
      simp only [compareFolded, List.map_cons]
      rcases lt_trichotomy (fold a).toNat (fold b).toNat with hlt | heq | hgt
      · rw [if_pos hlt]
        exact isSign_of_lt (List.Lex.rel hlt)
      · rw [if_neg heq.not_lt, if_neg heq.not_gt, heq]
        have hcons : ∀ (n : ℕ) (l l' : List ℕ), n :: l < n :: l' ↔ l < l' := by
          intro n l l'
          exact List.cons_lt_cons_self
        exact ⟨(ih t).neg.trans (hcons _ _ _).symm, by rw [(ih t).zero, List.cons_inj_right],
          (ih t).pos.trans (hcons _ _ _).symm⟩
      · rw [if_neg hgt.not_gt, if_pos hgt]
        exact isSign_of_gt (List.Lex.rel hgt)

/-- One field. -/
theorem isSign_compareFields_cons {β : Type*} [LinearOrder β] {fold : Char → Char} {m n : ℕ}
    {fields : List (ℕ × ℕ)} {suffixes : List Char × List Char} {u v : β}
    (h : IsSign (compareFields fold fields suffixes) u v) :
    IsSign (compareFields fold ((m, n) :: fields) suffixes) (toLex (m, u)) (toLex (n, v)) := by
  rw [compareFields]
  rcases lt_trichotomy m n with hlt | heq | hgt
  · rw [if_neg hlt.ne, if_neg hlt.not_gt]
    exact isSign_of_lt (toLex_lt_of_fst hlt u v)
  · rw [if_pos heq]
    exact (isSign_toLex_iff heq).mpr h
  · rw [if_neg hgt.ne', if_pos hgt]
    exact isSign_of_gt (toLex_lt_of_fst hgt v u)

theorem isSign_compareFields (value : List Char → ℕ) (fold : Char → Char) (m n : Captures) :
    IsSign (compareFields fold [(value m.1, value n.1), (value m.2.1, value n.2.1),
      (value m.2.2.1, value n.2.2.1)] (m.2.2.2, n.2.2.2))
      (orderKey value fold m) (orderKey value fold n) :=
  isSign_compareFields_cons (isSign_compareFields_cons (isSign_compareFields_cons
    (isSign_compareFolded fold _ _)))

/-! ## `CompareVersion` -/

variable {fold : Char → Char} {a b c : List Char} {l m n : Captures}

theorem toInt_eq_clamp (digits : List Char) : toInt digits = clamp (number digits) := rfl

theorem compareVersion_eq (ha : matchVersion a = some m) (hb : matchVersion b = some n) :
    compareVersion fold a b = some (compareFields fold
      ((numberPairs m n).map fun f => (clamp f.1, clamp f.2)) (m.2.2.2, n.2.2.2)) := by
  obtain ⟨m₁, m₂, m₃, ms⟩ := m
  obtain ⟨n₁, n₂, n₃, ns⟩ := n
  simp [compareVersion, ha, hb, numberPairs, toInt_eq_clamp]

/-- **`CompareVersion` is the order of the numbers of an `int`.** -/
theorem compareVersion_sign (ha : matchVersion a = some m) (hb : matchVersion b = some n) :
    ∃ r, compareVersion fold a b = some r ∧
      IsSign r (orderKey toInt fold m) (orderKey toInt fold n) :=
  ⟨_, compareVersion_eq ha hb, isSign_compareFields toInt fold m n⟩

theorem compareVersion_swap (ha : matchVersion a = some m) (hb : matchVersion b = some n) :
    ∃ r r', compareVersion fold a b = some r ∧ compareVersion fold b a = some r' ∧
      r'.sign = -r.sign := by
  obtain ⟨r, hr, hsign⟩ := @compareVersion_sign fold a b m n ha hb
  obtain ⟨r', hr', hsign'⟩ := @compareVersion_sign fold b a n m hb ha
  refine ⟨r, r', hr, hr', ?_⟩
  have hneg : IsSign (-r) (orderKey toInt fold n) (orderKey toInt fold m) :=
    ⟨by rw [← hsign.pos]; omega, by rw [eq_comm (a := orderKey toInt fold n), ← hsign.zero]; omega,
      by rw [← hsign.neg]; omega⟩
  rw [hsign'.eq_sign hneg, Int.sign_neg]

/-- `IsVersionOlder` -/
def isVersionOlder (fold : Char → Char) (current compare : List Char) : Option Bool :=
  (compareVersion fold current compare).map (· < 0)

/-- `IsVersionNewer` -/
def isVersionNewer (fold : Char → Char) (current compare : List Char) : Option Bool :=
  (compareVersion fold current compare).map (0 < ·)

theorem not_older_and_newer (fold : Char → Char) (a b : List Char) :
    ¬ (isVersionOlder fold a b = some true ∧ isVersionNewer fold a b = some true) := by
  rintro ⟨holder, hnewer⟩
  unfold isVersionOlder at holder
  unfold isVersionNewer at hnewer
  cases h : compareVersion fold a b with
  | none => simp [h] at holder
  | some r =>
    simp only [h, Option.map_some, Option.some.injEq, decide_eq_true_eq] at holder hnewer
    omega

theorem compareVersion_trans (ha : matchVersion a = some l) (hb : matchVersion b = some m)
    (hc : matchVersion c = some n) (hab : isVersionOlder fold a b = some true)
    (hbc : isVersionOlder fold b c = some true) : isVersionOlder fold a c = some true := by
  have holder : ∀ {s t : List Char} {x y : Captures}, matchVersion s = some x →
      matchVersion t = some y → (isVersionOlder fold s t = some true ↔
        orderKey toInt fold x < orderKey toInt fold y) := by
    intro s t x y hs ht
    obtain ⟨r, hr, hsign⟩ := @compareVersion_sign fold s t x y hs ht
    simp [isVersionOlder, hr, ← hsign.neg]
  rw [holder ha hb] at hab
  rw [holder hb hc] at hbc
  exact (holder ha hc).mpr (hab.trans hbc)

/-! ## Numbers that do not fit -/

theorem sign_compareFields (fold : Char → Char) (fields : List (ℕ × ℕ))
    (suffixes : List Char × List Char) :
    (compareFields fold fields suffixes).sign = compareFields fold fields suffixes := by
  induction fields with
  | nil =>
    obtain ⟨s, t⟩ := suffixes
    rw [compareFields]
    induction s generalizing t with
    | nil => cases t <;> rfl
    | cons a s ih =>
      cases t with
      | nil => rfl
      | cons b t =>
        rw [compareFolded]
        split
        · rfl
        · split
          · rfl
          · exact ih t
  | cons f fields ih =>
    rw [compareFields]
    split
    · exact ih
    · split <;> rfl

/-- The numbers and their values in an `int` compare alike exactly if they are in order. -/
theorem inOrder_iff (fold : Char → Char) (fields : List (ℕ × ℕ))
    (suffixes : List Char × List Char) : InOrder fold fields suffixes ↔
      compareFields fold (fields.map fun f => (clamp f.1, clamp f.2)) suffixes =
        compareFields fold fields suffixes := by
  induction fields with
  | nil => exact iff_of_true trivial rfl
  | cons f fields ih =>
    obtain ⟨m, n⟩ := f
    rw [List.map_cons, compareFields, compareFields, InOrder]
    by_cases heq : m = n
    · subst heq
      simpa using ih
    rw [if_neg heq, if_neg heq]
    by_cases hmax : max m n < 2 ^ 31
    · have hm : clamp m = m := if_pos (lt_of_le_of_lt (le_max_left m n) hmax)
      have hn : clamp n = n := if_pos (lt_of_le_of_lt (le_max_right m n) hmax)
      rw [hm, hn, if_neg heq]
      exact iff_of_true (.inl hmax) rfl
    · rcases lt_or_gt_of_ne heq with hlt | hgt
      · have hn : clamp n = 0 := if_neg (by rwa [max_eq_right hlt.le] at hmax)
        rw [hn, min_eq_left hlt.le, if_pos hlt, if_neg hlt.not_gt, or_iff_right hmax]
        by_cases hm : clamp m = 0
        · simp [hm]
        · have hpos : 0 < clamp m := Nat.pos_of_ne_zero hm
          simp [hm, hpos]
      · have hm : clamp m = 0 := if_neg (by rwa [max_eq_left hgt.le] at hmax)
        rw [hm, min_eq_right hgt.le, if_neg hgt.not_gt, if_pos hgt, or_iff_right hmax]
        by_cases hn : clamp n = 0
        · simp [hn]
        · simp [Ne.symm hn, hn]

/-- **`CompareVersion` is the order of the numbers exactly if** the first ones that differ fit an
`int`, or they both count as zero there and what follows has their order. -/
theorem comparesNumbers_iff (fold : Char → Char) {a b : List Char} {m n : Captures}
    (ha : matchVersion a = some m) (hb : matchVersion b = some n) :
    ComparesNumbers fold a b ↔ InOrder fold (numberPairs m n) (m.2.2.2, n.2.2.2) := by
  have hexact := isSign_compareFields number fold m n
  rw [inOrder_iff]
  constructor
  · rintro ⟨m', n', r, hm, hn, hr, hsign⟩
    cases ha.symm.trans hm
    cases hb.symm.trans hn
    cases (compareVersion_eq ha hb).symm.trans hr
    have hequal := hsign.eq_sign hexact
    rwa [sign_compareFields, sign_compareFields] at hequal
  · intro heq
    exact ⟨m, n, _, ha, hb, compareVersion_eq ha hb, by rw [heq]; exact hexact⟩

theorem comparesNumbers_padded : ComparesNumbers id "010.9.0-rc".toList "10.10.0".toList :=
  (comparesNumbers_iff id (m := ("010".toList, "9".toList, "0".toList, "-rc".toList))
    (n := ("10".toList, "10".toList, "0".toList, [])) (by decide +kernel) (by decide +kernel)).mpr
    (by
      have hfirst : numberPairs ("010".toList, "9".toList, "0".toList, "-rc".toList)
          ("10".toList, "10".toList, "0".toList, []) = [(10, 10), (9, 10), (0, 0)] := by
        decide +kernel
      rw [hfirst, InOrder, if_pos rfl, InOrder, if_neg (by decide)]
      exact .inl (by decide))

/-- A number of ten digits counts as zero. -/
theorem not_comparesNumbers : ¬ ComparesNumbers id "3000000000.0.0".toList "1.0.0".toList := by
  rintro ⟨m, n, r, hm, hn, hr, hsign⟩
  have hm' : matchVersion "3000000000.0.0".toList =
      some ("3000000000".toList, "0".toList, "0".toList, []) := by decide +kernel
  have hn' : matchVersion "1.0.0".toList =
      some ("1".toList, "0".toList, "0".toList, []) := by decide +kernel
  have hr' : compareVersion id "3000000000.0.0".toList "1.0.0".toList = some (-1) := by
    decide +kernel
  cases hm'.symm.trans hm
  cases hn'.symm.trans hn
  cases hr'.symm.trans hr
  have hlt : number "1".toList < number "3000000000".toList := by decide +kernel
  exact absurd (hsign.neg.mp (by decide)) (toLex_lt_of_fst hlt _ _).not_gt

end Sem.Medea.VersionKey
