import Mathlib.Algebra.Order.Floor.Semifield
import Mathlib.Data.Int.Log
import Mathlib.Data.List.TakeWhile
import Mathlib.Data.Nat.Digits.Lemmas
import Mathlib.Data.Rat.Floor
import Sem.Lib.Xml

/-!
# Numbers read from texts

The conversions of the C library in the C locale: white space, a sign, and the longest beginning
that is a number. What stands behind the number is not looked at. The `std` functions on top of them
throw one exception where there is no number and another where the number does not fit.

* `stoi_eq_ok_iff`: it returns exactly on a number that fits.
* `stoi_digits`: a text of digits is its value.
* `readBoolalpha_eq_none_iff`: a truth value is left unset exactly by a blank text.
-/

namespace Sem.Lib

open Xml (Text)

/-- What the conversions throw. -/
inductive ConversionError
  | invalidArgument
  | outOfRange
  deriving DecidableEq, Repr

/-- White space of the C locale. -/
def isSpace (c : Char) : Bool := c = ' ' || (9 ≤ c.toNat && c.toNat ≤ 13)

/-- An optional sign; `true` for a minus. -/
def readSign : Text → Bool × Text
  | '-' :: s => (true, s)
  | '+' :: s => (false, s)
  | s => (false, s)

/-! ## Whole numbers -/

/-- `strtol` to the base ten, without its range. -/
def strtol (s : Text) : Option ℤ :=
  let (negative, s) := readSign (s.dropWhile isSpace)
  let digits := s.takeWhile Char.isDigit
  let n : ℤ := Nat.ofDigitChars 10 digits 0
  if digits = [] then none else some (if negative then -n else n)

/-- A number that an `int` holds. -/
def FitsInt (n : ℤ) : Prop := -2147483648 ≤ n ∧ n ≤ 2147483647

instance (n : ℤ) : Decidable (FitsInt n) := inferInstanceAs (Decidable (_ ∧ _))

/-- `std::stoi`. -/
def stoi (s : Text) : Except ConversionError ℤ :=
  match strtol s with
  | none => .error .invalidArgument
  | some n => if FitsInt n then .ok n else .error .outOfRange

theorem stoi_eq_ok_iff {s : Text} {n : ℤ} : stoi s = .ok n ↔ strtol s = some n ∧ FitsInt n := by
  unfold stoi
  cases strtol s with
  | none => simp
  | some m => by_cases hm : FitsInt m <;> simp [hm] <;> grind

theorem stoi_eq_invalidArgument_iff {s : Text} :
    stoi s = .error .invalidArgument ↔ strtol s = none := by
  unfold stoi
  cases strtol s with
  | none => simp
  | some m => by_cases hm : FitsInt m <;> simp [hm]

theorem stoi_eq_outOfRange_iff {s : Text} :
    stoi s = .error .outOfRange ↔ ∃ n, strtol s = some n ∧ ¬ FitsInt n := by
  unfold stoi
  cases strtol s with
  | none => simp
  | some m => by_cases hm : FitsInt m <;> simp [hm]

theorem not_isSpace_of_lt {c : Char} (h : 32 < c.toNat) : isSpace c = false := by
  have hblank : c ≠ ' ' := by
    rintro rfl
    exact absurd h (by decide)
  simp only [isSpace, hblank, decide_false, Bool.false_or, Bool.and_eq_false_iff,
    decide_eq_false_iff_not]
  omega

theorem not_isSpace_of_isDigit {c : Char} (h : c.isDigit = true) : isSpace c = false := by
  have hnat := Char.isDigit_iff_toNat.mp h
  have hzero : '0'.toNat = 48 := rfl
  exact not_isSpace_of_lt (by omega)

theorem not_isSpace_of_isAlphanum {c : Char} (h : c.isAlphanum = true) : isSpace c = false := by
  refine not_isSpace_of_lt ?_
  unfold Char.isAlphanum Char.isAlpha Char.isUpper Char.isLower Char.isDigit at h
  simp only [Bool.or_eq_true, Bool.and_eq_true, decide_eq_true_eq, UInt32.le_iff_toNat_le,
    ge_iff_le] at h
  change (((65 ≤ c.toNat ∧ c.toNat ≤ 90) ∨ (97 ≤ c.toNat ∧ c.toNat ≤ 122)) ∨
    (48 ≤ c.toNat ∧ c.toNat ≤ 57)) at h
  omega

theorem isSpace_toLower (c : Char) : isSpace c.toLower = isSpace c := by
  unfold Char.toLower
  split
  · next hupper =>
    have hlo : 65 ≤ c.val.toNat := by simpa [UInt32.le_iff_toNat_le] using hupper.1
    have hhi : c.val.toNat ≤ 90 := by simpa [UInt32.le_iff_toNat_le] using hupper.2
    have hsum : (c.val + ('a'.val - 'A'.val)).toNat = c.val.toNat + 32 := by
      rw [UInt32.toNat_add, show ('a'.val - 'A'.val).toNat = 32 from rfl]
      omega
    rw [not_isSpace_of_lt (c := c) (show 32 < c.val.toNat by omega)]
    exact not_isSpace_of_lt (by show 32 < (c.val + ('a'.val - 'A'.val)).toNat; omega)
  · rfl

theorem readSign_of_isDigit {c : Char} (h : c.isDigit = true) (s : Text) :
    readSign (c :: s) = (false, c :: s) := by
  have hnat := Char.isDigit_iff_toNat.mp h
  have hminus : c ≠ '-' := by
    rintro rfl
    exact absurd hnat (by decide)
  have hplus : c ≠ '+' := by
    rintro rfl
    exact absurd hnat (by decide)
  simp [readSign, hminus, hplus]

theorem strtol_digits {s : Text} (hne : s ≠ []) (h : ∀ c ∈ s, c.isDigit = true) :
    strtol s = some (Nat.ofDigitChars 10 s 0 : ℤ) := by
  cases s with
  | nil => exact absurd rfl hne
  | cons c s =>
    have hc := h c List.mem_cons_self
    have htake : (c :: s).takeWhile Char.isDigit = c :: s := List.takeWhile_eq_self_iff.2 h
    have hdrop : (c :: s).dropWhile isSpace = c :: s :=
      List.dropWhile_cons_of_neg (by simp [not_isSpace_of_isDigit hc])
    simp [strtol, hdrop, readSign_of_isDigit hc, htake]

theorem ofDigitChars_lt {s : Text} (h : ∀ c ∈ s, c.isDigit = true) :
    Nat.ofDigitChars 10 s 0 < 10 ^ s.length := by
  induction s with
  | nil => simp
  | cons c s ih =>
    have hs := ih fun d hd => h d (List.mem_cons_of_mem c hd)
    have hc := Char.isDigit_iff_toNat.mp (h c List.mem_cons_self)
    have hzero : '0'.toNat = 48 := rfl
    have hnine : '9'.toNat = 57 := rfl
    rw [Nat.ofDigitChars_cons, Nat.ofDigitChars_eq_ofDigitChars_zero, List.length_cons,
      Nat.pow_succ]
    have hd : 10 * 0 + (c.toNat - '0'.toNat) ≤ 9 := by omega
    have := Nat.mul_le_mul_left (10 ^ s.length) hd
    omega

theorem stoi_digits {s : Text} (hne : s ≠ []) (h : ∀ c ∈ s, c.isDigit = true)
    (hfits : Nat.ofDigitChars 10 s 0 ≤ 2147483647) :
    stoi s = .ok (Nat.ofDigitChars 10 s 0 : ℤ) :=
  stoi_eq_ok_iff.mpr ⟨strtol_digits hne h, by unfold FitsInt; omega⟩

/-! ## Floating point numbers -/

/-- A `double`: a sign and a magnitude, an infinity, or no number. -/
inductive Double
  | finite (negative : Bool) (magnitude : ℚ)
  | infinite (negative : Bool)
  | nan
  deriving DecidableEq, Repr

/-- What `strtod` reads behind the sign, before it is rounded. -/
inductive FloatText
  | number (magnitude : ℚ)
  | infinity
  | nan
  deriving DecidableEq, Repr

/-- The value of a hexadecimal digit. -/
def hexValue (c : Char) : Option ℕ :=
  if c.isDigit then some (c.toNat - '0'.toNat)
  else if 'a' ≤ c.toLower ∧ c.toLower ≤ 'f' then some (c.toLower.toNat - 'a'.toNat + 10)
  else none

/-- The value of a digit to the base. -/
def digitValue (base : ℕ) (c : Char) : Option ℕ := (hexValue c).filter (· < base)

/-- The digits at the start, and what follows them. -/
def readDigits (base : ℕ) (s : Text) : List ℕ × Text :=
  ((s.takeWhile fun c => (digitValue base c).isSome).filterMap (digitValue base),
    s.dropWhile fun c => (digitValue base c).isSome)

/-- Digits with an optional point among them. -/
def readMantissa (base : ℕ) (s : Text) : Option (ℚ × Text) :=
  let (whole, s) := readDigits base s
  let (fraction, s) := match s with
    | '.' :: s => readDigits base s
    | s => ([], s)
  let digits := whole ++ fraction
  if digits = [] then none
  else some ((Nat.ofDigits base digits.reverse : ℕ) / (base : ℚ) ^ fraction.length, s)

/-- An exponent behind its letter, zero where there is none. -/
def readExponent (letter : Char) : Text → ℤ
  | [] => 0
  | c :: s =>
    let (negative, s) := readSign s
    let e : ℤ := Nat.ofDigitChars 10 (s.takeWhile Char.isDigit) 0
    if c.toLower = letter then if negative then -e else e else 0

/-- The number, infinity or `nan` at the start. -/
def readMagnitude (s : Text) : Option FloatText :=
  let hexadecimal := match s with
    | '0' :: x :: s => if x.toLower = 'x' then readMantissa 16 s else none
    | _ => none
  match hexadecimal, readMantissa 10 s with
  | some (m, s), _ => some (.number (m * 2 ^ readExponent 'p' s))
  | none, some (m, s) => some (.number (m * 10 ^ readExponent 'e' s))
  | none, none =>
    if "inf".toList.isPrefixOf (s.map Char.toLower) then some .infinity
    else if "nan".toList.isPrefixOf (s.map Char.toLower) then some .nan
    else none

/-- `strtod`, without its rounding. -/
def strtod (s : Text) : Option (Bool × FloatText) :=
  let (negative, s) := readSign (s.dropWhile isSpace)
  (readMagnitude s).map fun x => (negative, x)

/-- The nearest whole number, the even one of two. -/
def roundEven (q : ℚ) : ℕ :=
  let n := ⌊q⌋₊
  if q - n < 1 / 2 then n else if 1 / 2 < q - n then n + 1 else n + n % 2

/-- The nearest magnitude with 53 bits, none of them below `2 ^ -1074`. -/
def roundMagnitude (q : ℚ) : ℚ :=
  let ulp : ℚ := 2 ^ max (Int.log 2 q - 52) (-1074)
  roundEven (q / ulp) * ulp

/-- The numbers that `strtod` reports as too great, and those that it reports as too small, which
the language leaves to the implementation. -/
def FloatText.FitsDouble (tooSmall : ℚ → Bool) : FloatText → Prop
  | number q => roundMagnitude q < 2 ^ 1024 ∧ tooSmall q = false
  | infinity => True
  | nan => True

instance (tooSmall : ℚ → Bool) : ∀ x : FloatText, Decidable (x.FitsDouble tooSmall)
  | .number _ => inferInstanceAs (Decidable (_ ∧ _))
  | .infinity => inferInstanceAs (Decidable True)
  | .nan => inferInstanceAs (Decidable True)

/-- The double that a text is read as. -/
def FloatText.toDouble (negative : Bool) : FloatText → Double
  | number q => .finite negative (roundMagnitude q)
  | infinity => .infinite negative
  | nan => .nan

/-- `std::stod`. -/
def stod (tooSmall : ℚ → Bool) (s : Text) : Except ConversionError Double :=
  match strtod s with
  | none => .error .invalidArgument
  | some (negative, x) =>
    if x.FitsDouble tooSmall then .ok (x.toDouble negative) else .error .outOfRange

section Stod

variable {tooSmall : ℚ → Bool} {s : Text}

theorem stod_eq_outOfRange_iff : stod tooSmall s = .error .outOfRange ↔
    ∃ negative x, strtod s = some (negative, x) ∧ ¬ x.FitsDouble tooSmall := by
  unfold stod
  rcases strtod s with _ | ⟨negative, x⟩
  · simp
  · by_cases hx : x.FitsDouble tooSmall <;> simp [hx]

end Stod

/-! ## Truth values -/

/-- `is >> std::boolalpha >> b` on a text: what is stored, if anything. A blank text ends the
stream before there is anything to read, and then nothing is stored. -/
def readBoolalpha (s : Text) : Option Bool :=
  match s.dropWhile isSpace with
  | [] => none
  | s => some ("true".toList.isPrefixOf s)

theorem readBoolalpha_eq_none_iff {s : Text} :
    readBoolalpha s = none ↔ ∀ c ∈ s, isSpace c = true := by
  rw [← List.dropWhile_eq_nil_iff]
  unfold readBoolalpha
  cases s.dropWhile isSpace <;> simp

end Sem.Lib
