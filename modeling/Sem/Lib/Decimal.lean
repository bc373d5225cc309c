import Mathlib.Data.Nat.Digits.Lemmas

/-!
# Decimal numerals

The text of a number on an output stream, and texts that are a name followed by numerals behind a
separator. Numerals have no separator in them, so that such a text determines its parts.
-/

namespace Sem

/-- A number on a text stream. -/
def decimal (n : Nat) : List Char := Nat.toDigits 10 n

theorem toNat_of_mem_decimal {n : Nat} {c : Char} (h : c ∈ decimal n) :
    48 ≤ c.toNat ∧ c.toNat ≤ 57 := by
  have hd := Nat.isDigit_of_mem_toDigits (by decide) (by decide) h
  simpa [Char.isDigit, UInt32.le_iff_toNat_le] using hd

theorem notMem_decimal {c : Char} (hc : c.isDigit = false) (n : Nat) : c ∉ decimal n := by
  intro h
  have hdigit := Nat.isDigit_of_mem_toDigits (by decide) (by decide) h
  rw [hc] at hdigit
  cases hdigit

theorem decimal_injective {m n : Nat} (h : decimal m = decimal n) : m = n := by
  have := congrArg (Nat.ofDigitChars 10 · 0) h
  simpa [decimal, Nat.ofDigitChars_ten_toDigits] using this

/-- A whole number on a text stream. -/
def intText : Int → List Char
  | .ofNat n => decimal n
  | .negSucc n => '-' :: decimal (n + 1)

theorem intText_injective : Function.Injective intText := by
  intro a b h
  cases a with
  | ofNat m =>
    cases b with
    | ofNat n => rw [decimal_injective h]
    | negSucc n =>
      have hmem : '-' ∈ decimal m := by
        rw [show decimal m = '-' :: decimal (n + 1) from h]
        exact List.mem_cons_self
      exact absurd hmem (notMem_decimal rfl m)
  | negSucc m =>
    cases b with
    | ofNat n =>
      have hmem : '-' ∈ decimal n := by
        rw [show decimal n = '-' :: decimal (m + 1) from h.symm]
        exact List.mem_cons_self
      exact absurd hmem (notMem_decimal rfl n)
    | negSucc n =>
      have hsucc := decimal_injective (List.cons.inj h).2
      rw [Nat.succ.inj hsucc]

/-- `QString::toInt` of digits. -/
def QString.toInt (digits : List Char) : Nat :=
  let number := Nat.ofDigitChars 10 digits 0
  if number < 2 ^ 31 then number else 0

/-- The numerals of a list, each behind the separator. -/
def numerals (sep : Char) (ns : List Nat) : List Char := ns.flatMap fun n => sep :: decimal n

variable {sep : Char}

/-- Two texts without the separator, each followed by nothing or by the separator, agree in both
parts if they agree. -/
theorem append_separated_inj {a b s t : List Char} (ha : sep ∉ a) (hb : sep ∉ b)
    (hs : s.head? = none ∨ s.head? = some sep) (ht : t.head? = none ∨ t.head? = some sep)
    (h : a ++ s = b ++ t) : a = b ∧ s = t := by
  induction a generalizing b with
  | nil =>
    cases b with
    | nil => exact ⟨rfl, h⟩
    | cons c b =>
      rw [List.nil_append] at h
      rw [h] at hs
      simp at hs
      simp [hs] at hb
  | cons c a ih =>
    cases b with
    | nil =>
      rw [List.nil_append] at h
      rw [← h] at ht
      simp at ht
      simp [ht] at ha
    | cons d b =>
      rw [List.cons_append, List.cons_append] at h
      obtain ⟨rfl, htail⟩ := List.cons.inj h
      obtain ⟨rfl, rfl⟩ := ih (fun hm => ha (List.mem_cons_of_mem _ hm))
        (fun hm => hb (List.mem_cons_of_mem _ hm)) htail
      exact ⟨rfl, rfl⟩

theorem head?_numerals (ns : List Nat) :
    (numerals sep ns).head? = none ∨ (numerals sep ns).head? = some sep := by
  cases ns with
  | nil => exact .inl rfl
  | cons n ns => exact .inr rfl

theorem numerals_injective (hsep : ¬ (48 ≤ sep.toNat ∧ sep.toNat ≤ 57)) {ms ns : List Nat}
    (h : numerals sep ms = numerals sep ns) : ms = ns := by
  have hdec : ∀ n, sep ∉ decimal n := fun n hm => hsep (toNat_of_mem_decimal hm)
  induction ms generalizing ns with
  | nil =>
    cases ns with
    | nil => rfl
    | cons n ns => cases h
  | cons m ms ih =>
    cases ns with
    | nil => cases h
    | cons n ns =>
      obtain ⟨hmn, hrest⟩ := append_separated_inj (hdec m) (hdec n) (head?_numerals ms)
        (head?_numerals ns) (List.cons.inj h).2
      rw [decimal_injective hmn, ih hrest]

/-- **A name without the separator and the numerals behind it are determined by the text.** -/
theorem append_numerals_inj (hsep : ¬ (48 ≤ sep.toNat ∧ sep.toNat ≤ 57)) {a b : List Char}
    {ms ns : List Nat} (ha : sep ∉ a) (hb : sep ∉ b)
    (h : a ++ numerals sep ms = b ++ numerals sep ns) : a = b ∧ ms = ns := by
  obtain ⟨hab, hrest⟩ := append_separated_inj ha hb (head?_numerals ms) (head?_numerals ns) h
  exact ⟨hab, numerals_injective hsep hrest⟩

end Sem
