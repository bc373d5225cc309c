import Mathlib.Data.List.TakeWhile
import Sem.Lib.Xml

/-!
# Regular expressions with groups

Patterns in the syntax of ECMAScript, without alternatives, and the matcher that goes back: it tries
the ways to match one after another, the longest runs first. A match of a whole text returns the
texts of the groups, from left to right.

* `Regex.mem_ways_iff`: the ways of the matcher are the readings of the pattern.
* `Regex.match_eq_some_of_unique`: where all readings of a text agree, the match is the reading.
-/

namespace Sem.Lib

open Xml (Text)

/-- The patterns that are used. -/
inductive Regex
  /-- `^`. -/
  | bol
  /-- `$`. -/
  | eol
  /-- One character of a class. -/
  | one (p : Char → Bool)
  /-- As many characters of a class as there are, between two numbers. -/
  | run (p : Char → Bool) (lo : ℕ) (hi : Option ℕ)
  | group (r : Regex)
  | seq (r r' : Regex)

namespace Regex

/-- The pattern of one character. -/
def literal (c : Char) : Regex := one (· = c)

/-- `\d` between `lo` and `hi` times, in the C locale. -/
def digits (lo hi : ℕ) : Regex := run Char.isDigit lo (some hi)

/-- `.*`: a line's end is no character of it. -/
def anything : Regex := run (fun c => c != '\n' && c != '\r') 0 none

/-- The ways to match a beginning of the text, in the order in which they are tried: the texts of
the groups, and what is left. -/
def ways : Regex → ℕ → Text → List (List Text × Text)
  | bol, pos, s => if pos = 0 then [([], s)] else []
  | eol, _, s => if s = [] then [([], s)] else []
  | one _, _, [] => []
  | one p, _, c :: s => if p c then [([], s)] else []
  | run p lo hi, _, s =>
    let most := (hi.elim id min) (s.takeWhile p).length
    (((List.range (most + 1)).filter (lo ≤ ·)).reverse).map fun n => ([], s.drop n)
  | group r, pos, s => (r.ways pos s).map fun (texts, t) =>
    (s.take (s.length - t.length) :: texts, t)
  | seq r r', pos, s => (r.ways pos s).flatMap fun (texts, t) =>
    (r'.ways (pos + (s.length - t.length)) t).map fun (texts', t') => (texts ++ texts', t')

/-- `std::regex_match`: the first way to match the whole text. -/
def «match» (r : Regex) (s : Text) : Option (List Text) :=
  ((r.ways 0 s).find? (·.2 = [])).map Prod.fst

/-- A reading of the pattern: the part `w` of a text, from `pos` on and with `rest` behind it, and
the texts of the groups. -/
def Reads : Regex → (pos : ℕ) → (w rest : Text) → (texts : List Text) → Prop
  | bol, pos, w, _, texts => pos = 0 ∧ w = [] ∧ texts = []
  | eol, _, w, rest, texts => rest = [] ∧ w = [] ∧ texts = []
  | one p, _, w, _, texts => ∃ c, p c = true ∧ w = [c] ∧ texts = []
  | run p lo hi, _, w, _, texts =>
    (∀ c ∈ w, p c = true) ∧ lo ≤ w.length ∧ (∀ n ∈ hi, w.length ≤ n) ∧ texts = []
  | group r, pos, w, rest, texts => ∃ texts', r.Reads pos w rest texts' ∧ texts = w :: texts'
  | seq r r', pos, w, rest, texts => ∃ w₁ w₂ texts₁ texts₂, w = w₁ ++ w₂ ∧
    texts = texts₁ ++ texts₂ ∧ r.Reads pos w₁ (w₂ ++ rest) texts₁ ∧
    r'.Reads (pos + w₁.length) w₂ rest texts₂

theorem length_takeWhile_append {p : Char → Bool} {w t : Text} (hw : ∀ c ∈ w, p c = true) :
    w.length ≤ ((w ++ t).takeWhile p).length := by
  rw [List.takeWhile_append_of_pos hw, List.length_append]
  exact Nat.le_add_right _ _

theorem mem_ways_run_iff {p : Char → Bool} {lo : ℕ} {hi : Option ℕ} {pos : ℕ} {s t : Text}
    {texts : List Text} : (texts, t) ∈ (run p lo hi).ways pos s ↔
      ∃ n ≤ (s.takeWhile p).length, lo ≤ n ∧ (∀ m ∈ hi, n ≤ m) ∧ texts = [] ∧ t = s.drop n := by
  have hmost : ∀ n, n < (hi.elim id min) (s.takeWhile p).length + 1 ↔
      n ≤ (s.takeWhile p).length ∧ ∀ m ∈ hi, n ≤ m := by
    intro n
    cases hi <;> simp <;> omega
  simp only [ways, List.mem_map, List.mem_reverse, List.mem_filter, List.mem_range,
    decide_eq_true_eq, Prod.mk.injEq, hmost]
  grind

/-- **The ways of the matcher are the readings of the pattern.** -/
theorem mem_ways_iff {r : Regex} {pos : ℕ} {s t : Text} {texts : List Text} :
    (texts, t) ∈ r.ways pos s ↔ ∃ w, s = w ++ t ∧ r.Reads pos w t texts := by
  induction r generalizing pos s t texts with
  | bol => by_cases hpos : pos = 0 <;> simp [ways, Reads, hpos]; grind
  | eol => by_cases hs : s = [] <;> simp [ways, Reads, hs] <;> grind
  | one p =>
    cases s with
    | nil => simp [ways, Reads]
    | cons c s => by_cases hc : p c = true <;> simp [ways, Reads, hc]; grind
  | run p lo hi =>
    rw [mem_ways_run_iff]
    constructor
    · rintro ⟨n, hn, hlo, hhi, htexts, rfl⟩
      have htake : s.take n = (s.takeWhile p).take n := by
        obtain ⟨t, ht⟩ := List.takeWhile_prefix p (l := s)
        conv_lhs => rw [← ht, List.take_append_of_le_length hn]
      have hlength : (s.take n).length = n := by
        rw [htake, List.length_take_of_le hn]
      refine ⟨s.take n, (List.take_append_drop n s).symm, fun c hc => ?_, ?_, ?_, htexts⟩
      · rw [htake] at hc
        exact List.mem_takeWhile_imp (List.mem_of_mem_take hc)
      · rwa [hlength]
      · rwa [hlength]
    · rintro ⟨w, rfl, hw, hlo, hhi, htexts⟩
      exact ⟨w.length, length_takeWhile_append hw, hlo, hhi, htexts, by simp⟩
  | group r ih =>
    simp only [ways, List.mem_map, Reads, Prod.mk.injEq, Prod.exists]
    constructor
    · rintro ⟨texts', t', hmem, rfl, rfl⟩
      obtain ⟨w, rfl, hw⟩ := ih.mp hmem
      exact ⟨w, rfl, texts', hw, by simp⟩
    · rintro ⟨w, rfl, texts', hw, rfl⟩
      exact ⟨texts', t, ih.mpr ⟨w, rfl, hw⟩, by simp, rfl⟩
  | seq r r' ihr ihr' =>
    simp only [ways, List.mem_flatMap, List.mem_map, Reads, Prod.mk.injEq, Prod.exists]
    constructor
    · rintro ⟨texts₁, t₁, hmem₁, texts₂, t₂, hmem₂, rfl, rfl⟩
      obtain ⟨w₁, rfl, hw₁⟩ := ihr.mp hmem₁
      obtain ⟨w₂, rfl, hw₂⟩ := ihr'.mp hmem₂
      exact ⟨w₁ ++ w₂, by simp, w₁, w₂, texts₁, texts₂, rfl, rfl, hw₁, by simpa using hw₂⟩
    · rintro ⟨w, rfl, w₁, w₂, texts₁, texts₂, rfl, rfl, hw₁, hw₂⟩
      refine ⟨texts₁, w₂ ++ t, ihr.mpr ⟨w₁, by simp, hw₁⟩, texts₂, t, ?_, rfl, rfl⟩
      exact ihr'.mpr ⟨w₂, rfl, by simpa using hw₂⟩

theorem reads_of_match {r : Regex} {s : Text} {texts : List Text} (h : r.match s = some texts) :
    r.Reads 0 s [] texts := by
  obtain ⟨⟨texts', t⟩, hfind, rfl⟩ := Option.map_eq_some_iff.mp h
  have ht : t = [] := by simpa using List.find?_some hfind
  obtain ⟨w, rfl, hw⟩ := mem_ways_iff.mp (List.mem_of_find?_eq_some hfind)
  subst ht
  rwa [List.append_nil]

theorem match_eq_none_iff {r : Regex} {s : Text} :
    r.match s = none ↔ ∀ texts, ¬ r.Reads 0 s [] texts := by
  constructor
  · intro hnone texts hreads
    rw [«match», Option.map_eq_none_iff, List.find?_eq_none] at hnone
    refine hnone (texts, []) (mem_ways_iff.mpr ⟨s, by simp, hreads⟩) (by simp)
  · intro hreads
    by_contra hsome
    obtain ⟨texts, htexts⟩ := Option.ne_none_iff_exists'.mp hsome
    exact hreads texts (reads_of_match htexts)

/-- **Where all readings of a text agree, the match is the reading.** -/
theorem match_eq_some_of_unique {r : Regex} {s : Text} {texts : List Text}
    (hreads : r.Reads 0 s [] texts) (hunique : ∀ texts', r.Reads 0 s [] texts' → texts' = texts) :
    r.match s = some texts := by
  cases hmatch : r.match s with
  | none => exact absurd hreads (match_eq_none_iff.mp hmatch texts)
  | some texts' => rw [hunique texts' (reads_of_match hmatch)]

/-! ## Readings of sequences -/

section Sequences

variable {r : Regex} {pos : ℕ} {w rest : Text} {texts : List Text}

theorem reads_eol : eol.Reads pos w [] texts ↔ w = [] ∧ texts = [] := by
  simp [Reads]

theorem reads_seq_bol : (seq bol r).Reads 0 w rest texts ↔ r.Reads 0 w rest texts := by
  constructor
  · rintro ⟨_, _, _, _, rfl, rfl, ⟨-, rfl, rfl⟩, hr⟩
    exact hr
  · exact fun hr => ⟨[], w, [], texts, rfl, rfl, ⟨rfl, rfl, rfl⟩, hr⟩

theorem reads_seq_literal {c : Char} : (seq (literal c) r).Reads pos w rest texts ↔
    ∃ w', r.Reads (pos + 1) w' rest texts ∧ w = c :: w' := by
  constructor
  · rintro ⟨_, w', _, _, rfl, rfl, ⟨c', hc, rfl, rfl⟩, hr⟩
    obtain rfl : c' = c := by simpa using hc
    exact ⟨w', hr, rfl⟩
  · rintro ⟨w', hr, rfl⟩
    exact ⟨[c], w', [], texts, rfl, rfl, ⟨c, by simp, rfl, rfl⟩, hr⟩

theorem reads_seq_group_run {p : Char → Bool} {lo : ℕ} {hi : Option ℕ} :
    (seq (group (run p lo hi)) r).Reads pos w rest texts ↔
      ∃ a, ((∀ c ∈ a, p c = true) ∧ lo ≤ a.length ∧ ∀ n ∈ hi, a.length ≤ n) ∧
        ∃ w' texts', r.Reads (pos + a.length) w' rest texts' ∧
          w = a ++ w' ∧ texts = a :: texts' := by
  constructor
  · rintro ⟨a, w', _, texts', rfl, rfl, ⟨_, ⟨hp, hlo, hhi, rfl⟩, rfl⟩, hr⟩
    exact ⟨a, ⟨hp, hlo, hhi⟩, w', texts', hr, rfl, rfl⟩
  · rintro ⟨a, ⟨hp, hlo, hhi⟩, w', texts', hr, rfl, rfl⟩
    exact ⟨a, w', [a], texts', rfl, rfl, ⟨[], ⟨hp, hlo, hhi, rfl⟩, rfl⟩, hr⟩

end Sequences

end Regex

end Sem.Lib
