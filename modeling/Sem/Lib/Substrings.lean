import Mathlib.Data.List.Infix

/-!
# Substrings and words

Replacing the occurrences of a substring from left to right (`replaceAll`), the words between
separators (`words`), and dropping what has been seen (`eraseSeen`).

* `replaceAll_append_cons`: a character that is not in the substring keeps what is before it and
  what is behind it apart.
* `not_infix_replaceAll`, `infix_of_infix_replaceAll`: once each occurrence is replaced by a
  separator there is none left, and no other one has come.
* `words_append_cons`: the words before a separator and the words behind it.
-/

namespace Sem.Lib

universe u

variable {α : Type u}

section Replace

variable [DecidableEq α]

/-- Replace the occurrences of `search`, after passing over `skip` elements. -/
def replaceFrom (search replace : List α) : (skip : ℕ) → List α → List α
  | _, [] => []
  | 0, c :: s =>
    if search <+: c :: s then replace ++ replaceFrom search replace (search.length - 1) s
    else c :: replaceFrom search replace 0 s
  | skip + 1, _ :: s => replaceFrom search replace skip s

/-- Replace the occurrences of a substring that is not empty. The search goes on behind an
occurrence, and does not look at what was put there. -/
def replaceAll (search replace s : List α) : List α := replaceFrom search replace 0 s

variable {search replace p s t : List α} {a c : α} {k : ℕ}

@[simp] theorem replaceFrom_nil : replaceFrom search replace k [] = [] := by
  cases k <;> rfl

@[simp] theorem replaceFrom_succ :
    replaceFrom search replace (k + 1) (a :: s) = replaceFrom search replace k s := rfl

/-- An occurrence is replaced and the rest of it skipped. -/
theorem replaceFrom_of_startsWith (h : search <+: a :: s) :
    replaceFrom search replace 0 (a :: s) =
      replace ++ replaceFrom search replace (search.length - 1) s := if_pos h

theorem replaceFrom_of_not_startsWith (h : ¬ search <+: a :: s) :
    replaceFrom search replace 0 (a :: s) = a :: replaceFrom search replace 0 s := if_neg h

omit [DecidableEq α] in
/-- An occurrence does not reach beyond a character that is not in it. -/
theorem prefix_append_cons_iff (hc : c ∉ search) : search <+: s ++ c :: t ↔ search <+: s := by
  refine ⟨fun h => ?_, fun h => h.trans (List.prefix_append s _)⟩
  rcases Nat.lt_or_ge s.length search.length with hlt | hle
  · have hmem : s ++ [c] <+: search :=
      List.prefix_of_prefix_length_le ⟨t, by simp⟩ h (by simp; omega)
    exact absurd (hmem.mem (by simp)) hc
  · exact List.prefix_of_prefix_length_le h (List.prefix_append s _) hle

/-- So the text may be cut at such a character. -/
theorem replaceFrom_append_cons (hc : c ∉ search) (hk : k ≤ s.length) :
    replaceFrom search replace k (s ++ c :: t) =
      replaceFrom search replace k s ++ replaceFrom search replace 0 (c :: t) := by
  induction s generalizing k with
  | nil =>
    obtain rfl : k = 0 := by simpa using hk
    rfl
  | cons a s ih =>
    rw [List.cons_append]
    cases k with
    | succ k =>
      rw [replaceFrom_succ, replaceFrom_succ, ih (by simpa using hk)]
    | zero =>
      by_cases hstart : search <+: a :: s
      · have hlength : search.length - 1 ≤ s.length := by
          have := hstart.length_le
          simp at this
          omega
        rw [replaceFrom_of_startsWith hstart, List.append_assoc, ← ih hlength]
        exact replaceFrom_of_startsWith (hstart.trans (List.prefix_append (a :: s) _))
      · rw [replaceFrom_of_not_startsWith hstart, List.cons_append, ← ih (Nat.zero_le _)]
        refine replaceFrom_of_not_startsWith ?_
        rwa [← List.cons_append, prefix_append_cons_iff hc]

/-- **A character that is not in the substring keeps what is before it and behind it apart.** -/
theorem replaceAll_append_cons (hne : search ≠ []) (hc : c ∉ search) :
    replaceAll search replace (s ++ c :: t) =
      replaceAll search replace s ++ c :: replaceAll search replace t := by
  have hhead : ¬ search <+: c :: t := by
    intro h
    obtain h | ⟨u, hu, -⟩ := List.prefix_cons_iff.mp h
    · exact hne h
    · exact hc (by simp [hu])
  rw [replaceAll, replaceFrom_append_cons hc (Nat.zero_le _), replaceFrom_of_not_startsWith hhead]
  rfl

/-- A text without the substring stays as it is. -/
theorem replaceAll_of_not_occurs (h : ¬ search <:+: s) : replaceAll search replace s = s := by
  induction s with
  | nil => rfl
  | cons a s ih =>
    rw [List.infix_cons_iff, not_or] at h
    rw [replaceAll, replaceFrom_of_not_startsWith h.1]
    exact congrArg _ (ih h.2)

/-- What is not in the substring stays. -/
theorem mem_replaceFrom (hne : search ≠ []) (hc : c ∉ search) (h : c ∈ s.drop k) :
    c ∈ replaceFrom search replace k s := by
  induction s generalizing k with
  | nil => simp at h
  | cons a s ih =>
    cases k with
    | succ k => exact ih h
    | zero =>
      by_cases hstart : search <+: a :: s
      · rw [replaceFrom_of_startsWith hstart]
        refine List.mem_append_right _ (ih ?_)
        obtain ⟨u, hu⟩ := hstart
        cases search with
        | nil => exact absurd rfl hne
        | cons b search =>
          obtain ⟨rfl, rfl⟩ := List.cons.inj hu
          have hu : c ∈ u := by
            have h : c ∈ b :: (search ++ u) := h
            simp only [List.mem_cons, List.mem_append, not_or] at h hc
            exact (h.resolve_left hc.1).resolve_left hc.2
          simpa using hu
      · rw [replaceFrom_of_not_startsWith hstart]
        rcases List.mem_cons.mp h with rfl | h
        · exact List.mem_cons_self
        · exact List.mem_cons_of_mem a (ih h)

/-- And such a character stays. -/
theorem mem_replaceAll (hne : search ≠ []) (hc : c ∉ search) (h : c ∈ s) :
    c ∈ replaceAll search replace s :=
  mem_replaceFrom hne hc h

section Separated

variable (hp : a ∉ p)

include hp

theorem prefix_of_prefix_replaceFrom (h : p <+: replaceFrom search [a] 0 s) : p <+: s := by
  induction p generalizing s with
  | nil => exact List.nil_prefix
  | cons b p ih =>
    cases s with
    | nil => simp at h
    | cons c s =>
      by_cases hstart : search <+: c :: s
      · rw [replaceFrom_of_startsWith hstart] at h
        exact absurd (List.cons_prefix_cons.mp h).1.symm (List.ne_of_not_mem_cons hp)
      · rw [replaceFrom_of_not_startsWith hstart, List.cons_prefix_cons] at h
        rw [List.cons_prefix_cons]
        exact ⟨h.1, ih (List.not_mem_of_not_mem_cons hp) h.2⟩

/-- **Replacing by a separator makes no new occurrence of a text without it.** -/
theorem infix_of_infix_replaceFrom (hne : p ≠ []) (h : p <:+: replaceFrom search [a] k s) :
    p <:+: s := by
  induction s generalizing k with
  | nil => simpa using h
  | cons c s ih =>
    rw [List.infix_cons_iff]
    cases k with
    | succ k => exact .inr (ih h)
    | zero =>
      by_cases hstart : search <+: c :: s
      · rw [replaceFrom_of_startsWith hstart, List.singleton_append, List.infix_cons_iff] at h
        rcases h with h | h
        · obtain h | ⟨u, rfl, -⟩ := List.prefix_cons_iff.mp h
          · exact absurd h hne
          · simp at hp
        · exact .inr (ih h)
      · rw [replaceFrom_of_not_startsWith hstart, List.infix_cons_iff,
          ← replaceFrom_of_not_startsWith hstart] at h
        rcases h with h | h
        · exact .inl (prefix_of_prefix_replaceFrom hp h)
        · exact .inr (ih h)

end Separated

/-- **No occurrence is left.** -/
theorem not_infix_replaceFrom (ha : a ∉ p) (hne : p ≠ []) : ¬ p <:+: replaceFrom p [a] k s := by
  induction s generalizing k with
  | nil => simpa using hne
  | cons c s ih =>
    cases k with
    | succ k => exact ih
    | zero =>
      by_cases hstart : p <+: c :: s
      · rw [replaceFrom_of_startsWith hstart, List.singleton_append, List.infix_cons_iff]
        rintro (h | h)
        · obtain h | ⟨u, rfl, -⟩ := List.prefix_cons_iff.mp h
          · exact hne h
          · simp at ha
        · exact ih h
      · rw [replaceFrom_of_not_startsWith hstart, List.infix_cons_iff,
          ← replaceFrom_of_not_startsWith hstart]
        rintro (h | h)
        · exact hstart (prefix_of_prefix_replaceFrom ha h)
        · exact ih h

/-! ## Several substrings -/

/-- Replace one substring after another. -/
def replaceEach (searches : List (List α)) (replace s : List α) : List α :=
  searches.foldl (fun s search => replaceAll search replace s) s

section Each

variable {searches : List (List α)}

@[simp] theorem replaceEach_nil : replaceEach searches replace ([] : List α) = [] := by
  induction searches with
  | nil => rfl
  | cons search searches ih => exact ih

/-- The same for several texts that are replaced one after the other. -/
theorem replaceEach_append_cons (h : ∀ search ∈ searches, search ≠ [] ∧ c ∉ search) :
    replaceEach searches replace (s ++ c :: t) =
      replaceEach searches replace s ++ c :: replaceEach searches replace t := by
  induction searches generalizing s t with
  | nil => rfl
  | cons search searches ih =>
    obtain ⟨⟨hne, hc⟩, hrest⟩ := List.forall_mem_cons.mp h
    show replaceEach searches replace (replaceAll search replace (s ++ c :: t)) = _
    rw [replaceAll_append_cons hne hc, ih hrest]
    rfl

/-- Where none occurs nothing happens. -/
theorem replaceEach_of_not_occurs (h : ∀ search ∈ searches, ¬ search <:+: s) :
    replaceEach searches replace s = s := by
  induction searches with
  | nil => rfl
  | cons search searches ih =>
    obtain ⟨hsearch, hrest⟩ := List.forall_mem_cons.mp h
    show replaceEach searches replace (replaceAll search replace s) = s
    rw [replaceAll_of_not_occurs hsearch, ih hrest]

theorem mem_replaceEach (h : ∀ search ∈ searches, search ≠ [] ∧ c ∉ search) (hc : c ∈ s) :
    c ∈ replaceEach searches replace s := by
  induction searches generalizing s with
  | nil => exact hc
  | cons search searches ih =>
    obtain ⟨⟨hne, hsearch⟩, hrest⟩ := List.forall_mem_cons.mp h
    exact ih hrest (mem_replaceAll hne hsearch hc)

/-- A part without the replacement was there before. -/
theorem infix_of_infix_replaceEach (ha : a ∉ p) (hne : p ≠ [])
    (h : p <:+: replaceEach searches [a] s) : p <:+: s := by
  induction searches generalizing s with
  | nil => exact h
  | cons search searches ih => exact infix_of_infix_replaceFrom ha hne (ih h)

/-- **None of the substrings is left.** -/
theorem not_infix_replaceEach (h : ∀ search ∈ searches, search ≠ [] ∧ a ∉ search)
    (hp : p ∈ searches) : ¬ p <:+: replaceEach searches [a] s := by
  induction searches generalizing s with
  | nil => simp at hp
  | cons search searches ih =>
    obtain ⟨⟨hne, ha⟩, hrest⟩ := List.forall_mem_cons.mp h
    rcases List.mem_cons.mp hp with rfl | hp
    · exact fun hoccurs => not_infix_replaceFrom ha hne (infix_of_infix_replaceEach ha hne hoccurs)
    · exact ih hrest hp

end Each

/-! ## Substrings of one element -/

/-- Replace every occurrence of one element. -/
def replaceChar (a : α) (replace s : List α) : List α :=
  s.flatMap fun c => if c = a then replace else [c]

theorem replaceChar_append (a : α) (replace s t : List α) :
    replaceChar a replace (s ++ t) = replaceChar a replace s ++ replaceChar a replace t :=
  List.flatMap_append ..

theorem replaceChar_of_ne (h : c ≠ a) (replace : List α) : replaceChar a replace [c] = [c] := by
  simp [replaceChar, h]

/-- A substring of one element is that element. -/
theorem replaceAll_singleton : replaceAll [a] replace s = replaceChar a replace s := by
  induction s with
  | nil => rfl
  | cons c s ih =>
    rw [replaceAll, replaceChar, List.flatMap_cons, ← replaceChar, ← ih]
    by_cases hc : c = a
    · subst hc
      rw [replaceFrom_of_startsWith ⟨s, rfl⟩, if_pos rfl]
      rfl
    · have hstart : ¬ [a] <+: c :: s := by
        rw [List.cons_prefix_cons]
        exact fun h => hc h.1.symm
      rw [replaceFrom_of_not_startsWith hstart, if_neg hc]
      rfl

theorem replaceEach_singletons {l : List α} {b : α} (hb : b ∉ l) :
    replaceEach (l.map fun a => [a]) [b] s = s.map fun c => if c ∈ l then b else c := by
  induction l generalizing s with
  | nil => simp [replaceEach]
  | cons a l ih =>
    rw [List.mem_cons, not_or] at hb
    show replaceEach (l.map fun a => [a]) [b] (replaceAll [a] [b] s) = _
    have hone : replaceChar a [b] s = s.map fun c => if c = a then b else c := by
      rw [replaceChar, List.map_eq_flatMap]
      exact congrArg (s.flatMap ·) (funext fun c => (apply_ite ([·]) (c = a) b c).symm)
    rw [replaceAll_singleton, hone, ih hb.2, List.map_map]
    refine List.map_congr_left fun c _ => ?_
    grind

end Replace

/-! ## Words -/

/-- The words of a text, the first of which has begun with `word`. -/
def wordsFrom (sep : α → Bool) (word : List α) : List α → List (List α)
  | [] => if word = [] then [] else [word]
  | c :: s =>
    if sep c then if word = [] then wordsFrom sep [] s else word :: wordsFrom sep [] s
    else wordsFrom sep (word ++ [c]) s

/-- The longest parts without a separator that are not empty. -/
def words (sep : α → Bool) (s : List α) : List (List α) := wordsFrom sep [] s

section Words

variable {sep : α → Bool} {s t word w : List α} {c : α}

/-- A separator ends a word. -/
theorem wordsFrom_append_cons (hc : sep c = true) :
    wordsFrom sep word (s ++ c :: t) = wordsFrom sep word s ++ wordsFrom sep [] t := by
  induction s generalizing word with
  | nil => by_cases hword : word = [] <;> simp [wordsFrom, hc, hword]
  | cons a s ih =>
    by_cases ha : sep a = true
    · by_cases hword : word = [] <;> simp [wordsFrom, ha, hword, ih]
    · simp [wordsFrom, ha, ih]

/-- **The words before a separator and the words behind it.** -/
theorem words_append_cons (hc : sep c = true) :
    words sep (s ++ c :: t) = words sep s ++ words sep t :=
  wordsFrom_append_cons hc

theorem wordsFrom_of_forall (hs : ∀ c ∈ s, sep c = false) (hne : word ++ s ≠ []) :
    wordsFrom sep word s = [word ++ s] := by
  induction s generalizing word with
  | nil =>
    rw [List.append_nil] at hne
    simp [wordsFrom, hne]
  | cons a s ih =>
    obtain ⟨ha, hs⟩ := List.forall_mem_cons.mp hs
    simp [wordsFrom, ha, ih hs]

/-- Without a separator there is one word. -/
theorem words_of_forall (hs : ∀ c ∈ s, sep c = false) (hne : s ≠ []) : words sep s = [s] :=
  wordsFrom_of_forall hs hne

theorem infix_of_mem_wordsFrom (hw : w ∈ wordsFrom sep word s) : w <:+: word ++ s := by
  induction s generalizing word with
  | nil =>
    rw [List.append_nil]
    by_cases hword : word = []
    · simp [wordsFrom, hword] at hw
    · obtain rfl : w = word := by simpa [wordsFrom, hword] using hw
      exact List.infix_rfl
  | cons a s ih =>
    have htail : w ∈ wordsFrom sep [] s → w <:+: word ++ a :: s := fun h =>
      (ih h).trans ((List.suffix_cons a s).isInfix.trans (List.suffix_append word _).isInfix)
    by_cases ha : sep a = true
    · by_cases hword : word = []
      · exact htail (by simpa [wordsFrom, ha, hword] using hw)
      · rcases (by simpa [wordsFrom, ha, hword] using hw : w = word ∨ w ∈ wordsFrom sep [] s)
          with rfl | h
        · exact (List.prefix_append w _).isInfix
        · exact htail h
    · have := ih (by simpa [wordsFrom, ha] using hw)
      simpa using this

/-- A word is a part of the text. -/
theorem infix_of_mem_words (hw : w ∈ words sep s) : w <:+: s := infix_of_mem_wordsFrom hw

theorem exists_mem_wordsFrom (hc : sep c = false) (h : c ∈ word ∨ c ∈ s) :
    ∃ w ∈ wordsFrom sep word s, c ∈ w := by
  induction s generalizing word with
  | nil =>
    have hword : c ∈ word := by simpa using h
    exact ⟨word, by simp [wordsFrom, List.ne_nil_of_mem hword], hword⟩
  | cons a s ih =>
    by_cases ha : sep a = true
    · have hca : c ≠ a := by
        rintro rfl
        simp [ha] at hc
      rw [List.mem_cons, or_iff_right hca] at h
      by_cases hword : word = []
      · obtain ⟨w, hw, hcw⟩ := @ih [] (.inr (by simpa [hword] using h))
        exact ⟨w, by simpa [wordsFrom, ha, hword] using hw, hcw⟩
      · rcases h with h | h
        · exact ⟨word, by simp [wordsFrom, ha, hword], h⟩
        · obtain ⟨w, hw, hcw⟩ := @ih [] (.inr h)
          exact ⟨w, by simpa [wordsFrom, ha, hword] using .inr hw, hcw⟩
    · obtain ⟨w, hw, hcw⟩ := @ih (word ++ [a]) (by simpa [or_assoc] using h)
      exact ⟨w, by simpa [wordsFrom, ha] using hw, hcw⟩

/-- Every other character is in a word. -/
theorem exists_mem_words (hc : sep c = false) (h : c ∈ s) : ∃ w ∈ words sep s, c ∈ w :=
  exists_mem_wordsFrom hc (.inr h)

end Words

/-! ## What has been seen -/

/-- Keep the first of equal elements, and none that is among the seen ones. -/
def eraseSeen [DecidableEq α] (seen : List α) : List α → List α
  | [] => []
  | a :: l => if a ∈ seen then eraseSeen seen l else a :: eraseSeen (a :: seen) l

section Seen

variable [DecidableEq α] {seen l : List α} {a : α}

theorem mem_eraseSeen_iff : a ∈ eraseSeen seen l ↔ a ∈ l ∧ a ∉ seen := by
  induction l generalizing seen with
  | nil => simp [eraseSeen]
  | cons b l ih =>
    by_cases hb : b ∈ seen
    · simp only [eraseSeen, hb, if_true, ih, List.mem_cons]
      grind
    · simp only [eraseSeen, hb, if_false, ih, List.mem_cons]
      grind

theorem nodup_eraseSeen : (eraseSeen seen l).Nodup := by
  induction l generalizing seen with
  | nil => simp [eraseSeen]
  | cons b l ih =>
    rw [eraseSeen]
    split
    · exact ih
    · exact List.nodup_cons.mpr ⟨fun h => by simp [mem_eraseSeen_iff] at h, ih⟩

/-- The first element that is kept. -/
theorem eraseSeen_eq_cons_iff {m : List α} :
    eraseSeen seen l = a :: m ↔
      l.find? (· ∉ seen) = some a ∧ eraseSeen (a :: seen) l = m := by
  induction l with
  | nil => simp [eraseSeen]
  | cons b l ih =>
    by_cases hb : b ∈ seen
    · simp [eraseSeen, hb, ih]
    · simp [eraseSeen, hb]
      grind

end Seen

end Sem.Lib
