import Sem.Lib.XPathRegex

/-!
# The syntax of regular expressions in XPath

The syntax of XML Schema with anchors, groups, back-references and reluctant quantifiers, as
`fn:matches` reads it. A text that is no regular expression has no result.

* `Syntax.Keeps.matches_map`: what an expression does not tell apart, told from the text of it.
* `Syntax.keeps_swapBrackets`, `Syntax.keeps_of_notMem`: where only some characters are escaped,
  these are the brackets, and without brackets all characters that would have to be escaped.
* `Syntax.matches_literal`: an expression of ordinary and escaped characters between anchors matches
  the text of these characters.
-/

namespace Sem.XPath

open Xml (Text)

/-- What is known of characters: their mappings to lower and upper case, and the classes that are
named after a backslash (`\d`, `\p{Lu}` and so on), with what is left after the name. -/
structure CharTable where
  lower : Char → Text
  upper : Char → Text
  named : Text → Option ((Char → Bool) × Text)

namespace CharTable

variable (u : CharTable)

/-- One character for another, where the flag `i` is set a case-variant of it. -/
def same (ci : Bool) (c d : Char) : Bool :=
  c = d || ci && (u.lower c = u.lower d || u.upper c = u.upper d)

/-- A character, or with the flag `i` a case-variant, between two others. -/
def between (ci : Bool) (lo hi d : Char) : Bool :=
  lo ≤ d && d ≤ hi || ci && (List.range (hi.toNat + 1)).any fun e =>
    lo.toNat ≤ e && (Char.ofNat e).toNat = e && u.same ci (Char.ofNat e) d

end CharTable

namespace Syntax

/-- The characters with a meaning of their own outside classes. -/
def metacharacters : Text := ".\\?*+\x7b\x7d()[]|^$".toList

/-- The character that is escaped by a backslash before this one. -/
def singleEscape (c : Char) : Option Char :=
  if c = 'n' then some '\n'
  else if c = 'r' then some '\r'
  else if c = 't' then some '\t'
  else if c ∈ '-' :: metacharacters then some c
  else none

/-- The number that the text begins with, behind the digits of `n`. -/
def number (n : ℕ) : Text → ℕ × Text
  | c :: s => if c.isDigit then number (10 * n + (c.toNat - '0'.toNat)) s else (n, c :: s)
  | [] => (n, [])

/-- How often the part before it is matched, and what is left after the quantifier. -/
def quantity : Text → Option ((ℕ × Option ℕ) × Text)
  | [] => none
  | c :: s =>
    if c.isDigit then
      match number 0 (c :: s) with
      | (n, '\x7d' :: s) => some ((n, some n), s)
      | (n, ',' :: '\x7d' :: s) => some ((n, none), s)
      | (n, ',' :: d :: s) =>
        if d.isDigit then
          match number 0 (d :: s) with
          | (m, '\x7d' :: s) => if n ≤ m then some ((n, some m), s) else none
          | _ => none
        else none
      | _ => none
    else none

/-- Reluctant quantifiers match the same texts. -/
def reluctant : Text → Text
  | '?' :: s => s
  | s => s

/-- How often a piece may come, and what follows. -/
def quantifier : Text → Option ((ℕ × Option ℕ) × Text)
  | '?' :: s => some ((0, some 1), reluctant s)
  | '*' :: s => some ((0, none), reluctant s)
  | '+' :: s => some ((1, none), reluctant s)
  | '\x7b' :: s => (quantity s).map fun q => (q.1, reluctant q.2)
  | s => some ((1, some 1), s)

/-! ## Classes in brackets -/

section Classes

variable (u : CharTable) (ci : Bool)

/-- One character of a class. -/
def singleChar : Text → Option (Char × Text)
  | '\\' :: c :: s => (singleEscape c).map (·, s)
  | c :: s => if c = '[' ∨ c = ']' ∨ c = '\\' then none else some (c, s)
  | [] => none

/-- A hyphen between two characters is a range, and not at an end of the class. A hyphen that is not
escaped is neither end of a range. -/
def charRange (hyphen : Bool) (lo : Char) : Text → Option ((Char → Bool) × Text)
  | '-' :: c :: s =>
    if c = '[' ∨ c = ']' then some (u.same ci lo, '-' :: c :: s)
    else
      match singleChar (c :: s) with
      | some (hi, s) =>
        if lo ≤ hi ∧ hyphen = false ∧ c ≠ '-' then some (u.between ci lo hi, s) else none
      | none => none
  | s => some (u.same ci lo, s)

/-- A character, a range or a class in brackets. -/
def groupPart (s : Text) : Option ((Char → Bool) × Text) :=
  match singleChar s with
  | some (c, t) => charRange u ci (s.head? = some '-') c t
  | none =>
    match s with
    | '\\' :: s => u.named s
    | _ => none

/-- The parts of a class, up to its end or to what is subtracted. -/
def groupParts : ℕ → (Char → Bool) → Text → Option ((Char → Bool) × Text)
  | 0, _, _ => none
  | n + 1, p, s =>
    match groupPart u ci s with
    | none => none
    | some (q, s) =>
      match s with
      | ']' :: s => some (fun c => p c || q c, ']' :: s)
      | '-' :: '[' :: s => some (fun c => p c || q c, '-' :: '[' :: s)
      | s => groupParts n (fun c => p c || q c) s

/-- Whether a class in brackets is negated. -/
def negation : Text → Bool × Text
  | '^' :: s => (true, s)
  | s => (false, s)

/-- The class whose bracket has been read. -/
def classExpr : ℕ → Text → Option ((Char → Bool) × Text)
  | 0, _ => none
  | n + 1, s =>
    match groupParts u ci n (fun _ => false) (negation s).2 with
    | some (p, ']' :: t) => some (fun c => p c != (negation s).1, t)
    | some (p, '-' :: '[' :: t) =>
      match classExpr n t with
      | some (q, ']' :: t) => some (fun c => (p c != (negation s).1) && !q c, t)
      | _ => none
    | _ => none

end Classes

/-! ## Expressions -/

/-- How many groups have been opened, and which of them have been closed. -/
structure Groups where
  opened : ℕ
  closed : List ℕ

/-- The number of a back-reference has more digits only where there are as many groups. -/
def backNumber (opened n : ℕ) : Text → ℕ × Text
  | c :: s =>
    if c.isDigit ∧ 10 * n + (c.toNat - '0'.toNat) ≤ opened then
      backNumber opened (10 * n + (c.toNat - '0'.toNat)) s
    else (n, c :: s)
  | [] => (n, [])

section Parser

variable (u : CharTable) (ci : Bool)

/-- One character, or a case-variant of it. -/
def literal (c : Char) : Regex := .one (u.same ci c)

/-- What follows a backslash. -/
def escape (g : Groups) : Text → Option (Regex × Text)
  | [] => none
  | c :: s =>
    match singleEscape c with
    | some c => some (literal u ci c, s)
    | none =>
      if c.isDigit ∧ c ≠ '0' then
        let (n, s) := backNumber g.opened (c.toNat - '0'.toNat) s
        if n ∈ g.closed then some (.back n (u.same ci), s) else none
      else (u.named (c :: s)).map fun (p, s) => (.one p, s)

/-- What an opening parenthesis begins: a group with a number, unless `?:` follows. -/
def opening (g : Groups) : Text → Option ℕ × Groups × Text
  | '?' :: ':' :: s => (none, g, s)
  | s => (some (g.opened + 1), { g with opened := g.opened + 1 }, s)

/-- A group is closed; only from there on it can be referred to. -/
def closing (k : Option ℕ) (r : Regex) (g : Groups) : Regex × Groups :=
  match k with
  | none => (r, g)
  | some k => (.group k r, { g with closed := k :: g.closed })

mutual

/-- Branches up to the end or a closing parenthesis; the number bounds the depth. -/
def regExp : ℕ → Groups → Text → Option (Regex × Groups × Text)
  | 0, _, _ => none
  | n + 1, g, s =>
    match branch n g s with
    | some (r, g, '|' :: s) =>
      match regExp n g s with
      | some (r', g, s) => some (.alt r r', g, s)
      | none => none
    | result => result

/-- Pieces up to the end of a branch. -/
def branch : ℕ → Groups → Text → Option (Regex × Groups × Text)
  | 0, _, _ => none
  | _ + 1, g, [] => some (.empty, g, [])
  | n + 1, g, c :: s =>
    if c = '|' ∨ c = ')' then some (.empty, g, c :: s)
    else
      match atom n g c s with
      | none => none
      | some (r, g, s) =>
        match quantifier s with
        | none => none
        | some ((least, most), s) =>
          match branch n g s with
          | some (r', g, s) => some (.seq (.times r least most) r', g, s)
          | none => none

/-- The atom that begins with `c`. -/
def atom : ℕ → Groups → Char → Text → Option (Regex × Groups × Text)
  | 0, _, _, _ => none
  | n + 1, g, c, s =>
    if c = '(' then
      match regExp n (opening g s).2.1 (opening g s).2.2 with
      | some (r, g', ')' :: t) =>
        some ((closing (opening g s).1 r g').1, (closing (opening g s).1 r g').2, t)
      | _ => none
    else if c = '[' then (classExpr u ci n s).map fun (p, s) => (.one p, g, s)
    else if c = '\\' then (escape u ci g s).map fun (r, s) => (r, g, s)
    else if c = '^' then some (.bol, g, s)
    else if c = '$' then some (.eol, g, s)
    else if c = '.' then some (.one fun c => c ≠ '\n' ∧ c ≠ '\r', g, s)
    else if c ∈ metacharacters then none
    else some (literal u ci c, g, s)

end

/-- A regular expression is read to its end. Three calls read at least one character. -/
def compile (pattern : Text) : Option Regex :=
  match regExp u ci (3 * pattern.length + 3) ⟨0, []⟩ pattern with
  | some (r, _, []) => some r
  | _ => none

/-- `fn:matches`, with the flag `i` or without flags. -/
def «matches» (input pattern : Text) : Option Bool :=
  (compile u ci pattern).map (·.found input)

end Parser

/-! ## What a parser keeps -/

/-- `t` is what is left of `s` behind characters that are no backslashes. -/
def Behind (s t : Text) : Prop := ∃ w, s = w ++ t ∧ '\\' ∉ w

theorem Behind.refl (s : Text) : Behind s s := ⟨[], rfl, List.not_mem_nil⟩

theorem Behind.cons {s t : Text} (h : Behind s t) {c : Char} (hc : c ≠ '\\') :
    Behind (c :: s) t := by
  obtain ⟨w, rfl, hw⟩ := h
  exact ⟨c :: w, rfl, by simp [hw, hc.symm]⟩

theorem Behind.trans {s t v : Text} (h : Behind s t) (h' : Behind t v) : Behind s v := by
  obtain ⟨w, rfl, hw⟩ := h
  obtain ⟨w', rfl, hw'⟩ := h'
  exact ⟨w ++ w', by simp, by simp [hw, hw']⟩

/-- A character that is no backslash may be taken off. -/
theorem Behind.tail {s t : Text} {c : Char} (h : Behind s (c :: t)) (hc : c ≠ '\\') :
    Behind s t :=
  h.trans ((Behind.refl t).cons hc)

theorem behind_number (n : ℕ) (s : Text) : Behind s (number n s).2 := by
  induction s generalizing n with
  | nil => exact .refl []
  | cons c s ih =>
    rw [number]
    split
    · rename_i hc
      refine (ih _).cons ?_
      rintro rfl
      exact absurd hc (by decide)
    · exact .refl _

theorem behind_reluctant (s : Text) : Behind s (reluctant s) := by
  unfold reluctant
  split
  · exact (Behind.refl _).cons (by decide)
  · exact .refl _

theorem behind_quantity {s t : Text} {q : ℕ × Option ℕ} (h : quantity s = some (q, t)) :
    Behind s t := by
  unfold quantity at h
  split at h
  · cases h
  · rename_i c s
    split at h
    · have hn := behind_number 0 (c :: s)
      split at h
      · rename_i heq
        rw [heq] at hn
        cases h
        exact hn.tail (by decide)
      · rename_i heq
        rw [heq] at hn
        cases h
        exact (hn.tail (by decide)).tail (by decide)
      · rename_i d s' _ heq
        rw [heq] at hn
        split at h
        · have hm := behind_number 0 (d :: s')
          split at h
          · rename_i heq'
            rw [heq'] at hm
            split at h
            · cases h
              exact ((hn.tail (by decide)).trans hm).tail (by decide)
            · cases h
          · cases h
        · cases h
      · cases h
    · cases h

/-- A quantifier takes no backslash. -/
theorem behind_quantifier {s t : Text} {q : ℕ × Option ℕ} (h : quantifier s = some (q, t)) :
    Behind s t := by
  unfold quantifier at h
  split at h
  · cases h
    exact (behind_reluctant _).cons (by decide)
  · cases h
    exact (behind_reluctant _).cons (by decide)
  · cases h
    exact (behind_reluctant _).cons (by decide)
  · obtain ⟨⟨q', t'⟩, hq, heq⟩ := Option.map_eq_some_iff.mp h
    cases heq
    exact ((behind_quantity hq).trans (behind_reluctant _)).cons (by decide)
  · cases h
    exact .refl _

/-- Texts `I` that a parser does not leave, and characters that `f` exchanges for one another, none
of which is read as itself in them. -/
structure Keeps (u : CharTable) (f : Char → Char) (I : Text → Prop) : Prop where
  involutive : ∀ c, f (f c) = c
  ordinary : ∀ c, c ∉ metacharacters → f c = c
  tail : ∀ c s, I (c :: s) → c ≠ '\\' → I s
  escaped : ∀ s, I ('\\' :: s) →
    ∃ c t, s = c :: t ∧ singleEscape c = some c ∧ f c = c ∧ I t
  classes : ∀ n s p t, I ('[' :: s) → classExpr u false n s = some (p, t) →
    (∀ c, p (f c) = p c) ∧ I t

section Keeps

variable {u : CharTable} {f : Char → Char} {I : Text → Prop}

/-- The invariant holds of every rest before which no backslash stands. -/
theorem Keeps.behind (h : Keeps u f I) {s t : Text} (hs : I s) (hst : Behind s t) : I t := by
  obtain ⟨w, rfl, hw⟩ := hst
  induction w with
  | nil => exact hs
  | cons c w ih =>
    rw [List.mem_cons, not_or] at hw
    exact ih hw.2 (h.tail c _ hs (Ne.symm hw.1))

theorem Keeps.eq_iff (h : Keeps u f I) {c d : Char} (hc : f c = c) : c = f d ↔ c = d := by
  constructor
  · rintro rfl
    rw [h.involutive] at hc
    exact hc.symm
  · rintro rfl
    exact hc.symm

/-- A character that the map leaves alone matches alike before and after it. -/
theorem Keeps.literal (h : Keeps u f I) {c : Char} (hc : f c = c) :
    (literal u false c).Fixes f := by
  intro d
  simp [CharTable.same, h.eq_iff hc]

/-- What has been read does not tell characters from those that `f` exchanges them for. -/
def Kept (f : Char → Char) (I : Text → Prop) (result : Option (Regex × Groups × Text)) : Prop :=
  ∀ r g t, result = some (r, g, t) → r.Fixes f ∧ I t

theorem behind_opening (g : Groups) (s : Text) : Behind s (opening g s).2.2 := by
  unfold opening
  split
  · exact ((Behind.refl _).cons (by decide)).cons (by decide)
  · exact .refl _

/-- A group matches as its inside does. -/
theorem fixes_closing (k : Option ℕ) (g : Groups) {r : Regex} (hr : r.Fixes f) :
    (closing k r g).1.Fixes f := by
  cases k with
  | none => exact hr
  | some k => exact hr

/-- An atom, given the expressions inside groups. -/
theorem Keeps.atom (h : Keeps u f I) {n : ℕ}
    (hregExp : ∀ g s, I s → Kept f I (regExp u false n g s)) (g : Groups) {c : Char} {s : Text}
    (hs : I (c :: s)) : Kept f I (atom u false (n + 1) g c s) := by
  intro r g' t hatom
  rw [Syntax.atom] at hatom
  split at hatom
  · rename_i hc
    subst hc
    have hrest := h.tail _ s hs (by decide)
    split at hatom
    · rename_i heq
      cases hatom
      obtain ⟨hr, ht⟩ := hregExp _ _ (h.behind hrest (behind_opening g s)) _ _ _ heq
      exact ⟨fixes_closing _ _ hr, h.tail _ _ ht (by decide)⟩
    · cases hatom
  split at hatom
  · rename_i hc
    subst hc
    obtain ⟨⟨p, t'⟩, hclass, heq⟩ := Option.map_eq_some_iff.mp hatom
    cases heq
    exact h.classes _ _ _ _ hs hclass
  split at hatom
  · rename_i hc
    subst hc
    obtain ⟨c, t', rfl, hc, hfc, ht⟩ := h.escaped _ hs
    rw [escape, hc] at hatom
    cases hatom
    exact ⟨h.literal hfc, ht⟩
  rename_i hbackslash
  have hrest := h.tail _ s hs hbackslash
  split at hatom
  · cases hatom
    exact ⟨trivial, hrest⟩
  split at hatom
  · cases hatom
    exact ⟨trivial, hrest⟩
  split at hatom
  · cases hatom
    have hline : ∀ d ∉ metacharacters, ∀ c, f c = d ↔ c = d := by
      intro d hd c
      rw [eq_comm, h.eq_iff (h.ordinary d hd), eq_comm]
    refine ⟨fun c => ?_, hrest⟩
    simp [hline '\n' (by decide), hline '\r' (by decide)]
  split at hatom
  · cases hatom
  · rename_i hmeta
    cases hatom
    exact ⟨h.literal (h.ordinary c hmeta), hrest⟩

/-- A branch, by its atoms and the rest. -/
theorem Keeps.branch (h : Keeps u f I) {n : ℕ}
    (hatom : ∀ g c s, I (c :: s) → Kept f I (Syntax.atom u false n g c s))
    (hbranch : ∀ g s, I s → Kept f I (branch u false n g s)) (g : Groups) {s : Text} (hs : I s) :
    Kept f I (branch u false (n + 1) g s) := by
  intro r g' t hresult
  cases s with
  | nil =>
    cases hresult
    exact ⟨trivial, hs⟩
  | cons c s =>
    rw [Syntax.branch] at hresult
    split at hresult
    · cases hresult
      exact ⟨trivial, hs⟩
    · split at hresult
      · cases hresult
      · rename_i heq
        obtain ⟨hr, ht⟩ := hatom _ _ _ hs _ _ _ heq
        split at hresult
        · cases hresult
        · rename_i hquantifier
          have hrest := h.behind ht (behind_quantifier hquantifier)
          split at hresult
          · rename_i hmore
            cases hresult
            obtain ⟨hr', ht'⟩ := hbranch _ _ hrest _ _ _ hmore
            exact ⟨⟨hr, hr'⟩, ht'⟩
          · cases hresult

/-- Alternatives, by their branches. -/
theorem Keeps.regExp (h : Keeps u f I) {n : ℕ}
    (hbranch : ∀ g s, I s → Kept f I (Syntax.branch u false n g s))
    (hregExp : ∀ g s, I s → Kept f I (regExp u false n g s)) (g : Groups) {s : Text} (hs : I s) :
    Kept f I (regExp u false (n + 1) g s) := by
  intro r g' t hresult
  rw [Syntax.regExp] at hresult
  split at hresult
  · rename_i heq
    obtain ⟨hr, ht⟩ := hbranch _ _ hs _ _ _ heq
    split at hresult
    · rename_i hmore
      cases hresult
      obtain ⟨hr', ht'⟩ := hregExp _ _ (h.tail _ _ ht (by decide)) _ _ _ hmore
      exact ⟨⟨hr, hr'⟩, ht'⟩
    · cases hresult
  · exact hbranch _ _ hs _ _ _ hresult

/-- The parser keeps what its three functions keep of one another. -/
theorem Keeps.kept (h : Keeps u f I) (n : ℕ) :
    (∀ g s, I s → Kept f I (Syntax.regExp u false n g s)) ∧
      (∀ g s, I s → Kept f I (Syntax.branch u false n g s)) ∧
      ∀ g c s, I (c :: s) → Kept f I (Syntax.atom u false n g c s) := by
  induction n with
  | zero =>
    have hnone : Kept f I none := by
      rintro _ _ _ ⟨⟩
    exact ⟨fun _ _ _ => hnone, fun _ _ _ => hnone, fun _ _ _ _ => hnone⟩
  | succ n ih =>
    obtain ⟨hregExp, hbranch, hatom⟩ := ih
    exact ⟨fun g s hs => h.regExp hbranch hregExp g hs, fun g s hs => h.branch hatom hbranch g hs,
      fun g c s hs => h.atom hregExp g hs⟩

/-- The whole expression, by induction on the fuel of the parser. -/
theorem Keeps.compile (h : Keeps u f I) {s : Text} (hs : I s) {r : Regex}
    (hr : compile u false s = some r) : r.Fixes f := by
  unfold Syntax.compile at hr
  split at hr
  · rename_i heq
    cases hr
    exact ((h.kept _).1 _ _ hs _ _ _ heq).1
  · cases hr

/-- A pattern that such a parser reads matches a text if and only if it matches the text with the
characters exchanged. -/
theorem Keeps.matches_map (h : Keeps u f I) {s : Text} (hs : I s) (t : Text) :
    «matches» u false (t.map f) s = «matches» u false t s := by
  unfold «matches»
  cases hr : Syntax.compile u false s with
  | none => rfl
  | some r => exact congrArg some (Regex.found_map (h.compile hs hr) t)

end Keeps

/-! ## Texts in which only some characters are escaped -/

/-- Backslashes stand only before characters of `E`. -/
inductive Escaped (E : Text) : Text → Prop
  | nil : Escaped E []
  | cons {c : Char} {s : Text} : c ≠ '\\' → Escaped E s → Escaped E (c :: s)
  | escape {c : Char} {s : Text} : c ∈ E → Escaped E s → Escaped E ('\\' :: c :: s)

/-- A metacharacter that is escaped stands for itself. -/
theorem singleEscape_of_mem {c : Char} (h : c ∈ metacharacters) : singleEscape c = some c := by
  have hall : ∀ d ∈ metacharacters, d ≠ 'n' ∧ d ≠ 'r' ∧ d ≠ 't' := by decide
  obtain ⟨hn, hr, ht⟩ := hall c h
  rw [singleEscape, if_neg hn, if_neg hr, if_neg ht, if_pos (List.mem_cons_of_mem _ h)]

/-- `E` is part of what an escape is needed for, without brackets and backslashes. -/
def IsEscapes (E : Text) : Prop := ∀ c ∈ E, c ∈ metacharacters ∧ c ≠ '[' ∧ c ≠ ']' ∧ c ≠ '\\'

section Escaped

variable {E : Text} {u : CharTable}

theorem Escaped.tail {c : Char} {s : Text} (h : Escaped E (c :: s)) (hc : c ≠ '\\') :
    Escaped E s := by
  cases h with
  | cons _ hs => exact hs
  | escape _ _ => exact absurd rfl hc

/-- Behind a backslash stands one of the escaped characters. -/
theorem Escaped.after {s : Text} (h : Escaped E ('\\' :: s)) :
    ∃ c t, s = c :: t ∧ c ∈ E ∧ Escaped E t := by
  cases h with
  | cons hc _ => exact absurd rfl hc
  | escape hc hs => exact ⟨_, _, rfl, hc, hs⟩

/-- The class of an escaped text does not tell the two brackets apart: it has neither of them as a
character or as an end of a range. -/
def BracketsAlike (E : Text) (result : Option ((Char → Bool) × Text)) : Prop :=
  ∀ p t, result = some (p, t) → p '[' = p ']' ∧ Escaped E t

/-- A single character of a group is neither a bracket nor a backslash. -/
theorem Escaped.singleChar (hE : IsEscapes E) {s t : Text} {c : Char} (hs : Escaped E s)
    (h : singleChar s = some (c, t)) : (c ≠ '[' ∧ c ≠ ']' ∧ c ≠ '\\') ∧ Escaped E t := by
  unfold Syntax.singleChar at h
  split at h
  · obtain ⟨_, _, heq, hd, ht⟩ := hs.after
    cases heq
    rw [singleEscape_of_mem (hE _ hd).1] at h
    cases h
    exact ⟨(hE _ hd).2, ht⟩
  · split at h
    · cases h
    · rename_i hc
      cases h
      rw [not_or, not_or] at hc
      exact ⟨hc, hs.tail hc.2.2⟩
  · cases h

theorem bounds_of_ne {c : Char} (h : c ≠ '[' ∧ c ≠ ']' ∧ c ≠ '\\') :
    c.toNat < 91 ∨ 93 < c.toNat := by
  have hne : ∀ d : Char, c ≠ d → c.toNat ≠ d.toNat := fun d hd heq => hd (Char.toNat_inj.mp heq)
  have h91 : c.toNat ≠ 91 := hne '[' h.1
  have h92 : c.toNat ≠ 92 := hne '\\' h.2.2
  have h93 : c.toNat ≠ 93 := hne ']' h.2.1
  omega

/-- Between two other characters there are both brackets or none. -/
theorem between_brackets {lo hi : Char} (hlo : lo ≠ '[' ∧ lo ≠ ']' ∧ lo ≠ '\\')
    (hhi : hi ≠ '[' ∧ hi ≠ ']' ∧ hi ≠ '\\') :
    u.between false lo hi '[' = u.between false lo hi ']' := by
  have hle : ∀ c d : Char, c ≤ d ↔ c.toNat ≤ d.toNat := fun c d => UInt32.le_iff_toNat_le
  have hl := bounds_of_ne hlo
  have hh := bounds_of_ne hhi
  have hopen : '['.toNat = 91 := rfl
  have hclose : ']'.toNat = 93 := rfl
  rw [Bool.eq_iff_iff]
  simp only [CharTable.between, Bool.false_and, Bool.or_false, Bool.and_eq_true,
    decide_eq_true_eq, hle, hopen, hclose]
  omega

/-- A range whose ends are no brackets has both brackets or none. -/
theorem Escaped.charRange (hE : IsEscapes E) {hyphen : Bool} {lo : Char} {s : Text}
    (hlo : lo ≠ '[' ∧ lo ≠ ']' ∧ lo ≠ '\\') (hs : Escaped E s) :
    BracketsAlike E (charRange u false hyphen lo s) := by
  have hone : u.same false lo '[' = u.same false lo ']' := by simp [CharTable.same, hlo]
  intro p t h
  unfold Syntax.charRange at h
  split at h
  · split at h
    · cases h
      exact ⟨hone, hs⟩
    · split at h
      · rename_i hsingle
        split at h
        · cases h
          obtain ⟨hhi, ht⟩ := (hs.tail (by decide)).singleChar hE hsingle
          exact ⟨between_brackets hlo hhi, ht⟩
        · cases h
      · cases h
  · cases h
    exact ⟨hone, hs⟩

theorem Escaped.groupPart (hE : IsEscapes E) {s : Text} (hs : Escaped E s) :
    BracketsAlike E (groupPart u false s) := by
  intro p t h
  unfold Syntax.groupPart at h
  split at h
  · rename_i heq
    obtain ⟨hc, ht⟩ := hs.singleChar hE heq
    exact ht.charRange hE hc p t h
  · rename_i hnone
    split at h
    · -- What is escaped is a single character.
      obtain ⟨c, t', rfl, hc, ht⟩ := hs.after
      rw [Syntax.singleChar, singleEscape_of_mem (hE c hc).1] at hnone
      cases hnone
    · cases h

/-- So have the parts of a group together. -/
theorem Escaped.groupParts (hE : IsEscapes E) {n : ℕ} {p : Char → Bool} {s : Text}
    (hp : p '[' = p ']') (hs : Escaped E s) : BracketsAlike E (groupParts u false n p s) := by
  induction n generalizing p s with
  | zero => rintro _ _ ⟨⟩
  | succ n ih =>
    intro p' t h
    rw [Syntax.groupParts] at h
    split at h
    · cases h
    · rename_i q s' heq
      obtain ⟨hq, hs'⟩ := hs.groupPart hE _ _ heq
      have hboth : (p '[' || q '[') = (p ']' || q ']') := by rw [hp, hq]
      split at h
      · cases h
        exact ⟨hboth, hs'⟩
      · cases h
        exact ⟨hboth, hs'⟩
      · exact ih hboth hs' p' t h

theorem Escaped.negation {s : Text} (hs : Escaped E s) : Escaped E (negation s).2 := by
  unfold Syntax.negation
  split
  · exact hs.tail (by decide)
  · exact hs

/-- And the group with its negation and subtraction. -/
theorem Escaped.classExpr (hE : IsEscapes E) {n : ℕ} {s : Text} (hs : Escaped E s) :
    BracketsAlike E (classExpr u false n s) := by
  induction n generalizing s with
  | zero => rintro _ _ ⟨⟩
  | succ n ih =>
    intro p t h
    rw [Syntax.classExpr] at h
    have hparts := hs.negation.groupParts (u := u) (n := n) hE (p := fun _ => false) rfl
    split at h
    · rename_i heq
      cases h
      obtain ⟨hp, ht⟩ := hparts _ _ heq
      exact ⟨by simp only [hp], ht.tail (by decide)⟩
    · rename_i heq
      obtain ⟨hp, ht⟩ := hparts _ _ heq
      have hin := (ht.tail (by decide)).tail (by decide)
      split at h
      · rename_i heq'
        cases h
        obtain ⟨hq, ht'⟩ := ih hin _ _ heq'
        exact ⟨by simp only [hp, hq], ht'.tail (by decide)⟩
      · cases h
    · cases h

/-! ## Characters that escaped texts do not tell apart -/

/-- The two brackets for one another. -/
def swapBrackets (c : Char) : Char := if c = '[' then ']' else if c = ']' then '[' else c

/-- Exchanging the brackets changes no match of an expression whose brackets are not escaped. -/
theorem keeps_swapBrackets (hE : IsEscapes E) : Keeps u swapBrackets (Escaped E) where
  involutive c := by
    unfold swapBrackets
    split <;> grind
  ordinary c hc := by
    have hopen : c ≠ '[' := by rintro rfl; exact hc (by decide)
    have hclose : c ≠ ']' := by rintro rfl; exact hc (by decide)
    rw [swapBrackets, if_neg hopen, if_neg hclose]
  tail _ _ hs hc := hs.tail hc
  escaped s hs := by
    obtain ⟨c, t, rfl, hc, ht⟩ := hs.after
    obtain ⟨hmeta, hopen, hclose, -⟩ := hE c hc
    exact ⟨c, t, rfl, singleEscape_of_mem hmeta,
      by rw [swapBrackets, if_neg hopen, if_neg hclose], ht⟩
  classes n s p t hs h := by
    obtain ⟨hp, ht⟩ := (hs.tail (by decide)).classExpr hE p t h
    refine ⟨fun c => ?_, ht⟩
    unfold swapBrackets
    split
    · simp_all
    · split <;> simp_all

/-- Without classes, nothing tells apart characters with a meaning of their own that are not
escaped. -/
theorem keeps_of_notMem (hE : IsEscapes E) {f : Char → Char} (hinv : ∀ c, f (f c) = c)
    (hord : ∀ c, c ∉ metacharacters ∨ c ∈ E → f c = c) :
    Keeps u f fun s => Escaped E s ∧ '[' ∉ s where
  involutive := hinv
  ordinary c hc := hord c (.inl hc)
  tail c s hs hc := ⟨hs.1.tail hc, fun h => hs.2 (List.mem_cons_of_mem c h)⟩
  escaped s hs := by
    obtain ⟨c, t, rfl, hc, ht⟩ := hs.1.after
    have hnotMem : '[' ∉ t := fun h =>
      hs.2 (List.mem_cons_of_mem _ (List.mem_cons_of_mem c h))
    exact ⟨c, t, rfl, singleEscape_of_mem (hE c hc).1, hord c (.inr hc), ht, hnotMem⟩
  classes _ _ _ _ hs _ := absurd List.mem_cons_self hs.2

end Escaped

/-! ## Ordinary and escaped characters between anchors -/

/-- A backslash before the characters of a list. -/
def escapeChar (E : Text) (c : Char) : Text := if c ∈ E then ['\\', c] else [c]

/-- One part after the other. -/
def pieces (rs : List Regex) : Regex := rs.foldr (fun r r' => .seq (.times r 1 (some 1)) r') .empty

/-- Characters that an escape makes ordinary, where they need one. -/
def IsPlain (E s : Text) : Prop := ∀ c ∈ s, c ∈ E ∨ c ∉ metacharacters

section Plain

variable {E : Text} {u : CharTable} {ci : Bool}

/-- Escaping leaves only the escapes that it makes. -/
theorem escaped_flatMap {s t : Text} (hs : '\\' ∉ s) (ht : Escaped E t) :
    Escaped E (s.flatMap (escapeChar E) ++ t) := by
  induction s with
  | nil => exact ht
  | cons c s ih =>
    rw [List.mem_cons, not_or] at hs
    rw [List.flatMap_cons, List.append_assoc, escapeChar]
    split
    · rename_i hc
      exact .escape hc (ih hs.2)
    · exact .cons (Ne.symm hs.1) (ih hs.2)

theorem quantifier_eq {s : Text} (h : ∀ c ∈ s.head?, c ∉ "?*+\x7b".toList) :
    quantifier s = some ((1, some 1), s) := by
  unfold quantifier
  split
  all_goals first
    | rfl
    | exact absurd (h _ rfl) (by decide)

/-- What is written for an ordinary character is an atom, and no quantifier. -/
theorem head?_plain {s : Text} (hs : IsPlain E s) :
    ∀ c ∈ (s.flatMap (escapeChar E) ++ ['$']).head?, c ∉ "?*+\x7b".toList := by
  have hall : ∀ c ∈ "?*+\x7b".toList, c ∈ metacharacters := by decide
  intro c hc
  cases s with
  | nil =>
    cases hc
    decide
  | cons d s =>
    rw [List.flatMap_cons, List.append_assoc, escapeChar] at hc
    split at hc
    · cases hc
      decide
    · rename_i hd
      cases hc
      rcases hs c List.mem_cons_self with hE | hc
      · exact absurd hE hd
      · exact fun h => hc (hall c h)

/-- A branch whose first atom has no quantifier. -/
theorem branch_cons {n : ℕ} {g : Groups} {c : Char} {s t : Text} {r r' : Regex}
    (hc : c ≠ '|' ∧ c ≠ ')') (hatom : atom u ci n g c s = some (r, g, t))
    (ht : ∀ c ∈ t.head?, c ∉ "?*+\x7b".toList)
    (hbranch : branch u ci n g t = some (r', g, [])) :
    branch u ci (n + 1) g (c :: s) = some (.seq (.times r 1 (some 1)) r', g, []) := by
  rw [branch, if_neg (by simp [hc]), hatom]
  simp only [quantifier_eq ht, hbranch]

/-- An escaped metacharacter is a literal. -/
theorem atom_escape {n : ℕ} {g : Groups} {c : Char} {s : Text} (hc : c ∈ metacharacters) :
    atom u ci (n + 1) g '\\' (c :: s) = some (literal u ci c, g, s) := by
  rw [atom, if_neg (by decide), if_neg (by decide), if_pos rfl, escape, singleEscape_of_mem hc]
  rfl

/-- So is any other character. -/
theorem atom_ordinary {n : ℕ} {g : Groups} {c : Char} {s : Text} (hc : c ∉ metacharacters) :
    atom u ci (n + 1) g c s = some (literal u ci c, g, s) := by
  have hne : ∀ d ∈ metacharacters, c ≠ d := fun d hd heq => hc (heq ▸ hd)
  rw [atom, if_neg (hne _ (by decide)), if_neg (hne _ (by decide)), if_neg (hne _ (by decide)),
    if_neg (hne _ (by decide)), if_neg (hne _ (by decide)), if_neg (hne _ (by decide)),
    if_neg hc]

/-- An escaped text is read as its literals, one by one. -/
theorem branch_plain (hE : IsEscapes E) {s : Text} (hs : IsPlain E s) {n : ℕ} {g : Groups}
    (hn : s.length + 2 < n) :
    branch u ci n g (s.flatMap (escapeChar E) ++ ['$']) =
      some (pieces (s.map (literal u ci) ++ [.eol]), g, []) := by
  induction s generalizing n with
  | nil =>
    obtain ⟨n, rfl⟩ : ∃ k, n = k + 3 := ⟨n - 3, by simp at hn; omega⟩
    rfl
  | cons c s ih =>
    obtain ⟨n, rfl⟩ : ∃ k, n = k + 2 := ⟨n - 2, by omega⟩
    have hs' : IsPlain E s := fun d hd => hs d (List.mem_cons_of_mem c hd)
    have hrest := ih hs' (n := n + 1) (by rw [List.length_cons] at hn; omega)
    rw [List.flatMap_cons, List.append_assoc, escapeChar]
    split
    · rename_i hc
      exact branch_cons (by decide) (atom_escape (hE c hc).1) (head?_plain hs') hrest
    · rename_i hc
      have hc := (hs c List.mem_cons_self).resolve_left hc
      have hne : c ≠ '|' ∧ c ≠ ')' :=
        ⟨fun heq => hc (by rw [heq]; decide), fun heq => hc (by rw [heq]; decide)⟩
      exact branch_cons hne (atom_ordinary hc) (head?_plain hs') hrest

theorem length_le_flatMap (s : Text) : s.length ≤ (s.flatMap (escapeChar E)).length := by
  induction s with
  | nil => exact Nat.le_refl _
  | cons c s ih =>
    rw [List.flatMap_cons, List.length_append, List.length_cons, escapeChar]
    split <;> simp only [List.length_cons, List.length_nil] <;> omega

/-- Between anchors it compiles to the text itself. -/
theorem compile_plain (hE : IsEscapes E) {s : Text} (hs : IsPlain E s) :
    compile u ci ('^' :: (s.flatMap (escapeChar E) ++ ['$'])) =
      some (pieces (.bol :: (s.map (literal u ci) ++ [.eol]))) := by
  have hlen := length_le_flatMap (E := E) s
  unfold compile
  generalize hn : 3 * ('^' :: (s.flatMap (escapeChar E) ++ ['$'])).length + 3 = n
  obtain ⟨n, rfl⟩ : ∃ k, n = k + 3 := ⟨n - 3, by omega⟩
  rw [List.length_cons, List.length_append] at hn
  have hbranch : branch u ci (n + 1) ⟨0, []⟩ (s.flatMap (escapeChar E) ++ ['$']) =
      some (pieces (s.map (literal u ci) ++ [.eol]), ⟨0, []⟩, []) := branch_plain hE hs (by omega)
  have hatom : atom u ci (n + 1) ⟨0, []⟩ '^' (s.flatMap (escapeChar E) ++ ['$']) =
      some (.bol, ⟨0, []⟩, s.flatMap (escapeChar E) ++ ['$']) := by
    rw [atom]
    rfl
  rw [regExp, branch_cons (by decide) hatom (head?_plain hs) hbranch]
  rfl

theorem ways_once (r : Regex) (s : Cursor) : (Regex.times r 1 (some 1)).ways s = r.ways s := by
  have hcounts : ∀ len, Regex.counts 1 (some 1) len = [1] := by
    intro len
    have hmin : min (1 + len) 1 = 1 := by omega
    rw [Regex.counts, Option.elim_some, hmin]
    rfl
  rw [Regex.ways, hcounts]
  simp [Regex.iterate]

theorem ways_pieces_cons (r : Regex) (rs : List Regex) (s : Cursor) :
    (pieces (r :: rs)).ways s = (r.ways s).flatMap (pieces rs).ways := by
  rw [pieces, List.foldr_cons, Regex.ways, ways_once]
  rfl

/-- The texts are the same, character by character. -/
def sameText (u : CharTable) (ci : Bool) : Text → Text → Bool
  | [], [] => true
  | c :: s, d :: t => u.same ci c d && sameText u ci s t
  | _, _ => false

/-- Such an expression matches exactly the text, up to case if the flag says so. -/
theorem isEmpty_ways_literals (s : Text) (cur : Cursor) :
    ((pieces (s.map (literal u ci) ++ [.eol])).ways cur).isEmpty = !sameText u ci s cur.rest := by
  induction s generalizing cur with
  | nil =>
    rw [List.map_nil, List.nil_append, ways_pieces_cons]
    cases hrest : cur.rest with
    | nil => simp [Regex.ways, hrest, sameText, pieces]
    | cons c t => simp [Regex.ways, hrest, sameText]
  | cons c s ih =>
    rw [List.map_cons, List.cons_append, ways_pieces_cons]
    cases hrest : cur.rest with
    | nil => simp [literal, Regex.ways, hrest, sameText]
    | cons d t =>
      have hadvance : (cur.advance 1).rest = t := by simp [Cursor.advance, hrest]
      cases hsame : u.same ci c d with
      | true => simp [literal, Regex.ways, hrest, sameText, hsame, ih, hadvance]
      | false => simp [literal, Regex.ways, hrest, sameText, hsame]

/-- The pattern matches exactly the texts that are the same as its characters. -/
theorem matches_literal (hE : IsEscapes E) {s : Text} (hs : IsPlain E s) (t : Text) :
    «matches» u ci t ('^' :: (s.flatMap (escapeChar E) ++ ['$'])) = some (sameText u ci s t) := by
  rw [«matches», compile_plain hE hs, Option.map_some, Regex.found, Option.some_inj]
  have hways : ∀ k, ((pieces (.bol :: (s.map (literal u ci) ++ [.eol]))).ways
      ⟨k, t.drop k, []⟩).isEmpty = !(k = 0 && sameText u ci s t) := by
    intro k
    rw [ways_pieces_cons, Regex.ways]
    cases k with
    | zero => simp [isEmpty_ways_literals]
    | succ k => rfl
  simp only [hways, Bool.not_not]
  rw [Bool.eq_iff_iff, List.any_eq_true]
  constructor
  · rintro ⟨k, -, hk⟩
    rw [Bool.and_eq_true] at hk
    exact hk.2
  · intro h
    exact ⟨0, by simp, by simp [h]⟩

end Plain

end Syntax

end Sem.XPath
