import Sem.Lib.NumberTexts
import Sem.Lib.Substrings

/-!
# The variables of an expression

`Utility_Worker_Impl::EvaluateComplexity` binds its arguments to the variables of an expression
that the user writes. `ProcessVarList` finds the variables: it replaces symbols and the names of
functions by blanks, wherever they stand in the text, and takes the words that are left.

An expression is a list of tokens, of which two names or numbers do not stand side by side.

* `bare_text`: what is left of an expression without commas and points, token by token.
* `processVarList_eq_iff`: when the words that are left are the variables.
* `lookup_variableMap`: what the arguments are bound to then.
-/

namespace Sem.Workers.Complexity

open Lib
open Xml (Text)

/-! ## The worker -/

/-- The symbols that `ProcessVarList` replaces. -/
def symbols : List Char := "1234567890*/+-()^".toList

/-- The names that `ProcessVarList` replaces, in their order. -/
def functions : List Text :=
  ["abs", "acos", "asin", "atan", "atan2", "cos", "cosh", "exp", "log", "log10", "sin", "sinh",
    "sqrt", "tan", "tanh", "floor", "round", "min", "max", "sig", "log2", "epsilon", "pi",
    "infinity"].map String.toList

/-- The words that are left when symbols and functions have been replaced. -/
def bare (function : Text) : List Text :=
  words isSpace
    (replaceEach functions [' '] (replaceEach (symbols.map fun c => [c]) [' '] function))

/-- `ProcessVarList`. -/
def processVarList (function : Text) : List Text := eraseSeen [] (bare function)

/-- The map of `EvaluateComplexity`: each variable takes the next argument. -/
def variableMap {D : Type} (function : Text) (args : List D) : List (Text × D) :=
  (processVarList function).zip args

/-! ## Expressions -/

/-- The exponent of a number. -/
structure Exponent where
  letter : Char
  sign : Text
  digits : Text
  letter_eq : letter = 'e' ∨ letter = 'E'
  sign_eq : sign = [] ∨ sign = ['+'] ∨ sign = ['-']
  digits_ne : digits ≠ []
  isDigit_digits : ∀ c ∈ digits, c.isDigit = true

/-- A number has a digit before its point or behind it. -/
structure Number where
  whole : Text
  fraction : Option Text
  exponent : Option Exponent
  digits_ne : whole ≠ [] ∨ ∃ s ∈ fraction, s ≠ []
  isDigit_whole : ∀ c ∈ whole, c.isDigit = true
  isDigit_fraction : ∀ s ∈ fraction, ∀ c ∈ s, c.isDigit = true

/-- A letter and letters, digits or underscores, other than the names of the functions. -/
structure Variable where
  first : Char
  rest : Text
  isAlpha_first : first.isAlpha = true
  isWord_rest : ∀ c ∈ rest, c.isAlphanum = true ∨ c = '_'
  not_listed : first :: rest ∉ functions

/-- The tokens of expressions. -/
inductive Token
  | blank (c : Char) (h : isSpace c = true)
  | symbol (c : Char) (h : c ∈ ['*', '/', '+', '-', '(', ')', '^'])
  | comma
  | number (n : Number)
  | listed (name : Text) (h : name ∈ functions)
  | var (v : Variable)

/-- The exponent as it is written. -/
def Exponent.text (x : Exponent) : Text := x.letter :: x.sign ++ x.digits

/-- The number as it is written. -/
def Number.text (n : Number) : Text :=
  n.whole ++ (n.fraction.elim [] fun s => '.' :: s) ++ n.exponent.elim [] Exponent.text

/-- The name of a variable. -/
def Variable.name (v : Variable) : Text := v.first :: v.rest

namespace Token

/-- The token as it is written. -/
def text : Token → Text
  | blank c _ => [c]
  | symbol c _ => [c]
  | comma => [',']
  | number n => n.text
  | listed name _ => name
  | var v => v.name

/-- Names and numbers. -/
def IsWord : Token → Prop
  | number _ => True
  | listed _ _ => True
  | var _ => True
  | _ => False

/-- The name of a token that is a variable. -/
def variableName : Token → Option Text
  | var v => some v.name
  | _ => none

/-- The letter of an exponent, and the last letter of a function whose name begins with that of
another one: what is left of a token that is no variable. -/
def residue : Token → Option Text
  | number n => n.exponent.map fun x => [x.letter]
  | listed name _ =>
    if name ∈ ["cosh".toList, "sinh".toList, "tanh".toList] then some ['h'] else none
  | _ => none

/-- What is left of a token. -/
def leaves (t : Token) : List Text := t.variableName.toList ++ t.residue.toList

end Token

/-- An expression, as far as its tokens go. -/
structure Expression where
  tokens : List Token
  apart : tokens.IsChain fun t t' => ¬ (t.IsWord ∧ t'.IsWord)

/-- The text of some tokens. -/
def textOf (tokens : List Token) : Text := tokens.flatMap Token.text

/-- The variables of some tokens, as often as they stand there. -/
def variablesOf (tokens : List Token) : List Text := tokens.filterMap Token.variableName

/-- What is left of some tokens. -/
def leavesOf (tokens : List Token) : List Text := tokens.flatMap Token.leaves

namespace Expression

/-- The expression as it is written. -/
def text (e : Expression) : Text := textOf e.tokens

/-- The distinct variables in the order of their first occurrence. -/
def distinctVariables (e : Expression) : List Text := eraseSeen [] (variablesOf e.tokens)

/-- Nothing stands in the expression that is left as a part of a word or that takes a word apart. -/
structure Clean (e : Expression) : Prop where
  comma : Token.comma ∉ e.tokens
  point : ∀ n, .number n ∈ e.tokens → n.fraction = none
  digit : ∀ v, .var v ∈ e.tokens → ∀ c ∈ v.name, c.isDigit = false
  listed : ∀ v, .var v ∈ e.tokens → ∀ f ∈ functions, ¬ f <:+: v.name

/-- What is left of a token that is no variable has been seen before, or is the next variable that
is new. -/
def Foreseen (e : Expression) : Prop :=
  ∀ before t after r, e.tokens = before ++ t :: after → t.residue = some r →
    r ∈ leavesOf before ∨ (variablesOf after).find? (· ∉ leavesOf before) = some r

end Expression

/-! ## What is left of a text -/

/-- A symbol counts as a blank. -/
def blanked (c : Char) : Char := if c ∈ symbols then ' ' else c

theorem replaceEach_symbols (s : Text) :
    replaceEach (symbols.map fun c => [c]) [' '] s = s.map blanked :=
  replaceEach_singletons (by decide)

theorem isAlphanum_functions : ∀ f ∈ functions, f ≠ [] ∧ ∀ c ∈ f, c.isAlphanum = true := by
  decide

theorem notMem_functions {c : Char} (hc : c.isAlphanum = false) :
    ∀ f ∈ functions, f ≠ [] ∧ c ∉ f := by
  intro f hf
  obtain ⟨hne, halphanum⟩ := isAlphanum_functions f hf
  refine ⟨hne, fun hmem => ?_⟩
  rw [halphanum c hmem] at hc
  cases hc

/-- What keeps the words on both sides of it apart. -/
def Separates (c : Char) : Prop := isSpace (blanked c) = true

/-- A separator may be cut out. -/
theorem bare_append_cons {s t : Text} {c : Char} (hc : Separates c) :
    bare (s ++ c :: t) = bare s ++ bare t := by
  have halphanum : (blanked c).isAlphanum = false := by
    cases h : (blanked c).isAlphanum with
    | false => rfl
    | true =>
      rw [Separates, not_isSpace_of_isAlphanum h] at hc
      cases hc
  simp only [bare, replaceEach_symbols, List.map_append, List.map_cons]
  rw [replaceEach_append_cons (notMem_functions halphanum), words_append_cons hc]

theorem bare_nil : bare [] = [] := by
  simp only [bare, replaceEach_nil, words, wordsFrom, if_true]

theorem bare_cons {s : Text} {c : Char} (hc : Separates c) : bare (c :: s) = bare s := by
  simpa only [bare_nil, List.nil_append] using bare_append_cons (s := []) (t := s) hc

theorem bare_append {s t : Text} (hs : ∀ c ∈ s, Separates c) : bare (s ++ t) = bare t := by
  induction s with
  | nil => rfl
  | cons c s ih =>
    obtain ⟨hc, hs⟩ := List.forall_mem_cons.mp hs
    rw [List.cons_append, bare_cons hc, ih hs]

/-- Symbols separate, as they become blanks. -/
theorem separates_of_mem {c : Char} (hc : c ∈ symbols) : Separates c := by
  rw [Separates, blanked, if_pos hc]
  rfl

/-- So does white space. -/
theorem separates_of_isSpace {c : Char} (hc : isSpace c = true) : Separates c := by
  rw [Separates, blanked]
  split
  · rfl
  · exact hc

theorem mem_symbols : ∀ c ∈ ['*', '/', '+', '-', '(', ')', '^'], c ∈ symbols := by
  decide

theorem mem_symbols_of_isDigit {c : Char} (hc : c.isDigit = true) : c ∈ symbols := by
  have hnat := Char.isDigit_iff_toNat.mp hc
  rw [← Char.ofNat_toNat c]
  have hlo : '0'.toNat = 48 := rfl
  have hhi : '9'.toNat = 57 := rfl
  rw [hlo, hhi] at hnat
  obtain h | h | h | h | h | h | h | h | h | h : c.toNat = 48 ∨ c.toNat = 49 ∨ c.toNat = 50 ∨
      c.toNat = 51 ∨ c.toNat = 52 ∨ c.toNat = 53 ∨ c.toNat = 54 ∨ c.toNat = 55 ∨ c.toNat = 56 ∨
      c.toNat = 57 := by omega
  all_goals
    rw [h]
    decide

/-! ## What is left of a token -/

/-- `cosh`, `sinh` and `tanh` lose their beginning first. -/
theorem bare_functions : ∀ name ∈ functions, bare name =
    if name ∈ ["cosh".toList, "sinh".toList, "tanh".toList] then [['h']] else [] := by
  decide +kernel

/-- What is left of a listed name are the leaves of its token. -/
theorem bare_listed {name : Text} (h : name ∈ functions) :
    bare name = (Token.listed name h).leaves := by
  rw [bare_functions name h, Token.leaves, Token.residue]
  split <;> rfl

theorem bare_letter {c : Char} (h : c = 'e' ∨ c = 'E') : bare [c] = [[c]] := by
  rcases h with rfl | rfl <;> rfl

/-- A number without a point, and whatever stands behind it. -/
theorem bare_number (n : Number) (hpoint : n.fraction = none) (s : Text) :
    bare (n.text ++ s) = (Token.number n).leaves ++ bare s := by
  have hdigits : ∀ l : Text, (∀ c ∈ l, c.isDigit = true) → ∀ c ∈ l, Separates c :=
    fun l hl c hc => separates_of_mem (mem_symbols_of_isDigit (hl c hc))
  have hwhole : bare (n.text ++ s) = bare (n.exponent.elim [] Exponent.text ++ s) := by
    rw [Number.text, hpoint, Option.elim_none, List.append_nil, List.append_assoc]
    exact bare_append (hdigits _ n.isDigit_whole)
  rw [hwhole]
  simp only [Token.leaves, Token.variableName, Token.residue, Option.toList_none, List.nil_append]
  cases n.exponent with
  | none => simp only [Option.elim_none, Option.map_none, Option.toList_none, List.nil_append]
  | some x =>
    simp only [Option.elim_some, Option.map_some, Option.toList_some, Exponent.text,
      List.cons_append, List.nil_append, List.append_assoc]
    -- behind the letter there is a sign or a digit
    have htail : ∀ c ∈ x.sign ++ x.digits, Separates c := by
      intro c hc
      rcases List.mem_append.mp hc with hc | hc
      · refine separates_of_mem ?_
        rcases x.sign_eq with h | h | h <;> rw [h] at hc
        · cases hc
        · rw [List.mem_singleton.mp hc]
          decide
        · rw [List.mem_singleton.mp hc]
          decide
      · exact hdigits _ x.isDigit_digits c hc
    rw [← List.append_assoc]
    obtain ⟨c, l, hl⟩ := List.exists_cons_of_ne_nil (List.append_ne_nil_of_right_ne_nil x.sign
      x.digits_ne)
    rw [hl] at htail ⊢
    obtain ⟨hc, hrest⟩ := List.forall_mem_cons.mp htail
    rw [List.cons_append, ← List.singleton_append, bare_append_cons hc, bare_letter x.letter_eq,
      bare_append hrest, List.singleton_append]

/-- The characters of a variable. -/
theorem Variable.isWord_name (v : Variable) : ∀ c ∈ v.name, c.isAlphanum = true ∨ c = '_' := by
  refine List.forall_mem_cons.mpr ⟨.inl ?_, v.isWord_rest⟩
  simp [Char.isAlphanum, v.isAlpha_first]

/-- A name without digits keeps all of its letters. -/
theorem Variable.blanked_name (v : Variable) (hdigit : ∀ c ∈ v.name, c.isDigit = false) :
    v.name.map blanked = v.name := by
  have hsymbols : ∀ c ∈ symbols, c.isDigit = true ∨ ¬ (c.isAlphanum = true ∨ c = '_') := by
    decide
  refine (List.map_congr_left fun c hc => if_neg fun hmem => ?_).trans v.name.map_id
  rcases hsymbols c hmem with h | h
  · rw [hdigit c hc] at h
    cases h
  · exact h (v.isWord_name c hc)

/-- A variable without digits and names of functions in it. -/
theorem bare_variable (v : Variable) (hdigit : ∀ c ∈ v.name, c.isDigit = false)
    (hlisted : ∀ f ∈ functions, ¬ f <:+: v.name) : bare v.name = [v.name] := by
  have hspace : ∀ c ∈ v.name, isSpace c = false := by
    intro c hc
    rcases v.isWord_name c hc with h | rfl
    · exact not_isSpace_of_isAlphanum h
    · rfl
  rw [bare, replaceEach_symbols, v.blanked_name hdigit, replaceEach_of_not_occurs hlisted]
  exact words_of_forall hspace (List.cons_ne_nil _ _)

/-! ## What is left of an expression -/

/-- Behind a name stands nothing, or what keeps it apart from the rest. -/
theorem textOf_of_apart {tokens : List Token} {t : Token} (hword : t.IsWord)
    (hcomma : Token.comma ∉ tokens)
    (hapart : (t :: tokens).IsChain fun t t' => ¬ (t.IsWord ∧ t'.IsWord)) :
    textOf tokens = [] ∨ ∃ c s, Separates c ∧ textOf tokens = c :: s := by
  cases tokens with
  | nil => exact .inl rfl
  | cons t' tokens =>
    have hnot : ¬ t'.IsWord := fun h => (List.isChain_cons_cons.mp hapart).1 ⟨hword, h⟩
    refine .inr ?_
    cases t' with
    | blank c h => exact ⟨c, textOf tokens, separates_of_isSpace h, rfl⟩
    | symbol c h =>
      exact ⟨c, textOf tokens, separates_of_mem (mem_symbols c h), rfl⟩
    | comma => exact absurd List.mem_cons_self hcomma
    | number n => exact absurd trivial hnot
    | listed name h => exact absurd trivial hnot
    | var v => exact absurd trivial hnot

theorem bare_name {s t : Text} (h : t = [] ∨ ∃ c t', Separates c ∧ t = c :: t') :
    bare (s ++ t) = bare s ++ bare t := by
  rcases h with rfl | ⟨c, t, hc, rfl⟩
  · rw [bare_nil, List.append_nil, List.append_nil]
  · rw [bare_append_cons hc, bare_cons hc]

/-- **Without commas, points and names that are taken apart, the tokens are left one by one.** -/
theorem bare_text (e : Expression) (h : e.Clean) : bare e.text = leavesOf e.tokens := by
  obtain ⟨tokens, hapart⟩ := e
  obtain ⟨hcomma, hpoint, hdigit, hlisted⟩ := h
  show bare (textOf tokens) = leavesOf tokens
  induction tokens with
  | nil => exact bare_nil
  | cons t tokens ih =>
    have hrest := ih hapart.tail (fun hmem => hcomma (List.mem_cons_of_mem t hmem))
      (fun n hn => hpoint n (List.mem_cons_of_mem t hn))
      (fun v hv => hdigit v (List.mem_cons_of_mem t hv))
      (fun v hv => hlisted v (List.mem_cons_of_mem t hv))
    have hbehind : t.IsWord → textOf tokens = [] ∨ ∃ c s, Separates c ∧ textOf tokens = c :: s :=
      fun hword => textOf_of_apart hword (fun hmem => hcomma (List.mem_cons_of_mem t hmem)) hapart
    rw [textOf, leavesOf, List.flatMap_cons, List.flatMap_cons, ← textOf, ← leavesOf, ← hrest]
    cases t with
    | blank c hc =>
      simp only [Token.text, Token.leaves, Token.variableName, Token.residue, Option.toList_none,
        List.singleton_append, List.nil_append, bare_cons (separates_of_isSpace hc)]
    | symbol c hc =>
      simp only [Token.text, Token.leaves, Token.variableName, Token.residue, Option.toList_none,
        List.singleton_append, List.nil_append, bare_cons (separates_of_mem (mem_symbols c hc))]
    | comma => exact absurd List.mem_cons_self hcomma
    | number n => exact bare_number n (hpoint n List.mem_cons_self) _
    | listed name hname =>
      rw [bare_name (hbehind trivial), ← bare_listed hname, Token.text]
    | var v =>
      have hv := bare_variable v (hdigit v List.mem_cons_self) (hlisted v List.mem_cons_self)
      rw [bare_name (hbehind trivial), Token.text, hv]
      simp only [Token.leaves, Token.variableName, Token.residue, Option.toList_some,
        Option.toList_none, List.append_nil]

/-! ## What the variables cannot hide -/

/-- A character that no symbol and no function has is left. -/
theorem exists_mem_bare {s : Text} {c : Char} (hsymbol : c ∉ symbols)
    (halphanum : c.isAlphanum = false) (hspace : isSpace c = false) (h : c ∈ s) :
    ∃ w ∈ bare s, c ∈ w := by
  have hmem : c ∈ s.map blanked := List.mem_map.mpr ⟨c, h, if_neg hsymbol⟩
  rw [bare, replaceEach_symbols]
  exact exists_mem_words hspace (mem_replaceEach (notMem_functions halphanum) hmem)

/-- No digit is left. -/
theorem notMem_digit_of_mem_bare {s w : Text} (hw : w ∈ bare s) : ∀ c ∈ w, c.isDigit = false := by
  intro c hc
  by_contra hdigit
  rw [Bool.not_eq_false] at hdigit
  rw [bare, replaceEach_symbols] at hw
  have hne : ' ' ∉ [c] := by
    rw [List.mem_singleton]
    rintro rfl
    cases hdigit
  have hoccurs : [c] <:+: s.map blanked := infix_of_infix_replaceEach hne (List.cons_ne_nil _ _)
    ((List.singleton_infix_iff _ _).mpr ((infix_of_mem_words hw).subset hc))
  obtain ⟨c', -, hc'⟩ := List.mem_map.mp ((List.singleton_infix_iff _ _).mp hoccurs)
  rw [blanked] at hc'
  split at hc'
  · rw [← hc'] at hdigit
    cases hdigit
  · next hsymbol =>
    rw [hc'] at hsymbol
    exact hsymbol (mem_symbols_of_isDigit hdigit)

/-- Nor is a listed name. -/
theorem not_infix_of_mem_bare {s w : Text} (hw : w ∈ bare s) : ∀ f ∈ functions, ¬ f <:+: w := by
  intro f hf hoccurs
  rw [bare] at hw
  exact not_infix_replaceEach (notMem_functions rfl) hf (hoccurs.trans (infix_of_mem_words hw))

/-- Where the words are the variables, the expression is clean. -/
theorem clean_of_processVarList_eq {e : Expression}
    (h : processVarList e.text = e.distinctVariables) : e.Clean := by
  have hmem : ∀ w, w ∈ bare e.text ↔ w ∈ variablesOf e.tokens := by
    intro w
    have := congrArg (w ∈ ·) h
    simpa [processVarList, Expression.distinctVariables, mem_eraseSeen_iff] using this
  have hname : ∀ w ∈ bare e.text, ∀ c ∈ w, c.isAlphanum = true ∨ c = '_' := by
    intro w hw
    obtain ⟨t, ht, hvar⟩ := List.mem_filterMap.mp ((hmem w).mp hw)
    cases t with
    | var v =>
      cases hvar
      exact v.isWord_name
    | _ => cases hvar
  have hchar : ∀ c : Char, c ∉ symbols → c.isAlphanum = false → isSpace c = false → c ≠ '_' →
      c ∉ e.text := by
    intro c hsymbol halphanum hspace hne hc
    obtain ⟨w, hw, hcw⟩ := exists_mem_bare hsymbol halphanum hspace hc
    rcases hname w hw c hcw with hword | hword
    · rw [halphanum] at hword
      cases hword
    · exact hne hword
  have hvar : ∀ v, .var v ∈ e.tokens → v.name ∈ bare e.text := fun v hv =>
    (hmem v.name).mpr (List.mem_filterMap.mpr ⟨.var v, hv, rfl⟩)
  refine ⟨fun hcomma => ?_, fun n hn => ?_, fun v hv => ?_, fun v hv => ?_⟩
  · refine hchar ',' (by decide) rfl rfl (by decide) ?_
    exact List.mem_flatMap.mpr ⟨.comma, hcomma, List.mem_singleton_self _⟩
  · by_contra hpoint
    obtain ⟨d, hd⟩ := Option.ne_none_iff_exists'.mp hpoint
    refine hchar '.' (by decide) rfl rfl (by decide) (List.mem_flatMap.mpr ⟨.number n, hn, ?_⟩)
    simp [Token.text, Number.text, hd]
  · exact notMem_digit_of_mem_bare (hvar v hv)
  · exact not_infix_of_mem_bare (hvar v hv)

/-! ## In the order of the variables -/

/-- `Foreseen` with some words seen before the tokens. -/
def ForeseenFrom (seen : List Text) (tokens : List Token) : Prop :=
  ∀ before t after r, tokens = before ++ t :: after → t.residue = some r →
    r ∈ seen ++ leavesOf before ∨
      (variablesOf after).find? (· ∉ seen ++ leavesOf before) = some r

/-- A residue must have been seen, or be the next new variable. -/
theorem foreseenFrom_cons_iff {seen : List Text} {t : Token} {tokens : List Token} :
    ForeseenFrom seen (t :: tokens) ↔
      (∀ r, t.residue = some r → r ∈ seen ∨ (variablesOf tokens).find? (· ∉ seen) = some r) ∧
        ForeseenFrom (seen ++ t.leaves) tokens := by
  constructor
  · intro h
    refine ⟨fun r hr => by simpa [leavesOf] using h [] t tokens r rfl hr, ?_⟩
    rintro before t' after r rfl hr
    simpa [leavesOf] using h (t :: before) t' after r rfl hr
  · rintro ⟨hfirst, hrest⟩ before t' after r heq hr
    cases before with
    | nil =>
      cases heq
      simpa [leavesOf] using hfirst r hr
    | cons t before =>
      cases heq
      simpa [leavesOf] using hrest before t' after r rfl hr

theorem ForeseenFrom.congr {seen seen' : List Text} {tokens : List Token}
    (h : ∀ w, w ∈ seen ↔ w ∈ seen') : ForeseenFrom seen tokens ↔ ForeseenFrom seen' tokens := by
  simp only [ForeseenFrom, List.mem_append, h]

/-- The words that are left are the variables exactly if what is left of the other tokens is
foreseen. -/
theorem eraseSeen_leavesOf_iff {seen : List Text} {tokens : List Token} :
    eraseSeen seen (leavesOf tokens) = eraseSeen seen (variablesOf tokens) ↔
      ForeseenFrom seen tokens := by
  induction tokens generalizing seen with
  | nil => simp [leavesOf, variablesOf, ForeseenFrom]
  | cons t tokens ih =>
    have hseen : ∀ r ∈ seen, ∀ w, w ∈ seen ↔ w ∈ seen ++ [r] := by
      intro r hr w
      simp only [List.mem_append, List.mem_singleton]
      grind
    have hcons : ∀ r w, w ∈ r :: seen ↔ w ∈ seen ++ [r] := by
      intro r w
      simp only [List.mem_cons, List.mem_append, List.not_mem_nil, or_false]
      grind
    rw [foreseenFrom_cons_iff, leavesOf, List.flatMap_cons, ← leavesOf]
    cases hname : t.variableName with
    | some v =>
      have hresidue : t.residue = none := by
        cases t <;> first | rfl | cases hname
      have hvariables : variablesOf (t :: tokens) = v :: variablesOf tokens := by
        simp [variablesOf, hname]
      have hleaves : t.leaves = [v] := by
        simp [Token.leaves, hname, hresidue]
      rw [hvariables, hleaves, List.singleton_append, eraseSeen, eraseSeen, hresidue]
      by_cases hv : v ∈ seen
      · simp [hv, ih, ForeseenFrom.congr (hseen v hv)]
      · simp [hv, ih, ForeseenFrom.congr (hcons v)]
    | none =>
      have hvariables : variablesOf (t :: tokens) = variablesOf tokens := by
        simp [variablesOf, hname]
      rw [hvariables]
      cases hresidue : t.residue with
      | none => simp [Token.leaves, hname, hresidue, ih]
      | some r =>
        have hleaves : t.leaves = [r] := by
          simp [Token.leaves, hname, hresidue]
        rw [hleaves, List.singleton_append, eraseSeen]
        by_cases hr : r ∈ seen
        · simp [hr, ih, ForeseenFrom.congr (hseen r hr)]
        · rw [if_neg hr, eq_comm, eraseSeen_eq_cons_iff, eq_comm (a := eraseSeen _ _), ih,
            ForeseenFrom.congr (hcons r)]
          simp [hr]

/-- **The variables that are found are those of the expression exactly if no name is taken apart, no
comma or point is left, and the letters that are left of other tokens are foreseen.** -/
theorem processVarList_eq_iff (e : Expression) :
    processVarList e.text = e.distinctVariables ↔ e.Clean ∧ e.Foreseen := by
  have hforeseen : e.Foreseen ↔ ForeseenFrom [] e.tokens := by
    simp [Expression.Foreseen, ForeseenFrom]
  constructor
  · intro h
    have hclean := clean_of_processVarList_eq h
    refine ⟨hclean, hforeseen.mpr (eraseSeen_leavesOf_iff.mp ?_)⟩
    rw [← bare_text e hclean]
    exact h
  · rintro ⟨hclean, h⟩
    rw [processVarList, bare_text e hclean]
    exact eraseSeen_leavesOf_iff.mpr (hforeseen.mp h)

/-- The word of `x1` is `x`. -/
theorem not_processVarList_eq :
    ¬ ∀ e : Expression, processVarList e.text = e.distinctVariables := by
  intro h
  have hx := h ⟨[.var ⟨'x', ['1'], rfl, by decide, by decide⟩], .singleton _⟩
  revert hx
  decide +kernel

/-! ## The arguments -/

theorem lookup_zip {α β : Type} [BEq α] [LawfulBEq α] {l : List α} {args : List β} (hl : l.Nodup)
    {n : ℕ} {a : α} {x : β} (ha : l[n]? = some a) (hx : args[n]? = some x) :
    (l.zip args).lookup a = some x := by
  induction l generalizing args n with
  | nil => simp at ha
  | cons b l ih =>
    obtain ⟨hb, hl⟩ := List.nodup_cons.mp hl
    cases args with
    | nil => simp at hx
    | cons y args =>
      cases n with
      | zero =>
        simp only [List.getElem?_cons_zero, Option.some.injEq] at ha hx
        simp [ha, hx]
      | succ n =>
        have hne : a ≠ b := by
          rintro rfl
          exact hb (List.mem_of_getElem? ha)
        rw [List.zip_cons_cons, List.lookup_cons, beq_false_of_ne hne]
        exact ih hl ha hx

/-- Where the variables are found, the arguments are bound to them in order. -/
theorem lookup_variableMap {D : Type} {e : Expression}
    (h : processVarList e.text = e.distinctVariables) {args : List D} {n : ℕ} {v : Text} {x : D}
    (hv : e.distinctVariables[n]? = some v) (hx : args[n]? = some x) :
    (variableMap e.text args).lookup v = some x := by
  rw [variableMap, h]
  exact lookup_zip nodup_eraseSeen hv hx

end Sem.Workers.Complexity
