import Mathlib.Data.List.Basic

/-!
# Tokens of SQL

A lexer of SQL statements that reads one character after the other: words, string literals in which
two quotes stand for one, quoted identifiers, comments, and everything else as symbols. Backslashes
are ordinary characters of a literal.

A `Piece` of a statement is a text of the program or a value, and a value is written in one of three
ways (`Place`). The template of a statement is what is left of it without its values.

* `lex_text_iff`: a statement has the tokens of its template, with one literal for each value that
  denotes it, exactly if every value is written well.
-/

namespace Sem.Sql

/-- Texts are lists of characters. -/
abbrev Text := List Char

/-- The tokens of SQL. -/
inductive Token
  | word (w : Text)
  | symbol (c : Char)
  | quotedIdentifier (w : Text)
  | literal (v : Text)
  /-- The statement ends within a literal, an identifier or a comment. -/
  | unterminated
  deriving DecidableEq, Repr

/-- What the lexer is in the middle of. -/
inductive Mode
  | gap
  | word (w : Text)
  | literal (v : Text)
  /-- A quote in a literal: its end, or the first one of two. -/
  | literalQuote (v : Text)
  | identifier (w : Text)
  | identifierQuote (w : Text)
  | dash
  | lineComment
  | slash
  | blockComment (depth : ℕ)
  | blockStar (depth : ℕ)
  | blockSlash (depth : ℕ)
  deriving DecidableEq, Repr

/-- Letters, digits and what may join them. -/
def wordChar (c : Char) : Bool := c.isAlphanum || c = '_' || c = '.' || c = '$'

/-- A token begins. -/
def start (c : Char) : List Token × Mode :=
  if c.isWhitespace then ([], .gap)
  else if c = '\'' then ([], .literal [])
  else if c = '"' then ([], .identifier [])
  else if c = '-' then ([], .dash)
  else if c = '/' then ([], .slash)
  else if wordChar c then ([], .word [c])
  else ([.symbol c], .gap)

/-- What the end of the statement completes. -/
def finish : Mode → List Token
  | .gap | .lineComment => []
  | .word w => [.word w]
  | .literalQuote v => [.literal v]
  | .identifierQuote w => [.quotedIdentifier w]
  | .dash => [.symbol '-']
  | .slash => [.symbol '/']
  | .literal _ | .identifier _ | .blockComment _ | .blockStar _ | .blockSlash _ => [.unterminated]

/-- The token before this character is complete, and another one begins. -/
def next (mode : Mode) (c : Char) : List Token × Mode := (finish mode ++ (start c).1, (start c).2)

/-- A character ends tokens or goes to the one that is open. -/
def step (mode : Mode) (c : Char) : List Token × Mode :=
  match mode with
  | .gap => start c
  | .word w => if wordChar c then ([], .word (w ++ [c])) else next mode c
  | .literal v => if c = '\'' then ([], .literalQuote v) else ([], .literal (v ++ [c]))
  | .literalQuote v => if c = '\'' then ([], .literal (v ++ [c])) else next mode c
  | .identifier w => if c = '"' then ([], .identifierQuote w) else ([], .identifier (w ++ [c]))
  | .identifierQuote w => if c = '"' then ([], .identifier (w ++ [c])) else next mode c
  | .dash => if c = '-' then ([], .lineComment) else next mode c
  | .lineComment => if c = '\n' then ([], .gap) else ([], .lineComment)
  | .slash => if c = '*' then ([], .blockComment 0) else next mode c
  | .blockComment depth => ([], if c = '*' then .blockStar depth
      else if c = '/' then .blockSlash depth else .blockComment depth)
  | .blockStar depth => ([], if c = '/' then (if depth = 0 then .gap else .blockComment (depth - 1))
      else if c = '*' then .blockStar depth else .blockComment depth)
  | .blockSlash depth => ([], if c = '*' then .blockComment (depth + 1)
      else if c = '/' then .blockSlash depth else .blockComment depth)

/-- The tokens of the rest of a text. -/
def lex : Mode → Text → List Token
  | mode, [] => finish mode
  | mode, c :: s => (step mode c).1 ++ lex (step mode c).2 s

/-- The tokens of a statement. -/
def tokens (s : Text) : List Token := lex .gap s

/-! ## Literals -/

/-- Each quote is written twice. -/
def double (s : Text) : Text := s.flatMap fun c => if c = '\'' then ['\'', '\''] else [c]

/-- The literal that denotes the text. -/
def quote (s : Text) : Text := '\'' :: double s ++ ['\'']

/-- The text of a literal whose quote was read, and what comes after it. -/
def readLiteral : Text → Option (Text × Text)
  | [] => none
  | c :: s =>
    if c = '\'' then
      match s with
      | '\'' :: s => (readLiteral s).map fun r => ('\'' :: r.1, r.2)
      | s => some ([], s)
    else (readLiteral s).map fun r => (c :: r.1, r.2)

/-- The ways to write a value. -/
inductive Place
  /-- As it is, between quotes. -/
  | pasted (v : Text)
  | quoted (v : Text)
  /-- It was a literal before it was quoted. -/
  | quotedTwice (v : Text)
  deriving DecidableEq, Repr

namespace Place

/-- The text that is meant. -/
def value : Place → Text
  | .pasted v | .quoted v | .quotedTwice v => v

/-- What is between the quotes. -/
def body : Place → Text
  | .pasted v => v
  | .quoted v => double v
  | .quotedTwice v => double (quote v)

/-- The place as it stands in the statement. -/
def text (p : Place) : Text := '\'' :: p.body ++ ['\'']

/-- The value is written well. -/
def Safe : Place → Prop
  | .pasted v => '\'' ∉ v
  | .quoted _ => True
  | .quotedTwice _ => False

instance (p : Place) : Decidable p.Safe := by
  cases p <;> unfold Safe <;> infer_instance

end Place

/-! ## Statements -/

/-- A statement is made of SQL and of places. -/
inductive Piece
  | sql (s : Text)
  | place (p : Place)
  deriving DecidableEq, Repr

/-- The piece as it stands in the statement. -/
def Piece.text : Piece → Text
  | .sql s => s
  | .place p => p.text

/-- The text of a statement. -/
def text (pieces : List Piece) : Text := pieces.flatMap Piece.text

/-- The places of a statement, in order. -/
def places (pieces : List Piece) : List Place :=
  pieces.filterMap fun
    | .sql _ => none
    | .place p => some p

/-- The characters of a statement with a hole for each value. -/
def template (pieces : List Piece) : List (Option Char) :=
  pieces.flatMap fun
    | .sql s => s.map some
    | .place _ => [none]

/-- The tokens of a template; a hole is a token of its own. -/
def templateTokens : Mode → List (Option Char) → List (Option Token)
  | mode, [] => (finish mode).map some
  | mode, some c :: s => (step mode c).1.map some ++ templateTokens (step mode c).2 s
  | mode, none :: s => (finish mode).map some ++ none :: templateTokens .gap s

/-- A literal for each value. -/
def fill : List (Option Token) → List Text → List Token
  | [], _ => []
  | some t :: ts, vs => t :: fill ts vs
  | none :: ts, [] => fill ts []
  | none :: ts, v :: vs => .literal v :: fill ts vs

/-! ## Reading literals -/

theorem double_cons (c : Char) (s : Text) :
    double (c :: s) = (if c = '\'' then ['\'', '\''] else [c]) ++ double s :=
  List.flatMap_cons

theorem double_of_notMem {s : Text} (h : '\'' ∉ s) : double s = s := by
  induction s with
  | nil => rfl
  | cons c s ih =>
    obtain ⟨hc, hs⟩ := not_or.mp (mt List.mem_cons.mpr h)
    rw [double_cons, if_neg (Ne.symm hc), ih hs]
    rfl

theorem readLiteral_two (s : Text) :
    readLiteral ('\'' :: '\'' :: s) = (readLiteral s).map fun r => ('\'' :: r.1, r.2) := by
  conv => lhs; unfold readLiteral
  rw [if_pos rfl]
  rfl

theorem readLiteral_end {s : Text} (h : s.head? ≠ some '\'') :
    readLiteral ('\'' :: s) = some ([], s) := by
  cases s with
  | nil => rfl
  | cons c s =>
    have hc : c ≠ '\'' := fun hc => h (by rw [hc]; rfl)
    unfold readLiteral
    simp [hc]

theorem readLiteral_cons {c : Char} (hc : c ≠ '\'') (s : Text) :
    readLiteral (c :: s) = (readLiteral s).map fun r => (c :: r.1, r.2) := by
  conv => lhs; unfold readLiteral
  rw [if_neg hc]

theorem readLiteral_double {s rest : Text} (hrest : rest.head? ≠ some '\'') :
    readLiteral (double s ++ '\'' :: rest) = some (s, rest) := by
  induction s with
  | nil => exact readLiteral_end hrest
  | cons c s ih =>
    rw [double_cons]
    by_cases hc : c = '\''
    · subst hc
      rw [if_pos rfl]
      show readLiteral ('\'' :: '\'' :: (double s ++ '\'' :: rest)) = _
      rw [readLiteral_two, ih]
      rfl
    · rw [if_neg hc]
      show readLiteral (c :: (double s ++ '\'' :: rest)) = _
      rw [readLiteral_cons hc, ih]
      rfl

theorem eq_of_readLiteral {t v rest : Text} (h : readLiteral t = some (v, rest)) :
    t = double v ++ '\'' :: rest ∧ rest.head? ≠ some '\'' := by
  induction hn : t.length using Nat.strongRecOn generalizing t v with
  | ind n ih =>
    subst hn
    cases t with
    | nil => cases h
    | cons c s =>
      by_cases hc : c = '\''
      · subst hc
        by_cases hs : s.head? = some '\''
        · obtain ⟨s, rfl⟩ : ∃ s', s = '\'' :: s' := ⟨_, (List.head?_eq_some_iff.mp hs).choose_spec⟩
          rw [readLiteral_two] at h
          obtain ⟨r, hread, hr⟩ := Option.map_eq_some_iff.mp h
          cases hr
          obtain ⟨heq, hrest⟩ := ih s.length (by simp only [List.length_cons]; omega) hread rfl
          refine ⟨?_, hrest⟩
          rw [double_cons, heq]
          rfl
        · rw [readLiteral_end hs] at h
          cases h
          exact ⟨rfl, hs⟩
      · rw [readLiteral_cons hc] at h
        obtain ⟨r, hread, hr⟩ := Option.map_eq_some_iff.mp h
        cases hr
        obtain ⟨heq, hrest⟩ := ih s.length (by simp) hread rfl
        refine ⟨?_, hrest⟩
        rw [double_cons, if_neg hc, heq]
        rfl

/-- Quotes before a doubled text are not those of the text itself. -/
theorem replicate_append_double_ne (n : ℕ) (v rest : Text) {rest' : Text}
    (hrest : rest'.head? ≠ some '\'') :
    List.replicate (n + 1) '\'' ++ double v ++ '\'' :: rest ≠ v ++ '\'' :: rest' := by
  intro h
  induction v generalizing n with
  | nil =>
    rw [List.replicate_succ] at h
    have htail : List.replicate n '\'' ++ double [] ++ '\'' :: rest = rest' :=
      (List.cons.inj h).2
    apply hrest
    rw [← htail]
    cases n <;> rfl
  | cons c v ih =>
    have hc : '\'' = c := (List.cons.inj (List.replicate_succ ▸ h)).1
    subst hc
    apply ih (n + 1)
    have htail : List.replicate n '\'' ++ double ('\'' :: v) ++ '\'' :: rest = v ++ '\'' :: rest' :=
      (List.cons.inj (List.replicate_succ ▸ h)).2
    rw [← htail, double_cons, if_pos rfl, show n + 1 + 1 = n + 2 from rfl, List.replicate_add,
      List.append_assoc (List.replicate n '\'')]
    rfl

/-- A text with a quote that is pasted between quotes is not what is read. -/
theorem readLiteral_pasted_ne {v rest : Text} (hrest : rest.head? ≠ some '\'') (hv : '\'' ∈ v)
    (rest' : Text) : readLiteral (v ++ '\'' :: rest) ≠ some (v, rest') := by
  intro h
  have heq := (eq_of_readLiteral h).1
  clear h
  induction v with
  | nil => cases hv
  | cons c v ih =>
    rw [double_cons] at heq
    by_cases hc : c = '\''
    · subst hc
      rw [if_pos rfl] at heq
      exact replicate_append_double_ne 0 v rest' hrest (List.cons.inj heq).2.symm
    · rw [if_neg hc] at heq
      obtain rfl | hmem := List.mem_cons.mp hv
      · exact hc rfl
      · exact ih hmem (List.cons.inj heq).2

theorem quote_ne (v : Text) : quote v ≠ v := by
  intro h
  have hlength : v.length ≤ (double v).length := by
    clear h
    induction v with
    | nil => exact Nat.le_refl _
    | cons c v ih =>
      rw [double_cons]
      split <;> simp <;> omega
  have := congrArg List.length h
  simp [quote] at this
  omega

/-- What is read at a place is its value if it is written well. -/
theorem Place.readLiteral_body {p : Place} (hp : p.Safe) {rest : Text}
    (hrest : rest.head? ≠ some '\'') :
    readLiteral (p.body ++ '\'' :: rest) = some (p.value, rest) := by
  cases p with
  | pasted v =>
    have hread := readLiteral_double (s := v) hrest
    rwa [double_of_notMem hp] at hread
  | quoted v => exact readLiteral_double hrest
  | quotedTwice v => exact hp.elim

theorem Place.readLiteral_body_ne {p : Place} (hp : ¬ p.Safe) {rest : Text}
    (hrest : rest.head? ≠ some '\'') (rest' : Text) :
    readLiteral (p.body ++ '\'' :: rest) ≠ some (p.value, rest') := by
  cases p with
  | pasted v => exact readLiteral_pasted_ne hrest (not_not.mp hp) rest'
  | quoted v => exact absurd trivial hp
  | quotedTwice v =>
    intro h
    have hread := readLiteral_double (s := quote v) hrest
    exact quote_ne v (congrArg Prod.fst (Option.some.inj (hread.symm.trans h)))

/-! ## Statements and their templates -/

/-- The mode after a text. -/
def after (mode : Mode) (s : Text) : Mode := s.foldl (fun m c => (step m c).2) mode

/-- The tokens that a text completes. -/
def emitted : Mode → Text → List Token
  | _, [] => []
  | mode, c :: s => (step mode c).1 ++ emitted (step mode c).2 s

theorem lex_append (mode : Mode) (s t : Text) :
    lex mode (s ++ t) = emitted mode s ++ lex (after mode s) t := by
  induction s generalizing mode with
  | nil => rfl
  | cons c s ih =>
    show (step mode c).1 ++ lex (step mode c).2 (s ++ t) = _
    rw [ih]
    exact (List.append_assoc _ _ _).symm

theorem templateTokens_append (mode : Mode) (s : Text) (t : List (Option Char)) :
    templateTokens mode (s.map some ++ t) =
      (emitted mode s).map some ++ templateTokens (after mode s) t := by
  induction s generalizing mode with
  | nil => rfl
  | cons c s ih =>
    show (step mode c).1.map some ++ templateTokens (step mode c).2 (s.map some ++ t) = _
    rw [ih, ← List.append_assoc, ← List.map_append]
    rfl

theorem fill_append (ts : List Token) (ts' : List (Option Token)) (vs : List Text) :
    fill (ts.map some ++ ts') vs = ts ++ fill ts' vs := by
  induction ts with
  | nil => rfl
  | cons t ts ih =>
    show t :: fill (ts.map some ++ ts') vs = _
    rw [ih]
    rfl

/-- The next mode of a template, none just after a hole. A hole comes where a token may begin, and
no quote comes after it. -/
def advance : Option Mode → Option Char → Option (Option Mode)
  | some mode, some c => some (some (step mode c).2)
  | some .gap, none | some (.word _), none => some none
  | some _, none => none
  | none, some c => if c = '\'' then none else some (some (step .gap c).2)
  | none, none => none

/-- The characters one after another, of which `none` stands for a place. -/
def run (mode : Option Mode) (t : List (Option Char)) : Option (Option Mode) :=
  t.foldlM advance mode

theorem run_cons (mode : Option Mode) (c : Option Char) (t : List (Option Char)) :
    run mode (c :: t) = (advance mode c).bind fun mode' => run mode' t :=
  List.foldlM_cons

theorem run_append (mode : Option Mode) (s t : List (Option Char)) :
    run mode (s ++ t) = (run mode s).bind fun mode' => run mode' t :=
  List.foldlM_append

theorem run_map_some (mode : Mode) (s : Text) (t : List (Option Char)) :
    run (some mode) (s.map some ++ t) = run (some (after mode s)) t := by
  induction s generalizing mode with
  | nil => rfl
  | cons c s ih => exact ih (step mode c).2

theorem template_cons_sql (s : Text) (pieces : List Piece) :
    template (.sql s :: pieces) = s.map some ++ template pieces := rfl

theorem template_append (ps qs : List Piece) : template (ps ++ qs) = template ps ++ template qs :=
  List.flatMap_append

/-- After a hole there is no quote, and what follows is read as after a gap. -/
theorem of_run_none {pieces : List Piece} (h : (run none (template pieces)).isSome) :
    (text pieces).head? ≠ some '\'' ∧ (run (some .gap) (template pieces)).isSome := by
  induction pieces with
  | nil => exact ⟨nofun, rfl⟩
  | cons piece pieces ih =>
    cases piece with
    | sql s =>
      cases s with
      | nil => exact ih h
      | cons c s =>
        by_cases hc : c = '\''
        · subst hc
          cases h
        · refine ⟨fun hhead => hc (Option.some.inj hhead), ?_⟩
          have hrun : run none (template (.sql (c :: s) :: pieces)) =
              run (some .gap) (template (.sql (c :: s) :: pieces)) := by
            have hadvance : advance none (some c) = advance (some .gap) (some c) := if_neg hc
            rw [template_cons_sql, List.map_cons, List.cons_append, run_cons, run_cons, hadvance]
          rwa [← hrun]
    | place p => cases h

/-- Inside a literal the lexer reads to the closing quote. -/
theorem lex_literal (v s : Text) : lex (.literal v) s =
    match readLiteral s with
    | none => [.unterminated]
    | some (w, rest) => .literal (v ++ w) :: lex .gap rest := by
  induction hn : s.length using Nat.strongRecOn generalizing v s with
  | ind n ih =>
    subst hn
    cases s with
    | nil => rfl
    | cons c s =>
      by_cases hc : c = '\''
      · subst hc
        cases s with
        | nil => simp [readLiteral, lex, step, finish]
        | cons c s =>
          by_cases hc : c = '\''
          · subst hc
            show lex (.literal (v ++ ['\''])) s = _
            rw [ih s.length (by simp only [List.length_cons]; omega) _ s rfl, readLiteral_two]
            cases readLiteral s <;> simp
          · rw [readLiteral_end (by simpa using hc)]
            simp [lex, step, next, finish, hc]
      · have hstep : lex (.literal v) (c :: s) = lex (.literal (v ++ [c])) s := by
          simp [lex, step, hc]
        rw [hstep, ih s.length (by simp) _ s rfl, readLiteral_cons hc]
        cases readLiteral s <;> simp

/-- A hole, filled with a value that is written well or not. -/
theorem lex_place_iff {mode : Mode} (hmode : advance (some mode) none = some none) (p : Place)
    {rest : Text} (hrest : rest.head? ≠ some '\'') (ts : List Token) :
    lex mode (p.text ++ rest) = finish mode ++ .literal p.value :: ts ↔
      p.Safe ∧ lex .gap rest = ts := by
  have hopen : lex mode (p.text ++ rest) =
      finish mode ++ lex (.literal []) (p.body ++ '\'' :: rest) := by
    have htext : p.text ++ rest = '\'' :: (p.body ++ '\'' :: rest) := by simp [Place.text]
    have hstart : start '\'' = ([], .literal []) := by decide
    have hword : wordChar '\'' = false := by decide
    rw [htext]
    cases mode with
    | gap => simp [lex, step, finish, hstart]
    | word w => simp [lex, step, next, finish, hstart, hword]
    | _ => cases hmode
  rw [hopen, List.append_right_inj, lex_literal]
  by_cases hp : p.Safe
  · rw [p.readLiteral_body hp hrest]
    simp [hp]
  · refine iff_of_false (fun heq => ?_) fun h => hp h.1
    cases hread : readLiteral (p.body ++ '\'' :: rest) with
    | none =>
      rw [hread] at heq
      cases heq
    | some r =>
      rw [hread] at heq
      have hvalue : r.1 = p.value := by simpa using (List.cons.inj heq).1
      exact p.readLiteral_body_ne hp hrest r.2 (by rw [hread, ← hvalue])

/-- **A statement whose holes are where tokens may begin** has the tokens of its template, filled
with its values, exactly if each value is written well. -/
theorem lex_text_iff {mode : Mode} {pieces : List Piece}
    (hrun : (run (some mode) (template pieces)).isSome) :
    lex mode (text pieces) =
        fill (templateTokens mode (template pieces)) ((places pieces).map Place.value) ↔
      ∀ p ∈ places pieces, p.Safe := by
  induction pieces generalizing mode with
  | nil => exact iff_of_true (by cases mode <;> rfl) nofun
  | cons piece pieces ih =>
    cases piece with
    | sql s =>
      rw [template_cons_sql, run_map_some] at hrun
      rw [template_cons_sql, templateTokens_append, fill_append]
      show lex mode (s ++ text pieces) = _ ↔ _
      rw [lex_append, List.append_right_inj]
      exact ih hrun
    | place p =>
      have hmode : advance (some mode) none = some none := by
        cases mode <;> first | rfl | cases hrun
      have hrun' : (run none (template pieces)).isSome := by
        have hbind : run (some mode) (template (.place p :: pieces)) =
            (advance (some mode) none).bind fun mode' => run mode' (template pieces) := rfl
        rwa [hbind, hmode] at hrun
      obtain ⟨hhead, hgap⟩ := of_run_none hrun'
      have htemplate : templateTokens mode (template (.place p :: pieces)) =
          (finish mode).map some ++ none :: templateTokens .gap (template pieces) := rfl
      have hplaces : places (.place p :: pieces) = p :: places pieces := rfl
      rw [htemplate, fill_append, hplaces, List.map_cons, List.forall_mem_cons]
      show lex mode (p.text ++ text pieces) = _ ++ .literal p.value :: fill _ _ ↔ _
      rw [lex_place_iff hmode p hhead, ih hgap]

/-! ## Holes where tokens may begin -/

/-- Between two tokens, in a word or after a hole. -/
def ready : Option Mode → Bool
  | none | some .gap | some (.word _) => true
  | _ => false

/-- No character of this kind begins or ends a literal, an identifier or a comment. -/
def calm (c : Char) : Bool := c ≠ '\'' && c ≠ '"' && c ≠ '-' && c ≠ '/'

/-- The template may stand between any two tokens. -/
def Steady (t : List (Option Char)) : Prop :=
  ∀ mode, ready mode → ∃ mode', run mode t = some mode' ∧ ready mode'

theorem Steady.nil : Steady [] := fun mode hmode => ⟨mode, rfl, hmode⟩

theorem Steady.append {s t : List (Option Char)} (hs : Steady s) (ht : Steady t) :
    Steady (s ++ t) := by
  intro mode hmode
  obtain ⟨mode', hrun, hmode'⟩ := hs mode hmode
  obtain ⟨mode'', hrun', hmode''⟩ := ht mode' hmode'
  refine ⟨mode'', ?_, hmode''⟩
  rw [run_append, hrun]
  exact hrun'

theorem ready_start {c : Char} (hc : calm c) : ready (some (start c).2) := by
  simp only [calm, ne_eq, decide_not, Bool.and_eq_true, Bool.not_eq_eq_eq_not, Bool.not_true,
    decide_eq_false_iff_not] at hc
  obtain ⟨⟨⟨hquote, hdouble⟩, hdash⟩, hslash⟩ := hc
  unfold start
  rw [if_neg hquote, if_neg hdouble, if_neg hdash, if_neg hslash]
  split
  · rfl
  · split <;> rfl

/-- Calm characters lead from one token to the next. -/
theorem run_calm {s : Text} (hs : ∀ c ∈ s, calm c) {mode : Option Mode} (hmode : ready mode) :
    ∃ mode', run mode (s.map some) = some mode' ∧ ready mode' ∧ (s ≠ [] → mode' ≠ none) := by
  induction s generalizing mode with
  | nil => exact ⟨mode, rfl, hmode, fun h => absurd rfl h⟩
  | cons c s ih =>
    obtain ⟨hc, hs⟩ := List.forall_mem_cons.mp hs
    have hstep : ∃ next, advance mode (some c) = some (some next) ∧ ready (some next) := by
      match mode, hmode with
      | none, _ =>
        have hquote : c ≠ '\'' := by
          rintro rfl
          cases hc
        exact ⟨_, if_neg hquote, ready_start hc⟩
      | some .gap, _ => exact ⟨_, rfl, ready_start hc⟩
      | some (.word w), _ =>
        refine ⟨_, rfl, ?_⟩
        unfold step
        dsimp only
        split
        · rfl
        · exact ready_start hc
    obtain ⟨next, hadvance, hnext⟩ := hstep
    obtain ⟨mode', hrun, hmode', -⟩ := ih hs hnext
    refine ⟨mode', ?_, hmode', fun _ => ?_⟩
    · rw [List.map_cons, run_cons, hadvance]
      exact hrun
    · rintro rfl
      cases s with
      | nil => cases hrun
      | cons c s =>
        have hlast : ∀ (t : Text) (m : Mode), run (some m) (t.map some) ≠ some none := by
          intro t m h
          have hmap := run_map_some m t []
          rw [List.append_nil, h] at hmap
          cases hmap
        exact hlast _ _ hrun

/-- A text without quotes leaves the lexer between tokens. -/
theorem Steady.sql {s : Text} (hs : ∀ c ∈ s, calm c) : Steady (s.map some) := by
  intro mode hmode
  obtain ⟨mode', hrun, hmode', -⟩ := run_calm hs hmode
  exact ⟨mode', hrun, hmode'⟩

/-- A value after a text that is not empty. -/
theorem Steady.place {s : Text} (hne : s ≠ []) (hs : ∀ c ∈ s, calm c) :
    Steady (s.map some ++ [none]) := by
  intro mode hmode
  obtain ⟨mode', hrun, hmode', hsome⟩ := run_calm hs hmode
  refine ⟨none, ?_, rfl⟩
  rw [run_append, hrun]
  match mode', hmode', hsome hne with
  | some .gap, _, _ => rfl
  | some (.word w), _, _ => rfl

/-- A number may have a sign. -/
theorem Steady.negative {s : Text} (hne : s ≠ []) (hs : ∀ c ∈ s, calm c) :
    Steady (('-' :: s).map some) := by
  intro mode hmode
  obtain ⟨c, s, rfl⟩ := List.exists_cons_of_ne_nil hne
  obtain ⟨hc, hs⟩ := List.forall_mem_cons.mp hs
  have hdash : advance mode (some '-') = some (some .dash) := by
    match mode, hmode with
    | none, _ => rfl
    | some .gap, _ => rfl
    | some (.word w), _ => rfl
  have hcne : c ≠ '-' := by
    rintro rfl
    cases hc
  have hstep : step .dash c = next .dash c := if_neg hcne
  obtain ⟨mode', hrun, hmode', -⟩ := run_calm hs (ready_start hc)
  refine ⟨mode', ?_, hmode'⟩
  have hnext : advance (some .dash) (some c) = some (some (start c).2) := by
    rw [advance, hstep]
    rfl
  rw [List.map_cons, run_cons, hdash, Option.bind_some, List.map_cons, run_cons, hnext]
  exact hrun

/-- Inside a literal a value without quotes stays inside. -/
theorem after_literal {v : Text} (hv : '\'' ∉ v) (u : Text) :
    after (.literal u) v = .literal (u ++ v) := by
  induction v generalizing u with
  | nil => rw [List.append_nil]; rfl
  | cons c v ih =>
    obtain ⟨hc, hv⟩ := not_or.mp (mt List.mem_cons.mpr hv)
    have hstep : step (.literal u) c = ([], .literal (u ++ [c])) := if_neg (Ne.symm hc)
    show after (step (.literal u) c).2 v = _
    rw [hstep, ih hv, List.append_assoc]
    rfl

/-- A literal of the program, with text before and after it. -/
theorem Steady.literal {s v t : Text} (hs : s ≠ []) (hscalm : ∀ c ∈ s, calm c) (hv : '\'' ∉ v)
    (ht : t ≠ []) (htcalm : ∀ c ∈ t, calm c) :
    Steady ((s ++ '\'' :: v ++ '\'' :: t).map some) := by
  intro mode hmode
  obtain ⟨c, t, rfl⟩ := List.exists_cons_of_ne_nil ht
  obtain ⟨hc, ht⟩ := List.forall_mem_cons.mp htcalm
  obtain ⟨mode', hrun, hmode', hsome⟩ := run_calm hscalm hmode
  obtain ⟨m, rfl⟩ := Option.ne_none_iff_exists'.mp (hsome hs)
  have hopen : after m ['\''] = .literal [] := by
    match m, hmode' with
    | .gap, _ => rfl
    | .word w, _ => rfl
  have hquote : c ≠ '\'' := by
    rintro rfl
    cases hc
  have hclose : after (.literal v) ['\'', c] = (start c).2 := by
    show (step (.literalQuote v) c).2 = _
    rw [step, if_neg hquote]
    rfl
  have hsplit : s ++ '\'' :: v ++ '\'' :: c :: t = s ++ (['\''] ++ (v ++ (['\'', c] ++ t))) := by
    simp
  obtain ⟨mode', hlast, hmode', -⟩ := run_calm ht (ready_start hc)
  refine ⟨mode', ?_, hmode'⟩
  rw [hsplit, List.map_append, run_append, hrun, Option.bind_some, List.map_append, run_map_some,
    hopen, List.map_append, run_map_some, after_literal hv, List.nil_append, List.map_append,
    run_map_some, hclose, hlast]

/-! ## Lists of pieces -/

/-- The piece has no quotes and no comments. -/
def Piece.calm : Piece → Bool
  | .sql s => s.all Sql.calm
  | .place _ => false

theorem template_cons (p : Piece) (ps : List Piece) :
    template (p :: ps) = template [p] ++ template ps := template_append [p] ps

theorem places_append (ps qs : List Piece) : places (ps ++ qs) = places ps ++ places qs :=
  List.filterMap_append

/-- Pieces one by one. -/
theorem Steady.cons {p : Piece} {ps : List Piece} (hp : Steady (template [p]))
    (hps : Steady (template ps)) : Steady (template (p :: ps)) := by
  rw [template_cons]
  exact hp.append hps

theorem Steady.pieces {ps qs : List Piece} (hp : Steady (template ps)) (hq : Steady (template qs)) :
    Steady (template (ps ++ qs)) := by
  rw [template_append]
  exact hp.append hq

/-- Constant pieces without quotes. -/
theorem Steady.calm {ps : List Piece} (h : ps.all Piece.calm) : Steady (template ps) := by
  induction ps with
  | nil => exact .nil
  | cons p ps ih =>
    rw [List.all_cons, Bool.and_eq_true] at h
    refine .cons ?_ (ih h.2)
    cases p with
    | sql s =>
      show Steady (s.map some ++ [])
      rw [List.append_nil]
      exact .sql (List.all_eq_true.mp h.1)
    | place p => cases h.1

/-- A value after a text of the program. -/
theorem Steady.value {s : Text} (hne : s ≠ []) (hs : ∀ c ∈ s, Sql.calm c) (p : Place) :
    Steady (template [.sql s, .place p]) := .place hne hs

/-! ## Separators -/

theorem intercalate_cons_cons (s p q : List Piece) (parts : List (List Piece)) :
    s.intercalate (p :: q :: parts) = p ++ s ++ s.intercalate (q :: parts) := by
  simp [List.intercalate]

/-- The template of a separated list. -/
theorem template_intercalate (s : List Piece) (parts : List (List Piece)) :
    template (s.intercalate parts) = (template s).intercalate (parts.map template) := by
  match parts with
  | [] => rfl
  | [p] => simp [List.intercalate]
  | p :: q :: parts =>
    rw [intercalate_cons_cons, template_append, template_append,
      template_intercalate s (q :: parts)]
    simp [List.intercalate]

/-- A separator without values adds none. -/
theorem places_intercalate {s : List Piece} (hs : places s = []) (parts : List (List Piece)) :
    places (s.intercalate parts) = parts.flatMap places := by
  match parts with
  | [] => rfl
  | [p] => simp [List.intercalate]
  | p :: q :: parts =>
    rw [intercalate_cons_cons, places_append, places_append, hs, List.append_nil,
      places_intercalate hs (q :: parts), List.flatMap_cons (x := p)]

/-- A separated list is steady if its parts and the separator are. -/
theorem Steady.intercalate {s : List Piece} (hs : Steady (template s)) {parts : List (List Piece)}
    (h : ∀ p ∈ parts, Steady (template p)) : Steady (template (s.intercalate parts)) := by
  match parts with
  | [] => exact .nil
  | [p] =>
    rw [show s.intercalate [p] = p by simp [List.intercalate]]
    exact h p (List.mem_singleton.mpr rfl)
  | p :: q :: parts =>
    rw [intercalate_cons_cons]
    exact ((h p List.mem_cons_self).pieces hs).pieces
      (hs.intercalate fun r hr => h r (List.mem_cons_of_mem p hr))

/-- Values with a text before each. -/
theorem Steady.values {s : Text} (hne : s ≠ []) (hs : ∀ c ∈ s, Sql.calm c) (ps : List Place)
    {t : Text} (htne : t ≠ []) (ht : ∀ c ∈ t, Sql.calm c) :
    Steady (template (.sql t :: [.sql s].intercalate (ps.map fun p => [.place p]))) := by
  match ps with
  | [] => exact .calm (by simpa [Piece.calm] using ht)
  | [p] => exact .value htne ht p
  | p :: q :: ps =>
    have hrest := Steady.values hne hs (q :: ps) hne hs
    have hsplit : Piece.sql t :: [Piece.sql s].intercalate ((p :: q :: ps).map fun p => [.place p]) =
        [.sql t, .place p] ++
          (Piece.sql s :: [Piece.sql s].intercalate ((q :: ps).map fun p => [.place p])) := by
      simp [List.intercalate]
    rw [hsplit]
    exact (Steady.value htne ht p).pieces hrest

end Sem.Sql
