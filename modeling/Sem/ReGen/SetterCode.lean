import Mathlib.Data.List.Infix
import Sem.Lib.Precedence
import Sem.ReGen.GeneralFunctions

/-!
# Code of setters and boolean expressions (`component_functions.xsl`)

A Setter or a BooleanExpression is two operands with an operator between them. The code generator
writes the three texts one after the other; MEDEA's label of a setter (`setter.cpp`) puts the
operands in parentheses.

* `parses_iff`: the code has its operands as units exactly where their outermost operators bind
  tightly enough for the place that they are written to.
* `parse_label_iff`: an operand that the label puts in parentheses is a unit of it.
-/

namespace Sem.ReGen.Setters

open Xml (Text)
open Precedence (Token Expr Grammar)

/-- The operators of C++ that setters and expressions may have. -/
inductive Operator where
  | assign
  | addAssign
  | subAssign
  | mulAssign
  | divAssign
  | or
  | and
  | eq
  | ne
  | lt
  | gt
  | le
  | ge
  | add
  | sub
  | mul
  | div
deriving DecidableEq, Repr

namespace Operator

/-- The operator as it is written. -/
def text : Operator → Text
  | assign => lit "="
  | addAssign => lit "+="
  | subAssign => lit "-="
  | mulAssign => lit "*="
  | divAssign => lit "/="
  | or => lit "||"
  | and => lit "&&"
  | eq => lit "=="
  | ne => lit "!="
  | lt => lit "<"
  | gt => lit ">"
  | le => lit "<="
  | ge => lit ">="
  | add => lit "+"
  | sub => lit "-"
  | mul => lit "*"
  | div => lit "/"

/-- The precedence of C++. -/
def level : Operator → ℕ
  | assign | addAssign | subAssign | mulAssign | divAssign => 0
  | or => 1
  | and => 2
  | eq | ne => 3
  | lt | gt | le | ge => 4
  | add | sub => 5
  | mul | div => 6

/-- `x += y` is `x = x + y`. -/
def compound? : Operator → Option Operator
  | addAssign => some add
  | subAssign => some sub
  | mulAssign => some mul
  | divAssign => some div
  | _ => none

theorem text_ne_nil (o : Operator) : o.text ≠ [] := by cases o <;> decide

end Operator

/-- Assignments group to the right. -/
def cpp : Grammar Operator where
  level := Operator.level
  rightAssoc m := m = 0

/-- How a compiler reads a text: as operands (names, literals and calls, with all that is inside
them), operators and parentheses. An operator with blanks around it is read alone. -/
structure Lexer (A : Type) where
  lex : Text → Option (List (Token A Operator))
  lex_nil : lex [] = some []
  lex_op : ∀ s t ts us o, lex s = some ts → lex t = some us →
    lex (s ++ ' ' :: (o.text ++ ' ' :: t)) = some (ts ++ .op o :: us)
  lex_wrap : ∀ s ts, lex s = some ts →
    lex ('(' :: (s ++ [')'])) = some (.lparen :: (ts ++ [.rparen]))

/-- The text as an expression. -/
def Lexer.parse {A : Type} (L : Lexer A) (s : Text) : Option (Expr A Operator) :=
  (L.lex s).bind cpp.parse

/-! ## The code generator -/

/-- `o:wrap_dblquote`. -/
def wrapDblquote (str : Text) : Text := '"' :: (str ++ ['"'])

/-- What a data edge into a node comes from. Only the frequency of a periodic port is set by a
call; of other entities, the two texts of `cdit:get_mutable_get_function` are given. -/
inductive Source where
  | frequency (port : Text)
  | other (getter : Bool → Text)

/-- `cdit:get_mutable_get_function`. -/
def Source.getMutableGetFunction : Source → Bool → Text
  | frequency port, true => lit "SetPeriodicFrequency(" ++ wrapDblquote port
  | frequency port, false => lit "GetPeriodicFrequency(" ++ wrapDblquote port ++ lit ")"
  | other getter, mutable => getter mutable

/-- An input parameter, with the nodes that its value comes from. -/
structure Parameter where
  id : Text
  label : Text
  value : Text
  sources : List Source

namespace Parameter

/-- `cdit:get_resolved_getter_function`, where blanks are not allowed. -/
def getResolvedGetterFunction (node : Parameter) (mutable : Bool) : Text :=
  match node.sources.head? with
  | some source => source.getMutableGetFunction mutable
  | none =>
    if node.value ≠ [] then node.value
    else lit "/* Warning: ID: " ++ node.id ++ lit " No Value Set */"

/-- `cdit:has_referential_setter_func`. -/
def hasReferentialSetterFunc (node : Parameter) : Bool :=
  match node.sources.head? with
  | some (.frequency _) => false
  | _ => true

end Parameter

/-- A setter or an expression, with the variable that it may define. -/
structure Node extends Parameter where
  variableName : Text
  inputParameters : List Parameter

/-- The result of the operator goes to a variable. -/
def needsVariable (operator : Text) : Bool :=
  operator ∈ [lit "-", lit "+", lit "/", lit "*"]

/-- The operator changes its left operand. -/
def isMutating (operator : Text) : Bool :=
  operator ∈ [lit "-=", lit "+=", lit "/=", lit "*=", lit "="]

/-- The variable `$statement` of `cdit:generate_setter_code`. -/
def setterStatement (lhs operator rhs : Parameter) : Text :=
  let constRhs := rhs.getResolvedGetterFunction false
  let lhsText := lhs.getResolvedGetterFunction (isMutating operator.label)
  if isMutating operator.label ∧ lhs.hasReferentialSetterFunc = false then
    let value :=
      if operator.label = lit "=" then constRhs
      else
        -- `substring($operator, 1, 1)` drops the `=`.
        joinList [lhs.getResolvedGetterFunction false, operator.label.take 1, constRhs] ' '
    lhsText ++ lit ", " ++ value ++ lit ")"
  else joinList [lhsText, operator.label, constRhs] ' '

/-- `cpp:define_variable` of an `auto` variable. -/
def defineVariable (name value : Text) (tab : ℕ) : Text :=
  List.replicate tab '\t' ++
    joinList [lit "auto", (lit " = ").intercalate (trimList [name, value])] ' ' ++ lit ";\n"

/-- `cdit:generate_setter_code`. -/
def generateSetterCode (node : Node) (tab : ℕ) (inLine : Bool) : Text :=
  match node.inputParameters with
  | [lhs, operator, rhs] =>
    let statement := setterStatement lhs operator rhs
    if inLine then statement
    else if needsVariable operator.label then defineVariable node.variableName statement tab
    else List.replicate tab '\t' ++ statement ++ lit ";\n"
  | _ => []

/-- The variable `$statement` of `cdit:generate_boolean_expression_code`. -/
def booleanStatement (node : Node) : Text :=
  if node.sources.length = 1 then node.getResolvedGetterFunction false
  else
    match node.inputParameters with
    | [lhs, operator, rhs] =>
      lhs.getResolvedGetterFunction false ++ lit " " ++ operator.label ++ lit " " ++
        rhs.getResolvedGetterFunction false
    | _ => []

/-- `cdit:generate_boolean_expression_code`. -/
def generateBooleanExpressionCode (node : Node) (tab : ℕ) (inLine : Bool) : Text :=
  if inLine then booleanStatement node
  else defineVariable node.variableName (booleanStatement node) tab

/-! ## The label -/

/-- The operators for which a value gets parentheses. -/
def spacedOperators : List Text := [lit " + ", lit " - ", lit " * ", lit " / "]

/-- A value with such an operator in it. -/
def isSpaced (str : Text) : Bool := spacedOperators.any fun op => op <:+: str

/-- `GetWrappedString`. -/
def getWrappedString (str : Text) : Text := if isSpaced str then '(' :: (str ++ [')']) else str

/-- `Setter::updateLabel`. -/
def updateLabel (lhs operator rhs : Parameter) : Text :=
  let lhsValue := getWrappedString lhs.value
  let rhsValue := getWrappedString rhs.value
  if lhsValue ≠ [] ∧ rhsValue ≠ [] then lhsValue ++ lit " " ++ operator.label ++ lit " " ++ rhsValue
  else lit "???"

/-! ## What the code is read as -/

namespace Lexer

variable {A : Type} (L : Lexer A) {s t : Text} {l r : Expr A Operator}

theorem parse_eq_some_iff : L.parse s = some l ↔ ∃ ts, L.lex s = some ts ∧ cpp.parse ts = some l :=
  Option.bind_eq_some_iff

theorem ne_nil_of_parse (h : L.parse s = some l) : s ≠ [] := by
  rintro rfl
  obtain ⟨ts, hlex, hparse⟩ := L.parse_eq_some_iff.mp h
  rw [L.lex_nil] at hlex
  cases hlex
  cases hparse

/-- An operator with blanks around it. -/
theorem parse_op_iff (o : Operator) (hl : L.parse s = some l) (hr : L.parse t = some r) :
    L.parse (s ++ ' ' :: (o.text ++ ' ' :: t)) = some (.bin o l r) ↔ cpp.Joins o l r := by
  obtain ⟨ts, hlex, hl⟩ := L.parse_eq_some_iff.mp hl
  obtain ⟨us, hlex', hr⟩ := L.parse_eq_some_iff.mp hr
  rw [parse, L.lex_op s t ts us o hlex hlex']
  exact cpp.parse_op_iff o hl hr

theorem parse_wrap (h : L.parse s = some l) : L.parse ('(' :: (s ++ [')'])) = some (.paren l) := by
  obtain ⟨ts, hlex, h⟩ := L.parse_eq_some_iff.mp h
  rw [parse, L.lex_wrap s ts hlex]
  exact cpp.parse_paren h

end Lexer

theorem joinList_three {s t u : Text} (hs : s ≠ []) (ht : t ≠ []) (hu : u ≠ []) :
    joinList [s, t, u] ' ' = s ++ ' ' :: (t ++ ' ' :: u) := by
  simp [joinList, trimList, hs, ht, hu, List.intercalate]

/-- Outside the call of a setter, the code is the three texts with blanks between them. -/
theorem parse_joined_iff {A : Type} (L : Lexer A) {s t op : Text} {o : Operator}
    {l r : Expr A Operator} (ho : op = o.text) (hl : L.parse s = some l)
    (hr : L.parse t = some r) :
    L.parse (joinList [s, op, t] ' ') = some (.bin o l r) ↔ cpp.Joins o l r := by
  subst ho
  rw [joinList_three (L.ne_nil_of_parse hl) o.text_ne_nil (L.ne_nil_of_parse hr)]
  exact L.parse_op_iff o hl hr

theorem generateSetterCode_of_three {node : Node} {lhs operator rhs : Parameter} {tab : ℕ}
    (h : node.inputParameters = [lhs, operator, rhs]) :
    generateSetterCode node tab true = setterStatement lhs operator rhs := by
  simp [generateSetterCode, h]

/-- Where the statement is not part of another, it gets its own line. -/
theorem generateSetterCode_line {node : Node} {lhs operator rhs : Parameter} {tab : ℕ}
    (h : node.inputParameters = [lhs, operator, rhs]) :
    generateSetterCode node tab false =
      if needsVariable operator.label then
        defineVariable node.variableName (generateSetterCode node tab true) tab
      else List.replicate tab '\t' ++ generateSetterCode node tab true ++ lit ";\n" := by
  simp [generateSetterCode, h]

/-- The setter is a call, with the new value as its last argument. -/
def IsCall (lhs : Parameter) (o : Operator) : Prop :=
  isMutating o.text ∧ lhs.hasReferentialSetterFunc = false

instance (lhs : Parameter) (o : Operator) : Decidable (IsCall lhs o) :=
  inferInstanceAs (Decidable (_ ∧ _))

/-- The left operand, in a call the text of its getter. -/
def lhsText (lhs : Parameter) (o : Operator) : Text :=
  lhs.getResolvedGetterFunction (isMutating o.text && lhs.hasReferentialSetterFunc)

/-- The value of the assignment. -/
def assigned {A : Type} (o : Operator) (l r : Expr A Operator) : Expr A Operator :=
  match o.compound? with
  | some b => .bin b l r
  | none => r

/-- The code of the setter has the operands `l` and `r` as units, and a call gets the value that
the assignment has. -/
def SetterKeeps {A : Type} (L : Lexer A) (node : Node) (tab : ℕ) (lhs : Parameter) (o : Operator)
    (l r : Expr A Operator) : Prop :=
  if IsCall lhs o then
    ∃ value, generateSetterCode node tab true =
        lhs.getResolvedGetterFunction true ++ lit ", " ++ value ++ lit ")" ∧
      L.parse value = some (assigned o l r)
  else L.parse (generateSetterCode node tab true) = some (.bin o l r)

/-- The operators in `l` and `r` let the operator that is written between them join them. In a call
with `=` none is written. -/
def SetterJoins {A : Type} (lhs : Parameter) (o : Operator) (l r : Expr A Operator) : Prop :=
  if IsCall lhs o then ∀ b ∈ o.compound?, cpp.Joins b l r else cpp.Joins o l r

instance {A : Type} (lhs : Parameter) (o : Operator) (l r : Expr A Operator) :
    Decidable (SetterJoins lhs o l r) :=
  inferInstanceAs
    (Decidable (if IsCall lhs o then ∀ b ∈ o.compound?, cpp.Joins b l r else cpp.Joins o l r))

theorem text_eq_assign_iff {o : Operator} : o.text = lit "=" ↔ o = .assign := by
  cases o <;> decide

/-- The operator without its `=`. -/
theorem take_text_of_mutating {o : Operator} (h : isMutating o.text) (hne : o ≠ .assign) :
    ∃ b, o.compound? = some b ∧ o.text.take 1 = b.text := by
  cases o with
  | assign => exact absurd rfl hne
  | addAssign => exact ⟨.add, rfl, rfl⟩
  | subAssign => exact ⟨.sub, rfl, rfl⟩
  | mulAssign => exact ⟨.mul, rfl, rfl⟩
  | divAssign => exact ⟨.div, rfl, rfl⟩
  | _ => exact absurd h (by decide)

variable {A : Type} (L : Lexer A) {node : Node} {tab : ℕ} {lhs operator rhs : Parameter}
  {o : Operator} {l r : Expr A Operator}

/-- The value in the call of a setter. -/
def callValue (lhs : Parameter) (o : Operator) (rhs : Parameter) : Text :=
  if o.text = lit "=" then rhs.getResolvedGetterFunction false
  else
    joinList [lhs.getResolvedGetterFunction false, o.text.take 1,
      rhs.getResolvedGetterFunction false] ' '

theorem setterStatement_of_isCall (ho : operator.label = o.text) (hcall : IsCall lhs o) :
    setterStatement lhs operator rhs =
      lhs.getResolvedGetterFunction true ++ lit ", " ++ callValue lhs o rhs ++ lit ")" := by
  obtain ⟨hmut, hset⟩ := hcall
  simp [setterStatement, callValue, ho, hmut, hset]

theorem setterStatement_of_not_isCall (ho : operator.label = o.text) (hcall : ¬IsCall lhs o) :
    setterStatement lhs operator rhs =
      joinList [lhsText lhs o, o.text, rhs.getResolvedGetterFunction false] ' ' := by
  have hlhs : lhsText lhs o = lhs.getResolvedGetterFunction (isMutating o.text) := by
    unfold lhsText
    cases hmut : isMutating o.text with
    | false => rfl
    | true =>
      cases hset : lhs.hasReferentialSetterFunc with
      | false => exact absurd ⟨hmut, hset⟩ hcall
      | true => rfl
  rw [hlhs, setterStatement, ho]
  exact if_neg hcall

/-- The value of a call is determined by the code around it. -/
theorem exists_value_iff {s t v : Text} {e : Expr A Operator} :
    (∃ value, s ++ v ++ t = s ++ value ++ t ∧ L.parse value = some e) ↔ L.parse v = some e := by
  constructor
  · rintro ⟨value, heq, hparse⟩
    rwa [List.append_cancel_left (List.append_cancel_right heq)]
  · exact fun hparse => ⟨v, rfl, hparse⟩

theorem parse_callValue_iff (hmut : isMutating o.text)
    (hl : L.parse (lhs.getResolvedGetterFunction false) = some l)
    (hr : L.parse (rhs.getResolvedGetterFunction false) = some r) :
    L.parse (callValue lhs o rhs) = some (assigned o l r) ↔
      ∀ b ∈ o.compound?, cpp.Joins b l r := by
  by_cases heq : o = .assign
  · subst heq
    rw [callValue, if_pos (text_eq_assign_iff.mpr rfl)]
    exact iff_of_true hr (by simp [Operator.compound?])
  · obtain ⟨b, hb, htext⟩ := take_text_of_mutating hmut heq
    rw [callValue, if_neg (text_eq_assign_iff.not.mpr heq), assigned, hb,
      show (∀ b' ∈ some b, cpp.Joins b' l r) ↔ cpp.Joins b l r by simp]
    exact parse_joined_iff L htext hl hr

theorem setterKeeps_iff (hnode : node.inputParameters = [lhs, operator, rhs])
    (ho : operator.label = o.text) (hl : L.parse (lhsText lhs o) = some l)
    (hr : L.parse (rhs.getResolvedGetterFunction false) = some r) :
    SetterKeeps L node tab lhs o l r ↔ SetterJoins lhs o l r := by
  unfold SetterKeeps SetterJoins
  rw [generateSetterCode_of_three hnode]
  by_cases hcall : IsCall lhs o
  · have hlhs : lhsText lhs o = lhs.getResolvedGetterFunction false := by
      rw [lhsText, hcall.2, Bool.and_false]
    rw [hlhs] at hl
    rw [if_pos hcall, if_pos hcall, setterStatement_of_isCall ho hcall, exists_value_iff]
    exact parse_callValue_iff L hcall.1 hl hr
  · rw [if_neg hcall, if_neg hcall, setterStatement_of_not_isCall ho hcall]
    exact parse_joined_iff L rfl hl hr

theorem boolean_iff (hnode : node.inputParameters = [lhs, operator, rhs])
    (ho : operator.label = o.text) (hsources : node.sources.length ≠ 1)
    (hl : L.parse (lhs.getResolvedGetterFunction false) = some l)
    (hr : L.parse (rhs.getResolvedGetterFunction false) = some r) :
    L.parse (generateBooleanExpressionCode node tab true) = some (.bin o l r) ↔
      cpp.Joins o l r := by
  have hcode : generateBooleanExpressionCode node tab true =
      lhs.getResolvedGetterFunction false ++
        ' ' :: (o.text ++ ' ' :: rhs.getResolvedGetterFunction false) := by
    simp [generateBooleanExpressionCode, booleanStatement, hsources, hnode, ho, lit]
  rw [hcode]
  exact L.parse_op_iff o hl hr

/-- What of the label are its operands. -/
theorem parse_getWrappedString {s : Text} {e : Expr A Operator} (h : L.parse s = some e) :
    L.parse (getWrappedString s) = some (if isSpaced s then .paren e else e) := by
  unfold getWrappedString
  split
  · exact L.parse_wrap h
  · exact h

/-- The label of a setter has the same shape, with the operands wrapped. -/
theorem parse_label_iff (ho : operator.label = o.text) (hl : L.parse lhs.value = some l)
    (hr : L.parse rhs.value = some r) :
    L.parse (updateLabel lhs operator rhs) = some (.bin o
        (if isSpaced lhs.value then .paren l else l) (if isSpaced rhs.value then .paren r else r)) ↔
      (isSpaced lhs.value ∨ cpp.AtLeast (cpp.leftLevel o) l) ∧
        (isSpaced rhs.value ∨ cpp.AtLeast (cpp.rightLevel o) r) := by
  have hl' := parse_getWrappedString L hl
  have hr' := parse_getWrappedString L hr
  have hlabel : updateLabel lhs operator rhs =
      getWrappedString lhs.value ++ ' ' :: (o.text ++ ' ' :: getWrappedString rhs.value) := by
    rw [updateLabel, if_pos ⟨L.ne_nil_of_parse hl', L.ne_nil_of_parse hr'⟩, ho]
    simp [lit]
  rw [hlabel, L.parse_op_iff o hl' hr', Grammar.Joins]
  have hparen : ∀ (m : ℕ) (b : Bool) (e : Expr A Operator),
      cpp.AtLeast m (if b then .paren e else e) ↔ b ∨ cpp.AtLeast m e := by
    intro m b e
    cases b with
    | false => simp
    | true => simp [Grammar.AtLeast]
  rw [hparen, hparen]

/-! ## Tokens between blanks -/

/-- All operators. -/
def operators : List Operator :=
  [.assign, .addAssign, .subAssign, .mulAssign, .divAssign, .or, .and, .eq, .ne, .lt, .gt, .le, .ge,
    .add, .sub, .mul, .div]

/-- The token of a piece of code between blanks. -/
def pieceTokens (piece : Text) : List (Token Text Operator) :=
  if piece = [] then []
  else
    match operators.find? fun o => o.text = piece with
    | some o => [.op o]
    | none => [.operand piece]

/-- The first number is how many parentheses of calls are open, the first text what of the current
operand or operator has been read. -/
def scan : ℕ → Text → Text → Option (List (Token Text Operator))
  | 0, piece, [] => some (pieceTokens piece)
  | _ + 1, _, [] => none
  | 0, piece, c :: s =>
    if c = ' ' then (scan 0 [] s).map (pieceTokens piece ++ ·)
    else if c = ')' then (scan 0 [] s).map fun ts => pieceTokens piece ++ .rparen :: ts
    else if c = '(' then
      if piece = [] then (scan 0 [] s).map (.lparen :: ·) else scan 1 (piece ++ [c]) s
    else scan 0 (piece ++ [c]) s
  | d + 1, piece, c :: s =>
    if c = '(' then scan (d + 2) (piece ++ [c]) s
    else if c = ')' then scan d (piece ++ [c]) s
    else scan (d + 1) (piece ++ [c]) s

/-- What is read after a blank, or after a closing parenthesis, does not depend on what is before
it. -/
theorem scan_append {u : Text} {us ws : List (Token Text Operator)}
    (hu : ∀ piece, scan 0 piece u = some (pieceTokens piece ++ us)) {d : ℕ} {piece s : Text}
    (h : scan d piece s = some ws) : scan d piece (s ++ u) = some (ws ++ us) := by
  fun_induction scan d piece s generalizing ws with
  | case1 piece =>
    obtain rfl := Option.some.inj h
    exact hu piece
  | case2 => cases h
  | case3 piece s ih =>
    obtain ⟨ts, hts, rfl⟩ := Option.map_eq_some_iff.mp h
    simp [scan, ih hts]
  | case4 piece s _ ih =>
    obtain ⟨ts, hts, rfl⟩ := Option.map_eq_some_iff.mp h
    simp [scan, ih hts]
  | case5 s _ _ ih =>
    obtain ⟨ts, hts, rfl⟩ := Option.map_eq_some_iff.mp h
    simp [scan, ih hts]
  | case6 piece s hne _ _ ih => simp [scan, hne, ih h]
  | case7 piece c s h1 h2 h3 ih => simp [scan, h1, h2, h3, ih h]
  | case8 d piece s ih => simp [scan, ih h]
  | case9 d piece s _ ih => simp [scan, ih h]
  | case10 d piece c s h1 h2 ih => simp [scan, h1, h2, ih h]

/-- A compiler for texts with blanks around their operators. -/
def blankLexer : Lexer Text where
  lex := scan 0 []
  lex_nil := rfl
  lex_op s t ts us o hs ht := by
    refine scan_append (fun piece => ?_) hs
    have hop : scan 0 [] (o.text ++ ' ' :: t) = some (.op o :: us) := by
      cases o <;> simp [Operator.text, lit, scan, ht, pieceTokens, operators]
    rw [scan, if_pos rfl, hop]
    rfl
  lex_wrap s ts hs := by
    have hclose : scan 0 [] (s ++ [')']) = some (ts ++ [.rparen]) :=
      scan_append (fun piece => by simp [scan, pieceTokens]) hs
    simp [scan, hclose]

/-- A parameter with a value and no data edge. -/
def valueParameter (value : Text) : Parameter := ⟨[], value, value, []⟩

/-- The frequency of a periodic port. -/
def frequencyParameter : Parameter := ⟨[], [], [], [.frequency (lit "tick")]⟩

/-- A setter of three parameters. -/
def nodeOf (lhs operator rhs : Parameter) : Node where
  toParameter := valueParameter []
  variableName := lit "setter_1"
  inputParameters := [lhs, operator, rhs]

/-- The code of a Setter or a BooleanExpression parses as its operator with the expressions of both
operands, and a call gets the value of `x op (rhs)`, exactly where the operators in the operands let
the operator between them join them. -/
theorem parses_iff {A : Type} (L : Lexer A) (node : Node) (tab : ℕ) (lhs operator rhs : Parameter)
    (o : Operator) (l r : Expr A Operator)
    (hnode : node.inputParameters = [lhs, operator, rhs]) (ho : operator.label = o.text)
    (hr : L.parse (rhs.getResolvedGetterFunction false) = some r) :
    (L.parse (lhsText lhs o) = some l →
        (SetterKeeps L node tab lhs o l r ↔ SetterJoins lhs o l r)) ∧
      (node.sources.length ≠ 1 → L.parse (lhs.getResolvedGetterFunction false) = some l →
        (L.parse (generateBooleanExpressionCode node tab true) = some (.bin o l r) ↔
          cpp.Joins o l r)) :=
  ⟨fun hl => setterKeeps_iff L hnode ho hl hr,
    fun hsources hl => boolean_iff L hnode ho hsources hl hr⟩

/-- `a + b * c` is not `a + b` times `c`, the frequency times `a + b` loses `b` from the product,
and `a || b && c` is not `a || b` with `c`. -/
theorem not_setterKeeps :
    let a := Expr.operand (lit "a")
    let b := Expr.operand (lit "b")
    let c := Expr.operand (lit "c")
    let getter := Expr.operand (lit "GetPeriodicFrequency(\"tick\")")
    let product := nodeOf (valueParameter (lit "a + b")) (valueParameter (lit "*"))
      (valueParameter (lit "c"))
    let call := nodeOf frequencyParameter (valueParameter (lit "*=")) (valueParameter (lit "a + b"))
    let condition := nodeOf (valueParameter (lit "a || b")) (valueParameter (lit "&&"))
      (valueParameter (lit "c"))
    (blankLexer.parse (lit "a + b") = some (.bin .add a b) ∧
      blankLexer.parse (lit "c") = some c ∧
      generateSetterCode product 0 true = lit "a + b * c" ∧
      blankLexer.parse (lit "a + b * c") = some (.bin .add a (.bin .mul b c)) ∧
      ¬SetterKeeps blankLexer product 0 (valueParameter (lit "a + b")) .mul (.bin .add a b) c) ∧
    (blankLexer.parse (lhsText frequencyParameter .mulAssign) = some getter ∧
      generateSetterCode call 0 true =
        lit "SetPeriodicFrequency(\"tick\", GetPeriodicFrequency(\"tick\") * a + b)" ∧
      ¬SetterKeeps blankLexer call 0 frequencyParameter .mulAssign getter (.bin .add a b)) ∧
    blankLexer.parse (lit "a || b") = some (.bin .or a b) ∧
      generateBooleanExpressionCode condition 0 true = lit "a || b && c" ∧
      blankLexer.parse (lit "a || b && c") = some (.bin .or a (.bin .and b c)) := by
  refine ⟨⟨rfl, rfl, rfl, rfl, ?_⟩, ⟨rfl, rfl, ?_⟩, rfl, rfl, rfl⟩
  · rw [setterKeeps_iff blankLexer rfl rfl rfl rfl]
    decide
  · rw [setterKeeps_iff blankLexer rfl rfl rfl rfl]
    decide

/-- `(a - b) * c`, and the frequency with `+= a * b` and with `*= (a + b)`. -/
theorem parses_iff_blanks :
    SetterKeeps blankLexer
        (nodeOf (valueParameter (lit "(a - b)")) (valueParameter (lit "*"))
          (valueParameter (lit "c")))
        0 (valueParameter (lit "(a - b)")) .mul
        (.paren (.bin .sub (.operand (lit "a")) (.operand (lit "b")))) (.operand (lit "c")) ∧
      SetterKeeps blankLexer
        (nodeOf frequencyParameter (valueParameter (lit "+=")) (valueParameter (lit "a * b")))
        0 frequencyParameter .addAssign (.operand (lit "GetPeriodicFrequency(\"tick\")"))
        (.bin .mul (.operand (lit "a")) (.operand (lit "b"))) ∧
      blankLexer.parse (generateBooleanExpressionCode
        (nodeOf (valueParameter (lit "a + b")) (valueParameter (lit "<"))
          (valueParameter (lit "f(c)"))) 0 true) =
        some (.bin .lt (.bin .add (.operand (lit "a")) (.operand (lit "b")))
          (.operand (lit "f(c)"))) :=
  ⟨((parses_iff blankLexer _ 0 _ _ _ .mul _ _ rfl rfl rfl).1 rfl).mpr (by decide),
    ((parses_iff blankLexer _ 0 _ _ _ .addAssign _ _ rfl rfl rfl).1 rfl).mpr (by decide),
    ((parses_iff blankLexer _ 0 _ _ _ .lt _ _ rfl rfl rfl).2 (by decide) rfl).mpr (by decide)⟩

end Sem.ReGen.Setters
