import Mathlib.Data.List.Basic
import Mathlib.Order.Nat

/-!
# Expressions of binary operators

An expression is an operand, an expression in parentheses, or two expressions with an operator
between them. A `Grammar` gives the operators their levels; the operators of one level group all to
the left or all to the right. `Grammar.parse` is the precedence climbing parser.

* `Grammar.parse_eq_some_iff`: the parser returns exactly the well-grouped expressions of its
  tokens, so they have at most one.
* `Grammar.parse_op_iff`: when an operator between the tokens of two expressions applies to them.
-/

namespace Sem.Precedence

variable {A Op : Type}

/-- Operands, operators and parentheses. -/
inductive Token (A Op : Type) where
  | operand (a : A)
  | op (o : Op)
  | lparen
  | rparen
deriving DecidableEq, Repr

/-- A syntax tree in which the parentheses are kept. -/
inductive Expr (A Op : Type) where
  | operand (a : A)
  | paren (e : Expr A Op)
  | bin (o : Op) (l r : Expr A Op)
deriving DecidableEq, Repr

/-- The tokens of a tree, in order. -/
def Expr.tokens : Expr A Op → List (Token A Op)
  | operand a => [.operand a]
  | paren e => .lparen :: (e.tokens ++ [.rparen])
  | bin o l r => l.tokens ++ .op o :: r.tokens

/-- Operators of higher levels bind more tightly. -/
structure Grammar (Op : Type) where
  level : Op → ℕ
  rightAssoc : ℕ → Bool

namespace Grammar

variable (G : Grammar Op)

/-- The least level of what may stand to the left of `o`. -/
def leftLevel (o : Op) : ℕ := if G.rightAssoc (G.level o) then G.level o + 1 else G.level o

/-- The least level of what may stand to the right of `o`. -/
def rightLevel (o : Op) : ℕ := if G.rightAssoc (G.level o) then G.level o else G.level o + 1

/-- The outermost operator, if there is one outside parentheses, has at least level `m`. -/
def AtLeast (m : ℕ) : Expr A Op → Prop
  | .bin o _ _ => m ≤ G.level o
  | _ => True

instance (m : ℕ) (e : Expr A Op) : Decidable (G.AtLeast m e) := by
  cases e <;> unfold AtLeast <;> infer_instance

/-- Each operator has operands that its place allows. -/
def WF : Expr A Op → Prop
  | .operand _ => True
  | .paren e => WF e
  | .bin o l r => WF l ∧ WF r ∧ G.AtLeast (G.leftLevel o) l ∧ G.AtLeast (G.rightLevel o) r

/-- `o` may stand between these two. -/
def Joins (o : Op) (l r : Expr A Op) : Prop :=
  G.AtLeast (G.leftLevel o) l ∧ G.AtLeast (G.rightLevel o) r

instance (o : Op) (l r : Expr A Op) : Decidable (G.Joins o l r) :=
  inferInstanceAs (Decidable (_ ∧ _))

mutual

/-- An expression of at least level `m` at the head of the tokens, and the tokens after it. -/
def parseFrom : ℕ → ℕ → List (Token A Op) → Option (Expr A Op × List (Token A Op))
  | n + 1, m, .operand a :: ts => climb n m (.operand a) ts
  | n + 1, m, .lparen :: ts =>
    match parseFrom n 0 ts with
    | some (e, .rparen :: ts) => climb n m (.paren e) ts
    | _ => none
  | _, _, _ => none

/-- The operators of at least level `m` that follow the expression `l`. -/
def climb : ℕ → ℕ → Expr A Op → List (Token A Op) → Option (Expr A Op × List (Token A Op))
  | n + 1, m, l, .op o :: ts =>
    if m ≤ G.level o then
      match parseFrom n (G.rightLevel o) ts with
      | some (r, ts) => climb n m (.bin o l r) ts
      | none => none
    else some (l, .op o :: ts)
  | _ + 1, _, l, ts => some (l, ts)
  | 0, _, _, _ => none

end

/-- All tokens, as one expression. -/
def parse (ts : List (Token A Op)) : Option (Expr A Op) :=
  match G.parseFrom (ts.length + 1) 0 ts with
  | some (e, []) => some e
  | _ => none

variable {G}

theorem AtLeast.mono {m k : ℕ} {e : Expr A Op} (h : G.AtLeast m e) (hk : k ≤ m) :
    G.AtLeast k e := by
  cases e with
  | operand _ => trivial
  | paren _ => trivial
  | bin o l r => exact hk.trans h

variable (G)

theorem atLeast_zero (e : Expr A Op) : G.AtLeast 0 e := by
  cases e with
  | operand _ => trivial
  | paren _ => trivial
  | bin o l r => exact Nat.zero_le _

theorem level_le_leftLevel (o : Op) : G.level o ≤ G.leftLevel o := by
  unfold leftLevel
  split <;> omega

theorem level_le_rightLevel (o : Op) : G.level o ≤ G.rightLevel o := by
  unfold rightLevel
  split <;> omega

/-- After an operator, the expression to its right ends where the operator and what it joins can
stand to the left of the next one. -/
theorem lt_rightLevel_iff (o o' : Op) :
    G.level o' < G.rightLevel o ↔ G.leftLevel o' ≤ G.level o := by
  unfold rightLevel leftLevel
  by_cases heq : G.level o' = G.level o
  · rw [heq]
    split <;> omega
  · split <;> split <;> omega

/-- The operator at the head of the tokens, if there is one, has this property. -/
def Next (P : Op → Prop) (ts : List (Token A Op)) : Prop :=
  ∀ o us, ts = .op o :: us → P o

/-! ## Soundness -/

/-- What the parser promises of an expression and the tokens after it. -/
structure Parsed (m : ℕ) (ts : List (Token A Op)) (e : Expr A Op) (rest : List (Token A Op)) :
    Prop where
  wf : G.WF e
  atLeast : G.AtLeast m e
  tokens : e.tokens ++ rest = ts
  next : Next (G.level · < m) rest

theorem sound (n : ℕ) :
    (∀ m ts e rest, G.parseFrom (A := A) n m ts = some (e, rest) → G.Parsed m ts e rest) ∧
      ∀ m l ts e rest, G.climb (A := A) n m l ts = some (e, rest) → G.WF l → G.AtLeast m l →
        Next (fun o => m ≤ G.level o → G.AtLeast (G.leftLevel o) l) ts →
          G.Parsed m (l.tokens ++ ts) e rest := by
  induction n with
  | zero => constructor <;> simp [parseFrom, climb]
  | succ n ih =>
    obtain ⟨ihParse, ihClimb⟩ := ih
    constructor
    · intro m ts e rest h
      match ts with
      | .operand a :: ts =>
        rw [parseFrom] at h
        exact ihClimb m _ ts e rest h trivial trivial fun _ _ _ _ => trivial
      | .lparen :: ts =>
        rw [parseFrom] at h
        split at h
        · rename_i e' us hparse
          have hp := ihParse 0 ts e' _ hparse
          have hc := ihClimb m (.paren e') us e rest h hp.wf trivial fun _ _ _ _ => trivial
          refine ⟨hc.wf, hc.atLeast, ?_, hc.next⟩
          rw [hc.tokens, ← hp.tokens]
          simp [Expr.tokens]
        · cases h
      | [] => simp [parseFrom] at h
      | .op _ :: _ => simp [parseFrom] at h
      | .rparen :: _ => simp [parseFrom] at h
    · intro m l ts e rest h hwf hl hnext
      match ts with
      | .op o :: ts =>
        rw [climb] at h
        split at h
        · rename_i hle
          split at h
          · rename_i r us hparse
            have hp := ihParse _ ts r us hparse
            have hc := ihClimb m (.bin o l r) us e rest h
              ⟨hwf, hp.wf, hnext o ts rfl hle, hp.atLeast⟩ hle
              fun o' vs hus _ => (G.lt_rightLevel_iff o o').mp (hp.next o' vs hus)
            refine ⟨hc.wf, hc.atLeast, ?_, hc.next⟩
            rw [hc.tokens, ← hp.tokens]
            simp [Expr.tokens]
          · cases h
        · rename_i hlt
          obtain ⟨rfl, rfl⟩ := Prod.mk.inj (Option.some.inj h)
          refine ⟨hwf, hl, rfl, ?_⟩
          intro o' us heq
          cases heq
          exact not_le.mp hlt
      | [] =>
        obtain ⟨rfl, rfl⟩ := Prod.mk.inj (Option.some.inj h)
        exact ⟨hwf, hl, rfl, by simp [Next]⟩
      | .operand _ :: _ =>
        obtain ⟨rfl, rfl⟩ := Prod.mk.inj (Option.some.inj h)
        exact ⟨hwf, hl, rfl, by simp [Next]⟩
      | .lparen :: _ =>
        obtain ⟨rfl, rfl⟩ := Prod.mk.inj (Option.some.inj h)
        exact ⟨hwf, hl, rfl, by simp [Next]⟩
      | .rparen :: _ =>
        obtain ⟨rfl, rfl⟩ := Prod.mk.inj (Option.some.inj h)
        exact ⟨hwf, hl, rfl, by simp [Next]⟩

/-! ## Completeness -/

/-- Where no operator of level `m` follows, the expression is at its end. -/
theorem climb_of_next {n m : ℕ} {l : Expr A Op} {ts : List (Token A Op)}
    (h : Next (G.level · < m) ts) : G.climb (n + 1) m l ts = some (l, ts) := by
  match ts with
  | .op o :: ts =>
    rw [climb, if_neg (not_le.mpr (h o ts rfl))]
  | [] => rfl
  | .operand _ :: _ => rfl
  | .lparen :: _ => rfl
  | .rparen :: _ => rfl

/-- The parser reads the tokens of an expression whose place allows it, and goes on with the
operators after it. -/
theorem parseFrom_tokens (e : Expr A Op) {m n : ℕ} {rest : List (Token A Op)} (hwf : G.WF e)
    (hm : G.AtLeast m e) (hnext : Next (fun o => G.AtLeast (G.leftLevel o) e) rest)
    (hn : (e.tokens ++ rest).length < n) :
    ∃ k, rest.length < k ∧ G.parseFrom n m (e.tokens ++ rest) = G.climb k m e rest := by
  induction e generalizing m n rest with
  | operand a =>
    obtain ⟨n, rfl⟩ : ∃ k, n = k + 1 := ⟨n - 1, by omega⟩
    refine ⟨n, ?_, rfl⟩
    simp [Expr.tokens] at hn
    omega
  | paren e ih =>
    obtain ⟨n, rfl⟩ : ∃ k, n = k + 1 := ⟨n - 1, by omega⟩
    have hlen : (e.tokens ++ .rparen :: rest).length < n := by
      simp [Expr.tokens] at hn
      simp
      omega
    obtain ⟨k, hk, hparse⟩ := ih (m := 0) hwf (G.atLeast_zero e) (by simp [Next]) hlen
    obtain ⟨k, rfl⟩ : ∃ j, k = j + 1 := ⟨k - 1, by omega⟩
    refine ⟨n, ?_, ?_⟩
    · simp at hlen
      omega
    · have htokens : (Expr.paren e).tokens ++ rest = .lparen :: (e.tokens ++ .rparen :: rest) := by
        simp [Expr.tokens]
      rw [htokens, parseFrom, hparse, G.climb_of_next (by simp [Next])]
  | bin o l r ihl ihr =>
    obtain ⟨hl, hr, hleft, hright⟩ := hwf
    have htokens : (Expr.bin o l r).tokens ++ rest = l.tokens ++ .op o :: (r.tokens ++ rest) := by
      simp [Expr.tokens]
    rw [htokens] at hn ⊢
    have hnextOp : Next (fun o' => G.AtLeast (G.leftLevel o') l)
        (.op o :: (r.tokens ++ rest)) := by
      intro o' us heq
      cases heq
      exact hleft
    obtain ⟨k, hk, hparse⟩ :=
      ihl (m := m) hl (hleft.mono (hm.trans (G.level_le_leftLevel o))) hnextOp hn
    obtain ⟨k, rfl⟩ : ∃ j, k = j + 1 := ⟨k - 1, by omega⟩
    have hlen : (r.tokens ++ rest).length < k := by
      rw [List.length_cons] at hk
      omega
    have hstop : Next (G.level · < G.rightLevel o) rest := fun o' us heq =>
      (G.lt_rightLevel_iff o o').mpr (hnext o' us heq)
    obtain ⟨j, hj, hright'⟩ := ihr hr hright
      (fun o' us heq => hright.mono ((hnext o' us heq).trans (G.level_le_rightLevel o))) hlen
    obtain ⟨j, rfl⟩ : ∃ i, j = i + 1 := ⟨j - 1, by omega⟩
    refine ⟨k, by rw [List.length_append] at hlen; omega, ?_⟩
    have hle : m ≤ G.level o := hm
    rw [hparse, climb, if_pos hle, hright', G.climb_of_next hstop]

theorem parse_eq_some_iff {ts : List (Token A Op)} {e : Expr A Op} :
    G.parse ts = some e ↔ G.WF e ∧ e.tokens = ts := by
  constructor
  · intro h
    unfold parse at h
    split at h
    · rename_i e' hparse
      cases h
      have hp := (G.sound _).1 _ _ _ _ hparse
      exact ⟨hp.wf, by simpa using hp.tokens⟩
    · cases h
  · rintro ⟨hwf, rfl⟩
    have hlen : (e.tokens ++ []).length < e.tokens.length + 1 := by simp
    obtain ⟨k, hk, hparse⟩ := G.parseFrom_tokens e hwf (G.atLeast_zero e) (by simp [Next]) hlen
    obtain ⟨k, rfl⟩ : ∃ j, k = j + 1 := ⟨k - 1, by omega⟩
    rw [List.append_nil] at hparse
    rw [parse, hparse, G.climb_of_next (by simp [Next])]

theorem parse_op_iff {ts us : List (Token A Op)} {l r : Expr A Op} (o : Op)
    (hl : G.parse ts = some l) (hr : G.parse us = some r) :
    G.parse (ts ++ .op o :: us) = some (.bin o l r) ↔ G.Joins o l r := by
  obtain ⟨hlwf, rfl⟩ := G.parse_eq_some_iff.mp hl
  obtain ⟨hrwf, rfl⟩ := G.parse_eq_some_iff.mp hr
  rw [G.parse_eq_some_iff]
  exact ⟨fun h => h.1.2.2, fun h => ⟨⟨hlwf, hrwf, h⟩, rfl⟩⟩

theorem parse_paren {ts : List (Token A Op)} {e : Expr A Op} (h : G.parse ts = some e) :
    G.parse (.lparen :: (ts ++ [.rparen])) = some (.paren e) := by
  obtain ⟨hwf, rfl⟩ := G.parse_eq_some_iff.mp h
  exact G.parse_eq_some_iff.mpr ⟨hwf, rfl⟩

end Grammar

end Sem.Precedence
