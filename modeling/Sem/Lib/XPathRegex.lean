import Mathlib.Data.List.Forall2
import Sem.Lib.Xml

/-!
# Regular expressions with anchors, groups and back-references

`Regex.ways` is all places behind a match that begins at a place, and `Regex.found` searches for a
match anywhere in a text.

* `Regex.ways_map`, `Regex.found_map`: a matcher does not tell apart characters that its expression
  does not.
-/

namespace Sem.XPath

open Xml (Text)

/-- The patterns of `fn:matches`. -/
inductive Regex where
  | empty
  /-- `^`. -/
  | bol
  /-- `$`. -/
  | eol
  /-- One character of a class. -/
  | one (p : Char → Bool)
  | seq (r r' : Regex)
  | alt (r r' : Regex)
  | times (r : Regex) (least : ℕ) (most : Option ℕ)
  | group (n : ℕ) (r : Regex)
  /-- What the group has matched, up to `same`. -/
  | back (n : ℕ) (same : Char → Char → Bool)

/-- Where a matcher is: what is left of the text, and what the groups have matched. -/
structure Cursor where
  pos : ℕ
  rest : Text
  groups : List (ℕ × Text)
deriving DecidableEq

namespace Cursor

/-- The cursor after some characters. -/
def advance (s : Cursor) (n : ℕ) : Cursor := { s with pos := s.pos + n, rest := s.rest.drop n }

/-- The part of the text between two places. -/
def upTo (s t : Cursor) : Text := s.rest.take (s.rest.length - t.rest.length)

/-- What a group has matched. -/
def matched (s : Cursor) (n : ℕ) : Text := (s.groups.lookup n).getD []

/-- The cursor in a text with other characters. -/
def map (f : Char → Char) (s : Cursor) : Cursor :=
  ⟨s.pos, s.rest.map f, s.groups.map fun g => (g.1, g.2.map f)⟩

end Cursor

namespace Regex

/-- The ways to match `k` times. -/
def iterate (f : Cursor → List Cursor) : ℕ → Cursor → List Cursor
  | 0, s => [s]
  | k + 1, s => (f s).flatMap (iterate f k)

/-- How often a part is matched where `len` characters are left: matching the empty text more often
than it has to be adds nothing. -/
def counts (least : ℕ) (most : Option ℕ) (len : ℕ) : List ℕ :=
  (List.range (most.elim (least + len) (min (least + len)) + 1)).filter (least ≤ ·)

/-- The places behind the matches that begin at a place. -/
def ways : Regex → Cursor → List Cursor
  | empty, s => [s]
  | bol, s => if s.pos = 0 then [s] else []
  | eol, s => if s.rest = [] then [s] else []
  | one p, s => if s.rest.head?.any p then [s.advance 1] else []
  | seq r r', s => (r.ways s).flatMap r'.ways
  | alt r r', s => r.ways s ++ r'.ways s
  | times r least most, s =>
    (counts least most s.rest.length).flatMap fun k => iterate r.ways k s
  | group n r, s => (r.ways s).map fun t => { t with groups := (n, s.upTo t) :: t.groups }
  | back n same, s =>
    let w := s.matched n
    if w.length ≤ s.rest.length ∧ (w.zip s.rest).all fun cd => same cd.1 cd.2 then
      [s.advance w.length]
    else []

/-- The expression matches somewhere in the text. -/
def found (r : Regex) (t : Text) : Bool :=
  (List.range (t.length + 1)).any fun k => !(r.ways ⟨k, t.drop k, []⟩).isEmpty

/-- No class and no back-reference tells a character from its image. -/
def Fixes (f : Char → Char) : Regex → Prop
  | one p => ∀ c, p (f c) = p c
  | seq r r' => r.Fixes f ∧ r'.Fixes f
  | alt r r' => r.Fixes f ∧ r'.Fixes f
  | times r _ _ => r.Fixes f
  | group _ r => r.Fixes f
  | back _ same => ∀ c d, same (f c) (f d) = same c d
  | _ => True

section Map

variable {f : Char → Char}

theorem matched_map (s : Cursor) (n : ℕ) : (s.map f).matched n = (s.matched n).map f := by
  have h : ∀ l : List (ℕ × Text), (l.map fun g => (g.1, g.2.map f)).lookup n =
      (l.lookup n).map (List.map f) := by
    intro l
    induction l with
    | nil => rfl
    | cons g l ih =>
      rw [List.map_cons, List.lookup_cons, List.lookup_cons]
      split
      · rfl
      · exact ih
  unfold Cursor.matched
  rw [Cursor.map, h]
  cases s.groups.lookup n <;> rfl

theorem upTo_map (s t : Cursor) : (s.map f).upTo (t.map f) = (s.upTo t).map f := by
  simp [Cursor.upTo, Cursor.map, List.map_take]

theorem advance_map (s : Cursor) (n : ℕ) : (s.map f).advance n = (s.advance n).map f := by
  simp [Cursor.advance, Cursor.map, List.map_drop]

theorem iterate_map {g : Cursor → List Cursor} (h : ∀ s, g (s.map f) = (g s).map (·.map f)) (k : ℕ)
    (s : Cursor) : iterate g k (s.map f) = (iterate g k s).map (·.map f) := by
  induction k generalizing s with
  | zero => rfl
  | succ k ih =>
    rw [iterate, iterate, h, List.flatMap_map, List.map_flatMap]
    exact congrArg (List.flatMap · (g s)) (funext ih)

theorem ways_map {r : Regex} (h : r.Fixes f) (s : Cursor) :
    r.ways (s.map f) = (r.ways s).map (·.map f) := by
  induction r generalizing s with
  | empty => rfl
  | bol =>
    rw [ways, ways]
    split <;> simp_all [Cursor.map]
  | eol =>
    rw [ways, ways]
    split <;> simp_all [Cursor.map]
  | one p =>
    have hhead : (s.map f).rest.head?.any p = s.rest.head?.any p := by
      cases hs : s.rest with
      | nil => simp [Cursor.map, hs]
      | cons c t => simpa [Cursor.map, hs] using h c
    rw [ways, ways, hhead, advance_map]
    split <;> rfl
  | seq r r' ihr ihr' =>
    rw [ways, ways, ihr h.1, List.flatMap_map, List.map_flatMap]
    exact congrArg (List.flatMap · (r.ways s)) (funext (ihr' h.2))
  | alt r r' ihr ihr' => rw [ways, ways, ihr h.1, ihr' h.2, List.map_append]
  | times r least most ih =>
    have hlen : (s.map f).rest.length = s.rest.length := by simp [Cursor.map]
    rw [ways, ways, hlen, List.map_flatMap]
    exact congrArg (List.flatMap · _) (funext fun k => iterate_map (ih h) k s)
  | group n r ih =>
    rw [ways, ways, ih h, List.map_map, List.map_map]
    refine List.map_congr_left fun t _ => ?_
    simp only [Function.comp_apply, upTo_map]
    rfl
  | back n same =>
    have hlen : (s.map f).rest.length = s.rest.length := by simp [Cursor.map]
    have hall : (((s.matched n).map f).zip (s.map f).rest).all (fun cd => same cd.1 cd.2) =
        ((s.matched n).zip s.rest).all fun cd => same cd.1 cd.2 := by
      simp only [Cursor.map, List.zip_map, List.all_map]
      exact congrArg (List.all _) (funext fun cd => h cd.1 cd.2)
    rw [ways, ways]
    simp only [matched_map, hlen, List.length_map, hall, advance_map]
    split <;> rfl

theorem found_map {r : Regex} (h : r.Fixes f) (t : Text) : r.found (t.map f) = r.found t := by
  unfold found
  rw [List.length_map]
  refine congrArg (List.any _) (funext fun k => ?_)
  have hmap : (⟨k, (t.map f).drop k, []⟩ : Cursor) = Cursor.map f ⟨k, t.drop k, []⟩ := by
    simp [Cursor.map, List.map_drop]
  rw [hmap, ways_map h, List.isEmpty_map]

end Map

end Regex

end Sem.XPath
