import Sem.Lib.Joined
import Sem.Lib.Xml

/-!
# Texts of the code generator (`general_functions.xsl`)

`LowerCase` is the `lower-case` of XPath, of which only this is used: it is that of ASCII on ASCII,
and an underscore ends the context of a letter.

* `LowerCase.lower_intercalate`: what is joined by underscores is lowered part by part.
-/

namespace Sem.ReGen

open Xml (Text)

/-- The characters of a literal. -/
abbrev lit (s : String) : Text := s.toList

/-- `o:trim_list`. -/
def trimList (list : List Text) : List Text := list.filter (· ≠ [])

/-- `o:join_list`, with a token of one character. -/
def joinList (list : List Text) (token : Char) : Text := [token].intercalate (trimList list)

/-- `lower-case`. -/
structure LowerCase where
  lower : Text → Text
  lower_ascii : ∀ s, (∀ c ∈ s, c.toNat < 128) → lower s = s.map Char.toLower
  lower_append : ∀ s t, lower (s ++ '_' :: t) = lower s ++ '_' :: lower t
  not_mem_lower : ∀ s, '_' ∉ s → '_' ∉ lower s
  lower_ne_nil : ∀ s, s ≠ [] → lower s ≠ []

/-- The number of texts that are this one, up to case. This is `o:string_in_list_count` of a text
without the special characters of patterns. -/
def stringInListCount (lc : LowerCase) (s : Text) (list : List Text) : ℕ :=
  list.countP fun t => lc.lower t = lc.lower s

/-! ## The case of ASCII -/

theorem toNat_toLower (c : Char) :
    c.toLower.toNat = if 65 ≤ c.toNat ∧ c.toNat ≤ 90 then c.toNat + 32 else c.toNat := by
  unfold Char.toLower
  by_cases h : c.val ≥ 'A'.val ∧ c.val ≤ 'Z'.val
  · have hfrom : 65 ≤ c.val.toNat := h.1
    have hto : c.val.toNat ≤ 90 := h.2
    rw [dif_pos h, if_pos ⟨hfrom, hto⟩]
    show (c.val + ('a'.val - 'A'.val)).toNat = c.val.toNat + 32
    rw [UInt32.toNat_add, show ('a'.val - 'A'.val).toNat = 32 from rfl]
    omega
  · rw [dif_neg h, if_neg fun hnat => h ⟨hnat.1, hnat.2⟩]

theorem toNat_toUpper (c : Char) :
    c.toUpper.toNat = if 97 ≤ c.toNat ∧ c.toNat ≤ 122 then c.toNat - 32 else c.toNat := by
  unfold Char.toUpper
  by_cases h : c.val ≥ 'a'.val ∧ c.val ≤ 'z'.val
  · have hfrom : 97 ≤ c.val.toNat := h.1
    have hto : c.val.toNat ≤ 122 := h.2
    rw [dif_pos h, if_pos ⟨hfrom, hto⟩]
    show (c.val + ('A'.val - 'a'.val)).toNat = c.val.toNat - 32
    rw [UInt32.toNat_add, show ('A'.val - 'a'.val).toNat = 2 ^ 32 - 32 from rfl]
    omega
  · rw [dif_neg h, if_neg fun hnat => h ⟨hnat.1, hnat.2⟩]

theorem toLower_eq_of_toUpper_eq {c d : Char} (h : c.toUpper = d.toUpper) :
    c.toLower = d.toLower := by
  have hnat := congrArg Char.toNat h
  rw [toNat_toUpper, toNat_toUpper] at hnat
  rw [← Char.toNat_inj, toNat_toLower, toNat_toLower]
  grind

/-- No letter becomes an underscore. -/
theorem toLower_eq_underscore {c : Char} : c.toLower = '_' ↔ c = '_' := by
  rw [← Char.toNat_inj, ← Char.toNat_inj, toNat_toLower, show '_'.toNat = 95 from rfl]
  grind

/-- Where there are no other letters, the case of ASCII. -/
def asciiLower : LowerCase where
  lower s := s.map Char.toLower
  lower_ascii _ _ := rfl
  lower_append s t := by
    rw [List.map_append, List.map_cons]
    rfl
  not_mem_lower s h hmem := by
    obtain ⟨c, hc, heq⟩ := List.mem_map.mp hmem
    exact h (toLower_eq_underscore.mp heq ▸ hc)
  lower_ne_nil s h hnil := h (List.map_eq_nil_iff.mp hnil)

namespace LowerCase

variable (lc : LowerCase)

theorem lower_intercalate {ls : List Text} (hne : ls ≠ []) :
    lc.lower (['_'].intercalate ls) = ['_'].intercalate (ls.map lc.lower) := by
  induction ls with
  | nil => exact absurd rfl hne
  | cons l ls ih =>
    cases ls with
    | nil => simp
    | cons l' ls =>
      rw [List.map_cons, List.map_cons, List.intercalate_cons_cons, List.intercalate_cons_cons,
        ← List.map_cons, ← ih (List.cons_ne_nil _ _), List.append_assoc, List.append_assoc,
        List.singleton_append, List.singleton_append, lc.lower_append]

/-- A text in lower case has as many words as before. -/
theorem length_splitOn_lower (s : Text) :
    ((lc.lower s).splitOn '_').length = (s.splitOn '_').length := by
  by_cases hs : '_' ∈ s
  · obtain ⟨t, u, rfl, ht⟩ := List.eq_append_cons_of_mem hs
    rw [lc.lower_append, List.splitOn_append_cons_self, List.splitOn_append_cons_self,
      List.length_append, List.length_append, length_splitOn_lower u,
      List.splitOn_eq_singleton (lc.not_mem_lower t ht), List.splitOn_eq_singleton ht]
    rfl
  · rw [List.splitOn_eq_singleton (lc.not_mem_lower s hs), List.splitOn_eq_singleton hs]
    rfl
termination_by s.length

end LowerCase

end Sem.ReGen
