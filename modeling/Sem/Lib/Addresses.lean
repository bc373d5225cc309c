import Mathlib.Logic.Relation
import Mathlib.Data.List.Infix
import Mathlib.Data.Option.Basic

/-!
# Addresses in a tree

Nodes know their parent and have an address: that of their parent, with one more label. Siblings
have different labels.

* `Addressed.eq_of_address`: a node of a tree is where its address says.
* `Addressed.exists_meet`: the common part of two addresses is the address of the deepest node that is
  above both, so many steps up as the address is longer.
-/

namespace Sem

variable {α β : Type*}

/-- The length of the common part of two lists. -/
def commonLength [DecidableEq β] : List β → List β → ℕ
  | a :: l, b :: m => if a = b then commonLength l m + 1 else 0
  | _, _ => 0

section CommonLength

variable [DecidableEq β] {l m u : List β}

theorem commonLength_comm (l m : List β) : commonLength l m = commonLength m l := by
  induction l generalizing m with
  | nil => cases m <;> rfl
  | cons a l ih =>
    cases m with
    | nil => rfl
    | cons b m =>
      simp only [commonLength, ih m]
      by_cases hab : a = b
      · simp [hab]
      · simp [hab, Ne.symm hab]

theorem commonLength_le (l m : List β) : commonLength l m ≤ l.length := by
  induction l generalizing m with
  | nil => simp [commonLength]
  | cons a l ih =>
    cases m with
    | nil => simp [commonLength]
    | cons b m =>
      simp only [commonLength, List.length_cons]
      split
      · exact Nat.succ_le_succ (ih m)
      · omega

theorem take_commonLength (l m : List β) :
    l.take (commonLength l m) = m.take (commonLength l m) := by
  induction l generalizing m with
  | nil => simp [commonLength]
  | cons a l ih =>
    cases m with
    | nil => simp [commonLength]
    | cons b m =>
      simp only [commonLength]
      split
      · next hab => rw [List.take_succ_cons, List.take_succ_cons, ih m, hab]
      · rw [List.take_zero, List.take_zero]

/-- A list that both begin with is in the common part. -/
theorem length_le_commonLength (hl : u <+: l) (hm : u <+: m) : u.length ≤ commonLength l m := by
  obtain ⟨x, rfl⟩ := hl
  obtain ⟨y, rfl⟩ := hm
  induction u with
  | nil => exact Nat.zero_le _
  | cons a u ih =>
    simp only [List.cons_append, commonLength, if_true, List.length_cons]
    exact Nat.succ_le_succ ih

theorem commonLength_eq_iff_prefix : commonLength l m = l.length ↔ l <+: m := by
  constructor
  · intro h
    have htake := take_commonLength l m
    rw [h, List.take_length] at htake
    exact htake ▸ List.take_prefix l.length m
  · exact fun h => (commonLength_le l m).antisymm (length_le_commonLength List.prefix_rfl h)

end CommonLength

/-- The second node is the first, or above it. -/
def Up (parent : α → Option α) : α → α → Prop := Relation.ReflTransGen fun a p => parent a = some p

/-- So many steps up. -/
def up (parent : α → Option α) : ℕ → α → Option α
  | 0, a => some a
  | n + 1, a => (up parent n a).bind parent

theorem up_mono {parent parent' : α → Option α} (h : ∀ a p, parent a = some p → parent' a = some p)
    {n : ℕ} {a c : α} (hup : up parent n a = some c) : up parent' n a = some c := by
  induction n generalizing c with
  | zero => exact hup
  | succ n ih =>
    obtain ⟨b, hb, hc⟩ := Option.bind_eq_some_iff.mp hup
    exact Option.bind_eq_some_iff.mpr ⟨b, ih hb, h b c hc⟩

/-- An address extends the parent's, by different labels for siblings. -/
structure Addressed (parent : α → Option α) (address : α → List β) : Prop where
  child : ∀ {a p}, parent a = some p → ∃ l, address a = address p ++ [l]
  sibling : ∀ {a b p}, parent a = some p → parent b = some p → address a = address b → a = b

namespace Addressed

variable {parent : α → Option α} {address : α → List β} {a b c d r : α}

theorem prefix_of_up (h : Addressed parent address) (hup : Up parent a c) :
    address c <+: address a := by
  induction hup with
  | refl => exact List.prefix_rfl
  | tail _ hparent ih =>
    obtain ⟨l, hl⟩ := h.child hparent
    exact (hl ▸ List.prefix_append _ _).trans ih

/-- A node above another one has a shorter address. -/
theorem eq_of_up (h : Addressed parent address) (hup : Up parent a c)
    (hlength : (address a).length ≤ (address c).length) : a = c := by
  rcases Relation.ReflTransGen.cases_head hup with rfl | ⟨p, hparent, hrest⟩
  · rfl
  · obtain ⟨l, hl⟩ := h.child hparent
    have hle := (h.prefix_of_up hrest).length_le
    rw [hl, List.length_append, List.length_singleton] at hlength
    omega

/-- An address is so much longer as there are steps. -/
theorem exists_steps (h : Addressed parent address) (hup : Up parent a c) :
    ∃ n, up parent n a = some c ∧ (address a).length = (address c).length + n := by
  induction hup with
  | refl => exact ⟨0, rfl, rfl⟩
  | @tail b c _ hparent ih =>
    obtain ⟨n, hn, hlength⟩ := ih
    obtain ⟨l, hl⟩ := h.child hparent
    refine ⟨n + 1, by rw [up, hn, Option.bind_some, hparent], ?_⟩
    rw [hlength, hl, List.length_append, List.length_singleton]
    omega

/-- **In a tree, different nodes have different addresses.** -/
theorem eq_of_address (h : Addressed parent address) (ha : Up parent a r) (hb : Up parent b r)
    (heq : address a = address b) : a = b := by
  induction ha using Relation.ReflTransGen.head_induction_on generalizing b with
  | refl => exact (h.eq_of_up hb (congrArg List.length heq).ge).symm
  | head hparent hrest ih =>
    rcases Relation.ReflTransGen.cases_head hb with rfl | ⟨q, hparent', hrest'⟩
    · exact h.eq_of_up (hrest.head hparent) (congrArg List.length heq).le
    · obtain ⟨l, hl⟩ := h.child hparent
      obtain ⟨m, hm⟩ := h.child hparent'
      obtain rfl := ih hrest' (List.append_inj' (hl.symm.trans (heq.trans hm)) rfl).1
      exact h.sibling hparent hparent' heq

/-- Of two nodes above one, the one with the shorter address is above the other. -/
theorem up_of_up (h : Addressed parent address) (hc : Up parent a c) (hd : Up parent a d)
    (hlength : (address d).length ≤ (address c).length) : Up parent c d := by
  induction hc using Relation.ReflTransGen.head_induction_on with
  | refl => exact hd
  | head hparent hrest ih =>
    rcases Relation.ReflTransGen.cases_head hd with rfl | ⟨q, hparent', hrest'⟩
    · obtain rfl := h.eq_of_up (hrest.head hparent) hlength
      exact .refl
    · obtain rfl := Option.some.inj (hparent.symm.trans hparent')
      exact ih hrest'

/-- The node above another one that has a given part of its address. -/
theorem exists_up (h : Addressed parent address) (ha : Up parent a r) {n : ℕ}
    (hr : (address r).length ≤ n) (hn : n ≤ (address a).length) :
    ∃ c, Up parent a c ∧ Up parent c r ∧ address c = (address a).take n ∧
      up parent ((address a).length - n) a = some c := by
  obtain ⟨k, hk⟩ : ∃ k, (address a).length - n = k := ⟨_, rfl⟩
  induction k generalizing n with
  | zero =>
    obtain rfl : n = (address a).length := by omega
    exact ⟨a, .refl, ha, List.take_length.symm, by rw [hk]; rfl⟩
  | succ k ih =>
    obtain ⟨c, hac, hcr, haddress, hup⟩ :=
      ih (n := n + 1) (by omega) (by omega) (by omega)
    rcases Relation.ReflTransGen.cases_head hcr with rfl | ⟨p, hparent, hrest⟩
    · have hlength := congrArg List.length haddress
      rw [List.length_take] at hlength
      omega
    · refine ⟨p, hac.tail hparent, hrest, ?_, ?_⟩
      · obtain ⟨l, hl⟩ := h.child hparent
        have hlast : (address a).take (n + 1) = (address a).take n ++ [(address a)[n]] :=
          (List.take_concat_get' (address a) n (by omega)).symm
        rw [hl, hlast] at haddress
        exact (List.append_inj' haddress rfl).1
      · have hsteps : (address a).length - (n + 1) = k := by omega
        rw [hk, up]
        rw [hsteps] at hup
        rw [hup]
        exact hparent

variable [DecidableEq β]

/-- **The deepest node above two nodes of a tree.** -/
theorem exists_meet (h : Addressed parent address) (ha : Up parent a r) (hb : Up parent b r) :
    ∃ c, Up parent a c ∧ Up parent b c ∧ (∀ d, Up parent a d → Up parent b d → Up parent c d) ∧
      up parent ((address a).length - commonLength (address a) (address b)) a = some c ∧
      up parent ((address b).length - commonLength (address a) (address b)) b = some c := by
  have hcommon := length_le_commonLength (h.prefix_of_up ha) (h.prefix_of_up hb)
  have hle : commonLength (address a) (address b) ≤ (address b).length := by
    rw [commonLength_comm]
    exact commonLength_le _ _
  obtain ⟨c, hac, hcr, hc, hsteps⟩ := h.exists_up ha hcommon (commonLength_le _ _)
  obtain ⟨c', hbc, hcr', hc', hsteps'⟩ := h.exists_up hb hcommon hle
  obtain rfl : c = c' :=
    h.eq_of_address hcr hcr' (by rw [hc, hc', take_commonLength])
  refine ⟨c, hac, hbc, fun d hda hdb => h.up_of_up hac hda ?_, hsteps, hsteps'⟩
  have hd := length_le_commonLength (h.prefix_of_up hda) (h.prefix_of_up hdb)
  rw [hc, List.length_take]
  have := commonLength_le (address a) (address b)
  omega

/-- A node is above another one exactly if the other's address begins with its own. -/
theorem up_iff_prefix (h : Addressed parent address) (ha : Up parent a r) (hb : Up parent b r) :
    Up parent b a ↔ commonLength (address a) (address b) = (address a).length := by
  constructor
  · exact fun hup => commonLength_eq_iff_prefix.mpr (h.prefix_of_up hup)
  · intro hcommon
    obtain ⟨c, -, hbc, -, hsteps, -⟩ := h.exists_meet ha hb
    rw [hcommon, Nat.sub_self] at hsteps
    exact Option.some.inj hsteps ▸ hbc

end Addressed

end Sem
