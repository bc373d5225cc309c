import Sem.Lib.Table
import Mathlib.Logic.Function.Basic

/-!
# An index from labels to ids

Some ids stand for objects, and an object may have a label; labels need not be unique. An index is a
table from labels to ids that is kept up to date by hand. It is right when an entry never leads to
an object with another label, and when an object that has its label to itself is found; it may have
entries for ids that stand for nothing.

* `View`, `Indexes`: the objects with their labels, and an index that is right for them.
* `relabel_iff`, `erase_iff`, `forget_iff`, `unlabel_iff`: after each kind of change, the index is
  right again exactly if the change meets a condition on what was there before.
-/

namespace Sem

universe u v

/-- The ids that stand for objects, each with its label if it has one. -/
structure View (K : Type u) (L : Type v) where
  label : K → Option (Option L)
  ids : List K
  mem_ids : ∀ k, label k ≠ none → k ∈ ids

namespace View

variable {K : Type u} {L : Type v}

/-- The object `k` has the label `l`. -/
def Has (w : View K L) (k : K) (l : L) : Prop := w.label k = some (some l)

/-- `k` is the only object with the label `l`. -/
def Sole (w : View K L) (l : L) (k : K) : Prop := w.Has k l ∧ ∀ k' ∈ w.ids, w.Has k' l → k' = k

/-- `k'` is the only object with the label `l` beside `k`, if `k` has it. -/
def SoleBeside (w : View K L) (k : K) (l : L) (k' : K) : Prop :=
  k' ≠ k ∧ w.Has k' l ∧ ∀ k'' ∈ w.ids, w.Has k'' l → k'' = k ∨ k'' = k'

section

variable [DecidableEq K] [DecidableEq L]

instance (w : View K L) (k : K) (l : L) : Decidable (w.Has k l) :=
  inferInstanceAs (Decidable (_ = _))

instance (w : View K L) (l : L) (k : K) : Decidable (w.Sole l k) :=
  inferInstanceAs (Decidable (_ ∧ _))

instance (w : View K L) (k : K) (l : L) (k' : K) : Decidable (w.SoleBeside k l k') :=
  inferInstanceAs (Decidable (_ ∧ _ ∧ _))

end

/-- `w'` is `w` but for the object `k`, which is now `x`. -/
structure Changes (w w' : View K L) (k : K) (x : Option (Option L)) : Prop where
  self : w'.label k = x
  other : ∀ k', k' ≠ k → w'.label k' = w.label k'

/-- The index leads to no object with another label, and finds every object that has its label to
itself. -/
structure Indexes [DecidableEq L] (index : Table L K) (w : View K L) : Prop where
  sound : ∀ l k, index.lookup l = some k → ∀ x ∈ w.label k, x = some l
  complete : ∀ l k, w.Sole l k → index.lookup l = some k

variable {w w' : View K L} {index : Table L K} {k k' : K} {l old new : L}

theorem Has.mem (h : w.Has k l) : k ∈ w.ids :=
  w.mem_ids k (by rw [h]; simp)

theorem sole_iff : w.Sole l k ↔ w.Has k l ∧ ∀ k', w.Has k' l → k' = k :=
  ⟨fun h => ⟨h.1, fun k' hk' => h.2 k' hk'.mem hk'⟩, fun h => ⟨h.1, fun k' _ hk' => h.2 k' hk'⟩⟩

theorem soleBeside_iff : w.SoleBeside k l k' ↔
    k' ≠ k ∧ w.Has k' l ∧ ∀ k'', w.Has k'' l → k'' = k ∨ k'' = k' :=
  ⟨fun h => ⟨h.1, h.2.1, fun k'' hk => h.2.2 k'' hk.mem hk⟩,
    fun h => ⟨h.1, h.2.1, fun k'' _ hk => h.2.2 k'' hk⟩⟩

theorem SoleBeside.of_sole (h : w.Sole l k') (hne : k' ≠ k) : w.SoleBeside k l k' :=
  ⟨hne, h.1, fun k'' hmem hk => .inr (h.2 k'' hmem hk)⟩

/-- An object that shares its label with nobody but `k` is alone with it when `k` does not have
it. -/
theorem SoleBeside.sole (h : w.SoleBeside k l k') (hk : ¬ w.Has k l) : w.Sole l k' := by
  refine ⟨h.2.1, fun k'' hmem hk'' => ?_⟩
  rcases h.2.2 k'' hmem hk'' with rfl | rfl
  · exact absurd hk'' hk
  · rfl

theorem Indexes.congr [DecidableEq L] (h : Indexes index w) (heq : ∀ k, w'.label k = w.label k) :
    Indexes index w' where
  sound l k hl := heq k ▸ h.sound l k hl
  complete l k hs := by
    refine h.complete l k (sole_iff.mpr ?_)
    simpa only [sole_iff, Has, heq] using hs

namespace Changes

variable {x : Option (Option L)}

theorem has_iff (h : Changes w w' k x) (hne : k' ≠ k) : w'.Has k' l ↔ w.Has k' l := by
  unfold Has
  rw [h.other k' hne]

/-- Who has a label to himself after a change that `k` is not part of. -/
theorem sole_iff (h : Changes w w' k x) (hx : x ≠ some (some l)) :
    w'.Sole l k' ↔ w.SoleBeside k l k' := by
  have hk : ¬ w'.Has k l := fun hk => hx (h.self.symm.trans hk)
  rw [View.sole_iff, soleBeside_iff]
  constructor
  · rintro ⟨hk', huniq⟩
    have hne : k' ≠ k := fun heq => hk (heq ▸ hk')
    refine ⟨hne, (h.has_iff hne).mp hk', fun k'' hk'' => ?_⟩
    by_cases heq : k'' = k
    · exact .inl heq
    · exact .inr (huniq k'' ((h.has_iff heq).mpr hk''))
  · rintro ⟨hne, hk', huniq⟩
    refine ⟨(h.has_iff hne).mpr hk', fun k'' hk'' => ?_⟩
    have hne' : k'' ≠ k := fun heq => hk (heq ▸ hk'')
    exact (huniq k'' ((h.has_iff hne').mp hk'')).resolve_left hne'

/-- Labels that `k` neither had nor has are as they were. -/
theorem sole_iff_of_not_has (h : Changes w w' k x) (hx : x ≠ some (some l)) (hk : ¬ w.Has k l) :
    w'.Sole l k' ↔ w.Sole l k' := by
  rw [h.sole_iff hx]
  constructor
  · exact fun hs => hs.sole hk
  · intro hs
    refine SoleBeside.of_sole hs ?_
    rintro rfl
    exact hk hs.1

end Changes

/-! ## The label of a known object changes -/

variable [DecidableEq L]

/-- The entry of the old label is removed, whoever it belongs to, and one for the new label is added
unless there is one. -/
def relabel (index : Table L K) (k : K) (old new : L) : Table L K :=
  if new ∈ index.erase old then index.erase old else (index.erase old).insert new k

theorem lookup_relabel_of_ne (hold : l ≠ old) (hnew : l ≠ new) :
    (relabel index k old new).lookup l = index.lookup l := by
  unfold relabel
  by_cases hmem : new ∈ index.erase old
  · rw [if_pos hmem, Table.lookup_erase, if_neg hold]
  · rw [if_neg hmem, Table.lookup_insert, if_neg hnew, Table.lookup_erase, if_neg hold]

theorem lookup_relabel_old (hne : old ≠ new) : (relabel index k old new).lookup old = none := by
  unfold relabel
  by_cases hmem : new ∈ index.erase old
  · rw [if_pos hmem, Table.lookup_erase, if_pos rfl]
  · rw [if_neg hmem, Table.lookup_insert, if_neg hne, Table.lookup_erase, if_pos rfl]

theorem lookup_relabel_self : (relabel index k old old).lookup old = some k := by
  unfold relabel
  rw [if_neg (by simp), AList.lookup_insert]

theorem lookup_relabel_new (hne : new ≠ old) :
    (relabel index k old new).lookup new = some ((index.lookup new).getD k) := by
  unfold relabel
  by_cases hmem : new ∈ index
  · obtain ⟨k', hk'⟩ := Table.mem_iff_lookup.mp hmem
    rw [if_pos (AList.mem_erase.mpr ⟨hne, hmem⟩), Table.lookup_erase, if_neg hne, hk',
      Option.getD_some]
  · have hnone : index.lookup new = none := AList.lookup_eq_none.mpr hmem
    rw [if_neg (fun h => hmem (AList.mem_erase.mp h).2), AList.lookup_insert, hnone,
      Option.getD_none]

/-- The condition on giving `k` the label `new` while the entry of `old` is removed: no entry of a
third label leads to `k`, no leftover entry of `new` is in the way, and nobody else is left alone
with `old`. -/
structure Relabels (index : Table L K) (w : View K L) (k : K) (old new : L) : Prop where
  third : ∀ l ∈ index.keys, index.lookup l = some k → l = old ∨ l = new
  leftover : new ≠ old → (∀ k' ∈ w.ids, w.Has k' new → k' = k) →
    ∀ k' ∈ index.lookup new, k' = k
  alone : new ≠ old → ∀ k' ∈ w.ids, ¬ w.SoleBeside k old k'

instance [DecidableEq K] (index : Table L K) (w : View K L) (k : K) (old new : L) :
    Decidable (Relabels index w k old new) :=
  decidable_of_iff ((∀ l ∈ index.keys, index.lookup l = some k → l = old ∨ l = new) ∧
      (new ≠ old → (∀ k' ∈ w.ids, w.Has k' new → k' = k) → ∀ k' ∈ index.lookup new, k' = k) ∧
      (new ≠ old → ∀ k' ∈ w.ids, ¬ w.SoleBeside k old k'))
    ⟨fun h => ⟨h.1, h.2.1, h.2.2⟩, fun h => ⟨h.third, h.leftover, h.alone⟩⟩

/-- **A label changes**: the index is right afterwards exactly if the change meets the condition. -/
theorem relabel_iff (h : Indexes index w) (hc : Changes w w' k (some (some new)))
    (hold : ∀ l, w.Has k l → l = old) :
    Indexes (relabel index k old new) w' ↔ Relabels index w k old new := by
  have hself : w'.Has k new := hc.self
  constructor
  · intro h'
    refine ⟨fun l _ hl => ?_, fun hne hothers k' hk' => ?_, fun hne k' _ hk' => ?_⟩
    · by_contra hthird
      rw [not_or] at hthird
      have hl' : (relabel index k old new).lookup l = some k := by
        rw [lookup_relabel_of_ne hthird.1 hthird.2, hl]
      exact hthird.2 (Option.some.inj (h'.sound l k hl' _ hc.self)).symm
    · -- `k` is alone with `new`, so its entry is the leftover one
      have hsole : w'.Sole new k := by
        refine ⟨hself, fun k'' _ hk'' => ?_⟩
        by_contra hne'
        have hold' := (hc.has_iff hne').mp hk''
        exact hne' (hothers k'' hold'.mem hold')
      have hlook := h'.complete new k hsole
      rw [lookup_relabel_new hne, hk', Option.getD_some] at hlook
      exact Option.some.inj hlook
    · have hsole : w'.Sole old k' := (hc.sole_iff (by simpa using hne)).mpr hk'
      have hlook := h'.complete old k' hsole
      rw [lookup_relabel_old (Ne.symm hne)] at hlook
      cases hlook
  · rintro ⟨hthird, hleft, halone⟩
    refine ⟨fun l k' hl x hx => ?_, fun l k' hs => ?_⟩
    · -- where the entry comes from
      have hentry : (l = new ∧ k' = k) ∨ (l ≠ old ∧ index.lookup l = some k') := by
        by_cases heq : l = old
        · subst heq
          by_cases hne : new = l
          · subst hne
            rw [lookup_relabel_self] at hl
            exact .inl ⟨rfl, (Option.some.inj hl).symm⟩
          · rw [lookup_relabel_old (Ne.symm hne)] at hl
            cases hl
        · by_cases hne : l = new
          · subst hne
            rw [lookup_relabel_new heq] at hl
            cases hlook : index.lookup l with
            | none =>
              rw [hlook, Option.getD_none] at hl
              exact .inl ⟨rfl, (Option.some.inj hl).symm⟩
            | some k'' =>
              rw [hlook, Option.getD_some] at hl
              exact .inr ⟨heq, hl⟩
          · rw [lookup_relabel_of_ne heq hne] at hl
            exact .inr ⟨heq, hl⟩
      by_cases hk : k' = k
      · subst hk
        have hx' : x = some new := (Option.some.inj (hc.self.symm.trans hx)).symm
        rcases hentry with ⟨rfl, -⟩ | ⟨hne, hlook⟩
        · exact hx'
        · rw [hx', (hthird l (AList.mem_keys.mp (Table.mem_of_lookup hlook)) hlook).resolve_left
            hne]
      · rw [hc.other k' hk] at hx
        rcases hentry with ⟨-, heq⟩ | ⟨-, hlook⟩
        · exact absurd heq hk
        · exact h.sound l k' hlook x hx
    · by_cases hnew : l = new
      · subst hnew
        obtain rfl : k = k' := (View.sole_iff.mp hs).2 k hself
        by_cases heq : l = old
        · subst heq
          exact lookup_relabel_self
        · rw [lookup_relabel_new heq]
          cases hlook : index.lookup l with
          | none => rfl
          | some k'' =>
            refine congrArg some (hleft heq (fun k₃ _ hk₃ => ?_) k'' hlook)
            by_contra hne
            exact hne ((View.sole_iff.mp hs).2 k₃ ((hc.has_iff hne).mpr hk₃))
      · have hx : some (some new) ≠ some (some l) := by simpa using Ne.symm hnew
        by_cases heq : l = old
        · subst heq
          have hbeside := (hc.sole_iff hx).mp hs
          exact absurd hbeside (halone (Ne.symm hnew) k' hbeside.2.1.mem)
        · rw [lookup_relabel_of_ne heq hnew]
          exact h.complete l k' ((hc.sole_iff_of_not_has hx fun hk => heq (hold l hk)).mp hs)

/-! ## The other changes -/

/-- **The entry of a label is removed**, and no object changes. -/
theorem erase_iff (h : Indexes index w) :
    Indexes (index.erase old) w ↔ ∀ k ∈ w.ids, ¬ w.Sole old k := by
  constructor
  · intro h' k _ hs
    have hlook := h'.complete old k hs
    rw [Table.lookup_erase, if_pos rfl] at hlook
    cases hlook
  · intro hok
    refine ⟨fun l k hl => ?_, fun l k hs => ?_⟩
    · rw [Table.lookup_erase] at hl
      split at hl
      · cases hl
      · exact h.sound l k hl
    · rw [Table.lookup_erase]
      split
      · rename_i heq
        subst heq
        exact absurd hs (hok k hs.1.mem)
      · exact h.complete l k hs

/-- Nobody else is left alone with the label of `k` without an entry. -/
def Leaves (index : Table L K) (w : View K L) (k : K) : Prop :=
  ∀ x ∈ w.label k, ∀ l ∈ x, ∀ k' ∈ w.ids, w.SoleBeside k l k' → index.lookup l = some k'

instance [DecidableEq K] (index : Table L K) (w : View K L) (k : K) : Decidable (Leaves index w k) :=
  inferInstanceAs (Decidable (∀ x ∈ w.label k, ∀ l ∈ x, ∀ k' ∈ w.ids, _ → _))

/-- What `k` leaves behind when it does not have its label any more. -/
theorem complete_iff_leaves (h : Indexes index w) {x : Option (Option L)} (hc : Changes w w' k x)
    (hx : ∀ l, x ≠ some (some l)) :
    (∀ l k', w'.Sole l k' → index.lookup l = some k') ↔ Leaves index w k := by
  constructor
  · intro hok y hy l hl k' _ hbeside
    exact hok l k' ((hc.sole_iff (hx l)).mpr hbeside)
  · intro hok l k' hs
    by_cases hk : w.Has k l
    · have hbeside := (hc.sole_iff (hx l)).mp hs
      exact hok _ hk l rfl k' hbeside.2.1.mem hbeside
    · exact h.complete l k' ((hc.sole_iff_of_not_has (hx l) hk).mp hs)

/-- **An object is gone**, and its entry stays. -/
theorem forget_iff (h : Indexes index w) (hc : Changes w w' k none) :
    Indexes index w' ↔ Leaves index w k := by
  rw [← complete_iff_leaves h hc fun l => by simp]
  refine ⟨fun h' => h'.complete, fun hok => ⟨fun l k' hl x hx => ?_, hok⟩⟩
  by_cases hk : k' = k
  · subst hk
    rw [hc.self] at hx
    cases hx
  · rw [hc.other k' hk] at hx
    exact h.sound l k' hl x hx

/-- **An object without a label** appears, or loses the one it had. -/
theorem unlabel_iff (h : Indexes index w) (hc : Changes w w' k (some none)) :
    Indexes index w' ↔ (∀ l ∈ index.keys, index.lookup l ≠ some k) ∧ Leaves index w k := by
  rw [← complete_iff_leaves h hc fun l => by simp]
  constructor
  · refine fun h' => ⟨fun l _ hl => ?_, h'.complete⟩
    cases h'.sound l k hl none hc.self
  · rintro ⟨hfree, hok⟩
    refine ⟨fun l k' hl x hx => ?_, hok⟩
    by_cases hk : k' = k
    · subst hk
      exact absurd hl (hfree l (AList.mem_keys.mp (Table.mem_of_lookup hl)))
    · rw [hc.other k' hk] at hx
      exact h.sound l k' hl x hx

end View

end Sem
