import Mathlib.Data.Finset.Lattice.Fold
import Mathlib.Order.Lattice.Nat
import Sem.Medea.DataConsistency

/-!
# Runs of data and links

* `Tidy`: which actions keep linked `Data` consistent.
* `consistent_of_reachBy`: what holds in every run of such actions.
* `not_forall_consistent`: a `Data` that loses one of two parents, and a circle.
-/

namespace Sem.Medea

universe u

variable {Value : Type u} {hooks : Hooks Value} {s s' t : DataState Value} {d e c p : ℕ}
  {v w : Value} {fuel fuel' n m : ℕ} {X W : ℕ → Prop} {base : ℕ → Value}

/-! ## Each function -/

/-- Fewer links, fewer calls. -/
theorem Triggers.mono {childDatas childDatas' : ℕ → Finset ℕ} {call call' : Call}
    (hle : ∀ d, childDatas d ⊆ childDatas' d) (h : Triggers hooks childDatas call' call) :
    Triggers hooks childDatas' call' call := by
  cases h with
  | child h => exact .child (hle _ h)
  | childOfForce h => exact .childOfForce (hle _ h)
  | forced h => exact .forced h
  | after h => exact .after h

/-- And fewer writes. -/
theorem Writes.mono {childDatas childDatas' : ℕ → Finset ℕ} {call : Call}
    (hle : ∀ d, childDatas d ⊆ childDatas' d) (h : Writes hooks childDatas call e) :
    Writes hooks childDatas' call e := by
  obtain ⟨last, hleads, htarget⟩ := h
  exact ⟨last, Relation.ReflTransGen.mono (fun _ _ => Triggers.mono hle) _ _ hleads, htarget⟩

/-- What stays inside with more links stays inside with fewer. -/
theorem Inside.mono {childDatas childDatas' : ℕ → Finset ℕ} {call : Call}
    (hle : ∀ d, childDatas d ⊆ childDatas' d) (h : Inside hooks childDatas' W call) :
    Inside hooks childDatas W call :=
  fun e hwrites => h e (hwrites.mono hle)

theorem childDatas_removeLink (e : ℕ) : (removeLink s d c).childDatas e ⊆ s.childDatas e :=
  fun _ h => (mem_child_removeLink.mp h).2

/-- Calls end even more so without a link. -/
theorem Linked.removeLink (h : Linked hooks s) : Linked hooks (removeLink s d c) := by
  refine ⟨h.sides.removeLink, fun e hparents => ?_, ?_⟩
  · obtain ⟨p, hp⟩ := hparents
    exact h.untouched e ⟨p, (mem_parent_removeLink.mp hp).2⟩
  · exact Subrelation.wf (Triggers.mono childDatas_removeLink) h.ends

/-- Calls still end if the new link leads to no cycle. -/
theorem Linked.addLink (h : Linked hooks s) (hd : d ∈ s.datas) (hc : c ∈ s.datas)
    (huntouched : Untouched hooks c)
    (hends : WellFounded (Triggers hooks (addLink s d c).childDatas)) :
    Linked hooks (addLink s d c) := by
  refine ⟨h.sides.addLink hd hc, fun e hparents => ?_, hends⟩
  obtain ⟨p, hp⟩ := hparents
  rcases mem_parent_addLink.mp hp with ⟨-, rfl⟩ | hp
  · exact huntouched
  · exact h.untouched e ⟨p, hp⟩

theorem Linked.addData (h : Linked hooks s) : Linked hooks (addData hooks s d) :=
  ⟨h.sides.addData, h.untouched, h.ends⟩

/-- What the key of a `Data` with parents makes of the value is the value of one of them. -/
def Agrees (hooks : Hooks Value) (s : DataState Value) (d : ℕ) (v : Value) : Prop :=
  (s.parentDatas d).Nonempty →
    ∃ p ∈ s.parentDatas d, hooks.validateDataChange s.value d v = s.value p

/-- The keys take the values that a call of `setValue` hands down, while no others change than
those that it writes. -/
def Keeps (hooks : Hooks Value) (s : DataState Value) (d : ℕ) (v : Value) : Prop :=
  Carried hooks s.childDatas (Meanwhile (Writes hooks s.childDatas (.set d)) s.value) s.value d v

/-- A value that is set, among others that are excused. -/
theorem setValue_settles (hs : Linked hooks s) (hothers : ∀ c, ¬X c → c ≠ d → Holds s c)
    (hv : ¬X d → Agrees hooks s d v) (hvalues : Meanwhile W base s.value)
    (hinside : Inside hooks s.childDatas W (.set d))
    (hcarried : Carried hooks s.childDatas (Meanwhile W base) s.value d v)
    (h : setValue hooks n s d v = some s') : ∀ c, ¬X c → Holds s' c := by
  refine settles n s X W base d v s' hs ⟨hothers, fun hX hparents => ?_⟩ hvalues hinside hcarried h
  obtain ⟨p, hp, hvalue⟩ := hv hX hparents
  have hchild : d ∈ s.childDatas p := (hs.sides.inverse p d).mpr hp
  exact ⟨p, hp, hvalue, not_writes_of_acc (hs.ends.apply (.set p)) hchild⟩

/-- A value that is set from outside. -/
theorem setValue_holds (hs : Linked hooks s) (hothers : ∀ c, c ≠ d → Holds s c)
    (hv : Agrees hooks s d v) (hkeeps : Keeps hooks s d v)
    (h : setValue hooks n s d v = some s') : ∀ c, Holds s' c := fun c =>
  setValue_settles (X := fun _ => False) hs (fun c _ => hothers c) (fun _ => hv) (fun _ _ => rfl)
    (fun _ hwrites => hwrites) hkeeps h c not_false

/-- Both sides of a link go together. -/
theorem unlinkData_linked (hs : Linked hooks s) (h : unlinkData hooks fuel s d c = some s') :
    Linked hooks s' := by
  rcases unlinkData_cases hs.sides h with ⟨-, rfl⟩ | ⟨-, h⟩
  · exact hs
  · exact hs.removeLink.of_sameLinks (setValue_sameLinks h)

/-- A link is taken away from a `Data` to which the empty string can be set. -/
theorem unlinkData_holds (hs : Linked hooks s) (hholds : ∀ c, ¬X c → Holds s c)
    (hc : ¬X c → c ∈ s.childDatas d → Agrees hooks (removeLink s d c) c hooks.emptyString)
    (hvalues : Meanwhile W base s.value)
    (hinside : c ∈ s.childDatas d → Inside hooks (removeLink s d c).childDatas W (.set c))
    (hcarried : c ∈ s.childDatas d →
      Carried hooks (removeLink s d c).childDatas (Meanwhile W base) s.value c hooks.emptyString)
    (h : unlinkData hooks fuel s d c = some s') :
    (∀ c, ¬X c → Holds s' c) ∧ Meanwhile W base s'.value := by
  rcases unlinkData_cases hs.sides h with ⟨-, rfl⟩ | ⟨hchild, h⟩
  · exact ⟨hholds, hvalues⟩
  · refine ⟨setValue_settles hs.removeLink (fun e hX hne => ?_) (fun hX => hc hX hchild) hvalues
      (hinside hchild) (hcarried hchild) h,
        Meanwhile.setValue (s := removeLink s d c) hvalues (hinside hchild) h⟩
    rintro ⟨q, hq⟩
    obtain ⟨p, hp, hvalue⟩ := hholds e hX ⟨q, (mem_parent_removeLink.mp hq).2⟩
    exact ⟨p, mem_parent_removeLink.mpr ⟨fun heq => hne heq.2, hp⟩, hvalue⟩

/-- The children of `d` have no other parent. -/
def SoleParent (s : DataState Value) (d : ℕ) : Prop :=
  ∀ c ∈ s.childDatas d, s.parentDatas c ⊆ {d}

/-- Without that parent, they have none. -/
theorem SoleParent.not_nonempty (hsole : SoleParent s d) (hc : c ∈ s.childDatas d) :
    ¬((removeLink s d c).parentDatas c).Nonempty := by
  rintro ⟨p, hp⟩
  obtain ⟨hne, hp⟩ := mem_parent_removeLink.mp hp
  exact hne ⟨Finset.mem_singleton.mp (hsole c hc hp), rfl⟩

/-- A datum does not get another parent by losing one. -/
theorem SoleParent.unlinkData (hsole : SoleParent s e) (hm : Mutual s)
    (h : unlinkData hooks fuel s d c = some s') : SoleParent s' e := by
  have hm' := unlinkData_mutual hm h
  intro x hx
  have hparents := parentDatas_unlinkData hm h (e := x)
  refine hparents.trans (hsole x ((hm.inverse e x).mpr (hparents ((hm'.inverse e x).mp hx))))

/-- A link that goes takes no child to anyone. -/
theorem childDatas_unlinkData (hm : Mutual s) (h : unlinkData hooks fuel s d c = some s') :
    s'.childDatas e ⊆ s.childDatas e := by
  rcases unlinkData_cases hm h with ⟨-, rfl⟩ | ⟨-, h⟩
  · exact Finset.Subset.refl _
  · rw [(setValue_sameLinks h).childDatas]
    exact childDatas_removeLink e

/-- While `d` loses its links, it is excused. -/
structure Dying (hooks : Hooks Value) (childDatas : ℕ → Finset ℕ) (W : ℕ → Prop)
    (base : ℕ → Value) (d : ℕ) (s : DataState Value) : Prop where
  linked : Linked hooks s
  holds : ∀ c, c ≠ d → Holds s c
  sole : SoleParent s d
  links : ∀ e, s.childDatas e ⊆ childDatas e
  values : Meanwhile W base s.value

/-- The empty string can be set, whatever the values are by then. -/
def Empties (hooks : Hooks Value) (childDatas : ℕ → Finset ℕ) (M : (ℕ → Value) → Prop) (c : ℕ) :
    Prop :=
  Carries hooks childDatas M (.set c, hooks.emptyString)

namespace Dying

variable {childDatas : ℕ → Finset ℕ}

/-- One of its links goes, and the others hold as before. -/
theorem unlinkData (h : Dying hooks childDatas W base e s) (hlink : c = e ∨ d = e)
    (hinside : c ∈ s.childDatas d → Inside hooks childDatas W (.set c))
    (hempties : c ∈ s.childDatas d → Empties hooks childDatas (Meanwhile W base) c)
    (hunlink : unlinkData hooks fuel s d c = some s') : Dying hooks childDatas W base e s' := by
  have hle : ∀ x, (removeLink s d c).childDatas x ⊆ childDatas x := fun x =>
    (childDatas_removeLink x).trans (h.links x)
  obtain ⟨hholds, hvalues⟩ := unlinkData_holds (X := fun c => c = e) h.linked h.holds
    (fun hne hchild hparents => by
      obtain rfl := hlink.resolve_left hne
      exact absurd hparents (h.sole.not_nonempty hchild)) h.values (fun hchild => (hinside hchild).mono hle)
    (fun hchild => ((hempties hchild).mono hle).carried h.values) hunlink
  exact ⟨unlinkData_linked h.linked hunlink, hholds, h.sole.unlinkData h.linked.sides hunlink,
    fun x => (childDatas_unlinkData h.linked.sides hunlink).trans (h.links x), hvalues⟩

/-- By induction over the parents that are left. -/
theorem unlinkParents (h : Dying hooks childDatas W base d s)
    (hinside : Inside hooks childDatas W (.set d))
    (hempties : (s.parentDatas d).Nonempty → Empties hooks childDatas (Meanwhile W base) d)
    (hunlink : unlinkParents hooks fuel n s d = some s') :
    Dying hooks childDatas W base d s' := by
  induction n generalizing s with
  | zero => cases hunlink
  | succ n ih =>
    unfold Medea.unlinkParents at hunlink
    split at hunlink
    · obtain rfl := Option.some.inj hunlink
      exact h
    · next top _ hiterate =>
      obtain ⟨t, ht, hunlink⟩ := Option.bind_eq_some_iff.mp hunlink
      have htop : top ∈ s.parentDatas d := by
        rw [← hooks.mem_iterate, hiterate]
        exact List.mem_cons_self
      refine ih (h.unlinkData (.inl rfl) (fun _ => hinside) (fun _ => hempties ⟨top, htop⟩) ht)
        (fun hparents => hempties ?_) hunlink
      exact hparents.mono (parentDatas_unlinkData h.linked.sides ht)

/-- By induction over the children that are left. -/
theorem unlinkChildren (h : Dying hooks childDatas W base d s)
    (hinside : Inside hooks childDatas W (.set d))
    (hempties : ∀ c ∈ childDatas d, Empties hooks childDatas (Meanwhile W base) c)
    (hunlink : unlinkChildren hooks fuel n s d = some s') :
    Dying hooks childDatas W base d s' := by
  induction n generalizing s with
  | zero => cases hunlink
  | succ n ih =>
    unfold Medea.unlinkChildren at hunlink
    split at hunlink
    · obtain rfl := Option.some.inj hunlink
      exact h
    · obtain ⟨t, ht, hunlink⟩ := Option.bind_eq_some_iff.mp hunlink
      exact ih (h.unlinkData (.inr rfl) (fun hc => hinside.of_triggers (.child (h.links d hc)))
        (fun hc => hempties _ (h.links d hc)) ht) hunlink

end Dying

/-- The children have no other parent, and the empty string can be set to the `Data` and to them. -/
structure Dispensable (hooks : Hooks Value) (s : DataState Value) (d : ℕ) : Prop where
  sole : SoleParent s d
  own : (s.parentDatas d).Nonempty → Empties hooks s.childDatas
    (Meanwhile (Writes hooks s.childDatas (.set d)) s.value) d
  children : ∀ c ∈ s.childDatas d, Empties hooks s.childDatas
    (Meanwhile (Writes hooks s.childDatas (.set d)) s.value) c

/-- After its destructor a datum has no link, and the others hold as before. -/
theorem destruct_holds (hs : Linked hooks s) (hholds : ∀ c, Holds s c)
    (hd : Dispensable hooks s d) (h : destruct hooks fuel s d = some s') :
    Linked hooks s' ∧ ∀ c, Holds s' c := by
  obtain ⟨hm, -, hgone⟩ := destruct_mutual hs.sides h
  obtain ⟨s₁, h₁, h⟩ := Option.bind_eq_some_iff.mp h
  obtain ⟨s₂, h₂, rfl⟩ := Option.map_eq_some_iff.mp h
  have hdying : Dying hooks s.childDatas (Writes hooks s.childDatas (.set d)) s.value d s :=
    ⟨hs, fun c _ => hholds c, hd.sole, fun _ => Finset.Subset.refl _, fun _ _ => rfl⟩
  have hinside : Inside hooks s.childDatas (Writes hooks s.childDatas (.set d)) (.set d) :=
    fun _ hwrites => hwrites
  have hdone := (hdying.unlinkParents hinside hd.own h₁).unlinkChildren hinside hd.children h₂
  refine ⟨⟨hm, hdone.linked.untouched, hdone.linked.ends⟩, fun c => ?_⟩
  by_cases hc : c = d
  · subst hc
    rintro ⟨p, hp⟩
    exact absurd ((hm.inverse p c).mpr hp) (hgone p).2
  · exact hdone.holds c hc

/-- The new child is set by no other key, the link closes no circle, and a value that changes by it
is taken. -/
structure Linkable (hooks : Hooks Value) (s : DataState Value) (d c : ℕ) : Prop where
  untouched : Untouched hooks c
  ends : WellFounded (Triggers hooks (addLink s d c).childDatas)
  agrees : s.value d ≠ s.value c → Agrees hooks (addLink s d c) c (s.value d)
  keeps : s.value d ≠ s.value c → Keeps hooks (addLink s d c) c (s.value d)

/-- A link that was there is left as it is. -/
theorem linkData_holds [DecidableEq Value] (hs : Linked hooks s) (hholds : ∀ c, Holds s c)
    (hd : d ∈ s.datas) (hc : c ∈ s.datas) (hlink : c ∉ s.childDatas d → Linkable hooks s d c)
    (h : linkData hooks fuel s d c = some s') : Linked hooks s' ∧ ∀ c, Holds s' c := by
  have hothers : ∀ e, e ≠ c → Holds (addLink s d c) e := by
    rintro e hne ⟨q, hq⟩
    have hq : q ∈ s.parentDatas e :=
      (mem_parent_addLink.mp hq).resolve_left fun heq => hne heq.2
    obtain ⟨p, hp, hvalue⟩ := hholds e ⟨q, hq⟩
    exact ⟨p, mem_parent_addLink.mpr (Or.inr hp), hvalue⟩
  rcases linkData_cases hs.sides h with ⟨-, rfl⟩ | ⟨hnew, hvalue, rfl⟩ | ⟨hnew, hne, h⟩
  · exact ⟨hs, hholds⟩
  · refine ⟨hs.addLink hd hc (hlink hnew).untouched (hlink hnew).ends, fun e => ?_⟩
    by_cases he : e = c
    · subst he
      exact fun _ => ⟨d, mem_parent_addLink.mpr (Or.inl ⟨rfl, rfl⟩), hvalue.symm⟩
    · exact hothers e he
  · have hlinked := hs.addLink hd hc (hlink hnew).untouched (hlink hnew).ends
    exact ⟨hlinked.of_sameLinks (setValue_sameLinks h),
      setValue_holds hlinked hothers ((hlink hnew).agrees hne) ((hlink hnew).keeps hne) h⟩

/-- A new datum has no parent to agree with. -/
theorem construct_holds [DecidableEq Value] (hs : Linked hooks s) (hholds : ∀ c, Holds s c)
    (hd : d ∉ s.datas) (hkeeps : v ≠ hooks.invalid → Keeps hooks (addData hooks s d) d v)
    (h : construct hooks fuel s d v = some s') : Linked hooks s' ∧ ∀ c, Holds s' c := by
  obtain ⟨hparents, hchildren⟩ := hs.sides.links_eq_empty hd
  have hnew : ∀ c, Holds (addData hooks s d) c := by
    rintro c ⟨q, hq⟩
    obtain ⟨p, hp, hvalue⟩ := hholds c ⟨q, hq⟩
    have hc : c ≠ d := by
      rintro rfl
      rw [hparents] at hp
      cases hp
    have hpd : p ≠ d := by
      rintro rfl
      have := (hs.sides.inverse p c).mpr hp
      rw [hchildren] at this
      cases this
    refine ⟨p, hp, ?_⟩
    simp only [addData, Function.update_of_ne hc, Function.update_of_ne hpd]
    exact hvalue
  rcases construct_cases hs.sides hd h with rfl | ⟨hv, h⟩
  · exact ⟨hs.addData, hnew⟩
  · refine ⟨hs.addData.of_sameLinks (setValue_sameLinks h),
      setValue_holds hs.addData (fun c _ => hnew c) ?_ (hkeeps hv) h⟩
    rintro ⟨p, hp⟩
    rw [addData, hparents] at hp
    cases hp

/-- A parent that comes late hands its value down. -/
theorem registerParent_holds (hs : Linked hooks s) (hholds : ∀ c, Holds s c)
    (hv : Agrees hooks s d (s.value d)) (hkeeps : Keeps hooks s d (s.value d))
    (h : registerParent hooks fuel s d = some s') : Linked hooks s' ∧ ∀ c, Holds s' c := by
  obtain ⟨t, ht, h⟩ := Option.bind_eq_some_iff.mp h
  have hholdst := setValue_holds hs (fun c _ => hholds c) hv hkeeps ht
  have hsame := setValue_sameLinks ht
  have hst := hs.of_sameLinks hsame
  have hinside : Inside hooks s.childDatas (Writes hooks s.childDatas (.set d)) (.set d) :=
    fun _ hwrites => hwrites
  have hvalues : Meanwhile (Writes hooks s.childDatas (.set d)) s.value t.value :=
    Meanwhile.setValue (fun _ _ => rfl) hinside ht
  refine ⟨hst.of_sameLinks (updateChildren_sameLinks (fun _ _ _ _ => setValue_sameLinks) h), ?_⟩
  refine fun c => updateChildren_holds (X := fun _ => False)
    (settles fuel) hst (fun c _ _ => hholdst c) hvalues (fun c hc => ?_) ?_ h c not_false
  · rw [hsame.childDatas] at hc ⊢
    exact hinside.of_triggers (.child hc)
  · -- the value is handed down once more
    rw [hsame.childDatas]
    exact repeats fuel s _ _ _ d _ t d rfl (fun _ _ => rfl) hinside hkeeps (.inl rfl) ht

/-! ## The destructor returns -/

/-- More fuel, the same result. -/
theorem unlinkData_mono (hle : fuel ≤ fuel') (h : unlinkData hooks fuel s d c = some s') :
    unlinkData hooks fuel' s d c = some s' := by
  unfold unlinkData removeParentData at *
  split
  · next hc =>
    rw [if_pos hc] at h
    split
    · next hd =>
      rw [if_pos hd] at h
      exact setValue_mono hle h
    · next hd =>
      rw [if_neg hd] at h
      exact h
  · next hc =>
    rw [if_neg hc] at h
    exact h

theorem unlinkParents_mono (hfuel : fuel ≤ fuel') (hle : n ≤ m)
    (h : unlinkParents hooks fuel n s d = some s') :
    unlinkParents hooks fuel' m s d = some s' := by
  induction n generalizing m s with
  | zero => cases h
  | succ n ih =>
    obtain ⟨m, rfl⟩ : ∃ m', m = m' + 1 := ⟨m - 1, by omega⟩
    unfold unlinkParents at h ⊢
    split at h
    · exact h
    · obtain ⟨t, ht, h⟩ := Option.bind_eq_some_iff.mp h
      exact Option.bind_eq_some_iff.mpr ⟨t, unlinkData_mono hfuel ht, ih (by omega) h⟩

theorem unlinkChildren_mono (hfuel : fuel ≤ fuel') (hle : n ≤ m)
    (h : unlinkChildren hooks fuel n s d = some s') :
    unlinkChildren hooks fuel' m s d = some s' := by
  induction n generalizing m s with
  | zero => cases h
  | succ n ih =>
    obtain ⟨m, rfl⟩ : ∃ m', m = m' + 1 := ⟨m - 1, by omega⟩
    unfold unlinkChildren at h ⊢
    split at h
    · exact h
    · obtain ⟨t, ht, h⟩ := Option.bind_eq_some_iff.mp h
      exact Option.bind_eq_some_iff.mpr ⟨t, unlinkData_mono hfuel ht, ih (by omega) h⟩

/-- To take away a link returns. -/
theorem exists_unlinkData (hs : Linked hooks s) (hc : c ∈ s.childDatas d) :
    ∃ n s', unlinkData hooks n s d c = some s' := by
  obtain ⟨n, s', h⟩ := exists_setValue (s := removeLink s d c) (hs.removeLink.ends.apply (.set c))
    hooks.emptyString
  refine ⟨n, s', ?_⟩
  unfold unlinkData removeParentData
  rw [if_pos hc, if_pos ((hs.sides.inverse d c).mp hc)]
  exact h

/-- One parent less. -/
theorem parentDatas_of_unlinkData (hs : Linked hooks s) (hc : c ∈ s.childDatas d)
    (h : unlinkData hooks fuel s d c = some s') :
    s'.parentDatas c = (s.parentDatas c).erase d ∧
      s'.childDatas d = (s.childDatas d).erase c := by
  rcases unlinkData_cases hs.sides h with ⟨hnot, -⟩ | ⟨-, h⟩
  · exact absurd hc hnot
  · have hsame := setValue_sameLinks h
    rw [hsame.parentDatas, hsame.childDatas]
    exact ⟨Function.update_self .., Function.update_self ..⟩

/-- Some fuel is enough, as each round removes a parent. -/
theorem exists_unlinkParents (hs : Linked hooks s) (hcard : (s.parentDatas d).card ≤ m) :
    ∃ n s', unlinkParents hooks n (m + 1) s d = some s' ∧ Linked hooks s' := by
  induction m generalizing s with
  | zero =>
    have hempty : hooks.iterate (s.parentDatas d) = [] := by
      rw [List.eq_nil_iff_forall_not_mem]
      intro p hp
      rw [hooks.mem_iterate, Finset.card_eq_zero.mp (Nat.le_zero.mp hcard)] at hp
      cases hp
    refine ⟨0, s, ?_, hs⟩
    rw [unlinkParents, hempty]
  | succ m ih =>
    cases hiterate : hooks.iterate (s.parentDatas d) with
    | nil =>
      refine ⟨0, s, ?_, hs⟩
      rw [unlinkParents, hiterate]
    | cons top rest =>
      have htop : top ∈ s.parentDatas d := by
        rw [← hooks.mem_iterate, hiterate]
        exact List.mem_cons_self
      have hchild := (hs.sides.inverse top d).mpr htop
      obtain ⟨n₁, t, ht⟩ := exists_unlinkData hs hchild
      have hfewer : (t.parentDatas d).card ≤ m := by
        rw [(parentDatas_of_unlinkData hs hchild ht).1, Finset.card_erase_of_mem htop]
        omega
      obtain ⟨n₂, s', hs', hlinked⟩ := ih (unlinkData_linked hs ht) hfewer
      refine ⟨max n₁ n₂, s', ?_, hlinked⟩
      rw [unlinkParents, hiterate]
      exact Option.bind_eq_some_iff.mpr ⟨t, unlinkData_mono (Nat.le_max_left ..) ht,
        unlinkParents_mono (Nat.le_max_right ..) (Nat.le_refl _) hs'⟩

/-- The same for the children. -/
theorem exists_unlinkChildren (hs : Linked hooks s) (hcard : (s.childDatas d).card ≤ m) :
    ∃ n s', unlinkChildren hooks n (m + 1) s d = some s' := by
  induction m generalizing s with
  | zero =>
    have hempty : hooks.iterate (s.childDatas d) = [] := by
      rw [List.eq_nil_iff_forall_not_mem]
      intro c hc
      rw [hooks.mem_iterate, Finset.card_eq_zero.mp (Nat.le_zero.mp hcard)] at hc
      cases hc
    refine ⟨0, s, ?_⟩
    rw [unlinkChildren, hempty]
  | succ m ih =>
    cases hiterate : hooks.iterate (s.childDatas d) with
    | nil =>
      refine ⟨0, s, ?_⟩
      rw [unlinkChildren, hiterate]
    | cons top rest =>
      have hchild : top ∈ s.childDatas d := by
        rw [← hooks.mem_iterate, hiterate]
        exact List.mem_cons_self
      obtain ⟨n₁, t, ht⟩ := exists_unlinkData hs hchild
      have hfewer : (t.childDatas d).card ≤ m := by
        rw [(parentDatas_of_unlinkData hs hchild ht).2, Finset.card_erase_of_mem hchild]
        omega
      obtain ⟨n₂, s', hs'⟩ := ih (unlinkData_linked hs ht) hfewer
      refine ⟨max n₁ n₂, s', ?_⟩
      rw [unlinkChildren, hiterate]
      exact Option.bind_eq_some_iff.mpr ⟨t, unlinkData_mono (Nat.le_max_left ..) ht,
        unlinkChildren_mono (Nat.le_max_right ..) (Nat.le_refl _) hs'⟩

/-- Both loops of the destructor come to an end. -/
theorem exists_destruct (hs : Linked hooks s) : ∃ n s', destruct hooks n s d = some s' := by
  obtain ⟨n₁, s₁, h₁, hs₁⟩ := exists_unlinkParents hs (Nat.le_refl (s.parentDatas d).card)
  obtain ⟨n₂, s₂, h₂⟩ := exists_unlinkChildren hs₁ (Nat.le_refl (s₁.childDatas d).card)
  refine ⟨max (max n₁ n₂) (max ((s.parentDatas d).card + 1) ((s₁.childDatas d).card + 1)),
    { s₂ with datas := s₂.datas.erase d }, ?_⟩
  refine Option.bind_eq_some_iff.mpr ⟨s₁, unlinkParents_mono (by omega) (by omega) h₁, ?_⟩
  exact Option.map_eq_some_iff.mpr ⟨s₂, unlinkChildren_mono (by omega) (by omega) h₂, rfl⟩

/-! ## Every run -/

/-- Which actions keep linked `Data` consistent. -/
def Tidy (hooks : Hooks Value) (s : DataState Value) : DataAction Value → Prop
  | .construct d v => v ≠ hooks.invalid → Keeps hooks (addData hooks s d) d v
  | .destruct d => Dispensable hooks s d
  | .registerParent d => Agrees hooks s d (s.value d) ∧ Keeps hooks s d (s.value d)
  | .setValue d v => Agrees hooks s d v ∧ Keeps hooks s d v
  | .linkData d c => c ∉ s.childDatas d → Linkable hooks s d c
  | .unlinkData d c => c ∈ s.childDatas d →
    Agrees hooks (removeLink s d c) c hooks.emptyString ∧
      Keeps hooks (removeLink s d c) c hooks.emptyString

/-- The links agree, a linked `Data` holds the value of a parent, every update returns, and so does
every destructor, which leaves no link behind. -/
structure Consistent (hooks : Hooks Value) (s : DataState Value) : Prop where
  sides : Mutual s
  holds : ∀ c, (s.parentDatas c).Nonempty → ∃ p ∈ s.parentDatas c, s.value c = s.value p
  updates : ∀ d ∈ s.datas, ∀ v, ∃ n s', setValue hooks n s d v = some s'
  destructs : ∀ d ∈ s.datas, ∃ n s', destruct hooks n s d = some s' ∧
    ∀ e, d ∉ s'.parentDatas e ∧ d ∉ s'.childDatas e

/-- The invariant and the children that hold are the property. -/
theorem Linked.consistent (hs : Linked hooks s) (hholds : ∀ c, Holds s c) : Consistent hooks s := by
  refine ⟨hs.sides, hholds, fun d _ v => exists_setValue (hs.ends.apply (.set d)) v,
    fun d _ => ?_⟩
  obtain ⟨n, s', h⟩ := exists_destruct hs
  exact ⟨n, s', h, (destruct_mutual hs.sides h).2.2⟩

/-- Each tidy action keeps both. -/
theorem Linked.step [DecidableEq Value] {a : DataAction Value} (hs : Linked hooks s)
    (hholds : ∀ c, Holds s c) (htidy : Tidy hooks s a) (h : perform hooks fuel s a = some s') :
    Linked hooks s' ∧ ∀ c, Holds s' c := by
  cases a with
  | construct d v =>
    obtain ⟨hd, h⟩ : d ∉ s.datas ∧ construct hooks fuel s d v = some s' := by
      simpa [perform] using h
    exact construct_holds hs hholds hd htidy h
  | destruct d =>
    obtain ⟨-, h⟩ : d ∈ s.datas ∧ destruct hooks fuel s d = some s' := by simpa [perform] using h
    exact destruct_holds hs hholds htidy h
  | registerParent d =>
    obtain ⟨-, h⟩ : d ∈ s.datas ∧ registerParent hooks fuel s d = some s' := by
      simpa [perform] using h
    exact registerParent_holds hs hholds htidy.1 htidy.2 h
  | setValue d v =>
    obtain ⟨-, h⟩ : d ∈ s.datas ∧ setValue hooks fuel s d v = some s' := by
      simpa [perform] using h
    exact ⟨hs.of_sameLinks (setValue_sameLinks h),
      setValue_holds hs (fun c _ => hholds c) htidy.1 htidy.2 h⟩
  | linkData d c =>
    obtain ⟨⟨hd, hc⟩, h⟩ : (d ∈ s.datas ∧ c ∈ s.datas) ∧
        linkData hooks fuel s d c = some s' := by simpa [perform] using h
    exact linkData_holds hs hholds hd hc htidy h
  | unlinkData d c =>
    obtain ⟨-, h⟩ : (d ∈ s.datas ∧ c ∈ s.datas) ∧ unlinkData hooks fuel s d c = some s' := by
      simpa [perform] using h
    obtain ⟨hkept, -⟩ := unlinkData_holds (X := fun _ => False)
      (W := Writes hooks (Medea.removeLink s d c).childDatas (.set c)) hs (fun c _ => hholds c)
      (fun _ hc => (htidy hc).1) (fun _ _ => rfl) (fun _ _ hwrites => hwrites)
      (fun hc => (htidy hc).2) h
    exact ⟨unlinkData_linked hs h, fun e => hkept e not_false⟩

/-- Every run of tidy actions, with keys that do not set each other in a circle. -/
theorem consistent_of_reachBy [DecidableEq Value]
    (hhooks : WellFounded (Triggers hooks fun _ => ∅))
    (h : (dataSystem hooks).ReachBy (Tidy hooks) s) : Consistent hooks s := by
  have hinv : Linked hooks s ∧ ∀ c, Holds s c := by
    refine Lts.InductiveBy.reach (I := fun s => Linked hooks s ∧ ∀ c, Holds s c) ⟨?_, ?_⟩ h
    · rintro s rfl
      refine ⟨⟨mutual_of_reach (.init rfl), ?_, hhooks⟩, ?_⟩
      · rintro c ⟨p, hp⟩
        cases hp
      · rintro c ⟨p, hp⟩
        cases hp
    · rintro s a s' ⟨hs, hholds⟩ htidy ⟨fuel, hstep⟩
      exact hs.step hholds htidy hstep
  exact hinv.1.consistent hinv.2

/-! ## A lost parent and a circle -/

/-- An update that comes to a circle of links does not return. -/
theorem setValue_eq_none_of_circle {C : ℕ → Prop} (hC : ∀ d, C d → ∃ c ∈ s.childDatas d, C c)
    (hd : C d) : setValue hooks n s d v = none := by
  induction n generalizing s d v with
  | zero => rfl
  | succ n ih =>
    by_contra hsome
    obtain ⟨s', h⟩ := Option.ne_none_iff_exists'.mp hsome
    obtain ⟨s₁, s₂, h₁, h₂, -⟩ := setValue_cases h
    have hsame : SameLinks s s₁ :=
      foldlM_keeps (fun _ _ _ _ hs h => hs.trans
        (setData_sameLinks (fun _ _ _ _ => setValue_sameLinks) h)) (SameLinks.refl s) h₁
    obtain ⟨c, hchild, hc⟩ := hC d hd
    rw [← hsame.childDatas] at hchild hC
    obtain ⟨t, t', ht, hpass⟩ := exists_pass (P := fun t => t.childDatas = s₁.childDatas)
      (fun _ _ _ _ ht hpass => (setValue_sameLinks hpass).childDatas.trans ht) rfl h₂
      ((hooks.mem_iterate _ c).mpr hchild)
    rw [← ht] at hC
    rw [ih hC hc] at hpass
    cases hpass

/-- Keys of texts, which make the empty text of no value; a set is gone through in the order of the
numbers. -/
def textHooks : Hooks (Option String) where
  invalid := none
  emptyString := some ""
  validateDataChange _ _ v := some (v.getD "")
  forced _ _ _ := []
  after _ _ := []
  iterate s := (List.range (s.sup id + 1)).filter fun d => d ∈ s
  mem_iterate s d := by
    rw [List.mem_filter, List.mem_range, decide_eq_true_eq, Nat.lt_succ_iff, and_iff_right_iff_imp]
    exact fun hd => Finset.le_sup (f := id) hd

theorem untouched_textHooks (c : ℕ) : Untouched textHooks c :=
  ⟨fun _ _ _ _ h => List.not_mem_nil h, fun _ _ _ h => List.not_mem_nil h⟩

/-- A text is taken as it is. -/
theorem carries_textHooks {childDatas : ℕ → Finset ℕ} {M : (ℕ → Option String) → Prop}
    {x : Call × Option String} (hx : x.2 ≠ none) : Carries textHooks childDatas M x := by
  intro caller callee hreach hhands _ values _
  have hstep : ∀ y z, y.2 ≠ none → Hands textHooks childDatas M y z → z.2 ≠ none := by
    rintro y z hy (_ | _ | ⟨_, h⟩ | ⟨_, h⟩)
    · exact nofun
    · exact hy
    · cases h
    · cases h
  have hreached : ∀ y, Relation.ReflTransGen (Hands textHooks childDatas M) x y → y.2 ≠ none := by
    intro y hreach
    induction hreach with
    | refl => exact hx
    | tail _ hhands ih => exact hstep _ _ ih hhands
  obtain ⟨text, htext⟩ := Option.ne_none_iff_exists'.mp (hstep _ _ (hreached _ hreach) hhands)
  rw [htext]
  rfl

theorem keeps_textHooks (s : DataState (Option String)) (d : ℕ) (v : Option String) :
    Keeps textHooks s d v :=
  ⟨carries_textHooks nofun, fun _ h => absurd h List.not_mem_nil,
    fun _ _ _ h => absurd h List.not_mem_nil⟩

/-- Without hooks, the calls follow the links. -/
theorem wellFounded_textHooks {childDatas : ℕ → Finset ℕ}
    (h : ∀ d, ∀ c ∈ childDatas d, d < c ∧ c ≤ m) :
    WellFounded (Triggers textHooks childDatas) := by
  refine Subrelation.wf (r := InvImage (· < ·) fun call : Call => m - call.target) ?_
    (InvImage.wf _ Nat.lt_wfRel.wf)
  intro call call' htriggers
  have hlt : ∀ d c, c ∈ childDatas d → m - c < m - d := by
    intro d c hc
    have := h d c hc
    omega
  cases htriggers with
  | child hc => exact hlt _ _ hc
  | childOfForce hc => exact hlt _ _ hc
  | forced hforce => cases hforce
  | after hafter => cases hafter

theorem wellFounded_textHooks_empty : WellFounded (Triggers textHooks fun _ => ∅) :=
  wellFounded_textHooks (m := 0) fun _ c hc => absurd hc (Finset.notMem_empty c)

theorem reach_of_performs [DecidableEq Value] {acts : List (DataAction Value)}
    (hs : (dataSystem hooks).Reach s) (h : acts.foldlM (perform hooks fuel) s = some s') :
    (dataSystem hooks).Reach s' :=
  foldlM_keeps (P := (dataSystem hooks).Reach) (fun a _ _ _ ht h => ht.next a ⟨fuel, h⟩) hs h

/-- The initial state of `textHooks`. -/
def noData : DataState (Option String) := ⟨∅, fun _ => none, fun _ => ∅, fun _ => ∅⟩

theorem not_forall_consistent : ¬∀ (hooks : Hooks (Option String)) s,
    WellFounded (Triggers hooks fun _ => ∅) → (dataSystem hooks).Reach s → Consistent hooks s := by
  intro hall
  have hinit : (dataSystem textHooks).Reach noData := .init rfl
  have hrun : ([.construct 1 (some "a"), .construct 2 (some "a"), .linkData 1 2,
      .linkData 2 1].foldlM (perform textHooks 3) noData).any (fun s => decide
        (1 ∈ s.datas ∧ 2 ∈ s.childDatas 1 ∧ 1 ∈ s.childDatas 2)) = true := by
    decide +kernel
  obtain ⟨s, hs, hcircle⟩ := Option.any_eq_true _ _ |>.mp hrun
  obtain ⟨hlive, h₁₂, h₂₁⟩ := of_decide_eq_true hcircle
  obtain ⟨n, s', h⟩ := (hall textHooks s wellFounded_textHooks_empty
    (reach_of_performs hinit hs)).updates 1 hlive none
  have hnone : setValue textHooks n s 1 none = none := by
    refine setValue_eq_none_of_circle (C := fun d => d = 1 ∨ d = 2) ?_ (Or.inl rfl)
    rintro d (rfl | rfl)
    · exact ⟨2, h₁₂, Or.inr rfl⟩
    · exact ⟨1, h₂₁, Or.inl rfl⟩
  rw [hnone] at h
  cases h

/-- One of two parents is lost. -/
example : ([.construct 1 (some "a"), .construct 2 (some "a"), .construct 3 none, .linkData 1 3,
    .linkData 2 3, .unlinkData 1 3].foldlM (perform textHooks 3) noData).any (fun s => decide
      (s.parentDatas 3 = {2} ∧ s.value 2 = some "a" ∧ s.value 3 = some "")) = true := by
  decide +kernel

/-- The value of one `Data`. -/
def DataState.write (s : DataState Value) (d : ℕ) (v : Value) : DataState Value :=
  { s with value := Function.update s.value d v }

theorem setValue_textHooks (n : ℕ) (s : DataState (Option String)) (d : ℕ) (v : Option String) :
    setValue textHooks (n + 1) s d v =
      updateChildren textHooks (setValue textHooks n) (s.write d (some (v.getD ""))) d := by
  show (updateChildren textHooks (setValue textHooks n) (s.write d (some (v.getD ""))) d).bind
    some = _
  exact Option.bind_fun_some _

/-- A text that is set, and handed down to none or to one that has no children. -/
theorem setValue_textHooks_leaf {s : DataState (Option String)} {v : Option String}
    (h : s.childDatas d = ∅) :
    setValue textHooks (n + 1) s d v = some (s.write d (some (v.getD ""))) := by
  have hempty : (s.write d (some (v.getD ""))).childDatas d = ∅ := h
  rw [setValue_textHooks, updateChildren, hempty]
  rfl

theorem setValue_textHooks_child {s : DataState (Option String)} {v : String}
    (h : textHooks.iterate (s.childDatas d) = [c]) (hc : s.childDatas c = ∅) :
    setValue textHooks (n + 2) s d (some v) =
      some ((s.write d (some v)).write c (some v)) := by
  have hchildren : textHooks.iterate ((s.write d (some v)).childDatas d) = [c] := h
  have hvalue : (s.write d (some v)).value d = some v := Function.update_self ..
  rw [setValue_textHooks, updateChildren, Option.getD_some, hchildren, List.foldlM_cons, hvalue,
    setValue_textHooks_leaf (s := s.write d (some v)) hc]
  rfl

/-- A `Data`, and two of them. -/
def oneText : DataState (Option String) := (addData textHooks noData 1).write 1 (some "a")

/-- A second datum, with a text of its own. -/
def twoTexts : DataState (Option String) := (addData textHooks oneText 2).write 2 (some "b")

/-- The second is linked to the first and takes its value. -/
def linkedTexts : DataState (Option String) := (addLink twoTexts 1 2).write 2 (some "a")

/-- The first is set once more, and hands its value down. -/
theorem consistent_of_reachBy_link :
    Consistent textHooks ((linkedTexts.write 1 (some "c")).write 2 (some "c")) := by
  have hinit : (dataSystem textHooks).ReachBy (Tidy textHooks) noData := .init rfl
  have hone : (dataSystem textHooks).ReachBy (Tidy textHooks) oneText := by
    refine .step (.construct 1 (some "a")) hinit (fun _ => keeps_textHooks _ _ _) ⟨1, ?_⟩
    have hdead : 1 ∉ noData.datas := Finset.notMem_empty 1
    rw [perform, if_neg hdead, construct_eq (mutual_of_reach hinit.reach) hdead,
      if_neg (by exact Option.some_ne_none "a"), setValue_textHooks_leaf rfl]
    rfl
  have htwo : (dataSystem textHooks).ReachBy (Tidy textHooks) twoTexts := by
    refine .step (.construct 2 (some "b")) hone (fun _ => keeps_textHooks _ _ _) ⟨1, ?_⟩
    have hdead : 2 ∉ oneText.datas := by decide
    rw [perform, if_neg hdead, construct_eq (mutual_of_reach hone.reach) hdead,
      if_neg (by exact Option.some_ne_none "b"), setValue_textHooks_leaf rfl]
    rfl
  have hlinkable : Linkable textHooks twoTexts 1 2 := by
    refine ⟨untouched_textHooks 2, wellFounded_textHooks (m := 2) fun d c hc => ?_,
      fun _ _ => ⟨1, mem_parent_addLink.mpr (.inl ⟨rfl, rfl⟩), rfl⟩,
      fun _ => keeps_textHooks _ _ _⟩
    obtain ⟨rfl, rfl⟩ | hc := mem_child_addLink.mp hc
    · decide
    · exact absurd hc (Finset.notMem_empty c)
  have hlinked : (dataSystem textHooks).ReachBy (Tidy textHooks) linkedTexts := by
    refine .step (.linkData 1 2) htwo (fun _ => hlinkable) ⟨1, ?_⟩
    rw [perform, if_pos (by decide), linkData_eq (mutual_of_reach htwo.reach)
      (Finset.notMem_empty 2), if_neg (by decide), setValue_textHooks_leaf rfl]
    rfl
  have hroot : ¬(linkedTexts.parentDatas 1).Nonempty := by decide
  refine consistent_of_reachBy wellFounded_textHooks_empty (.step (.setValue 1 (some "c")) hlinked
    ⟨fun hparents => absurd hparents hroot, keeps_textHooks _ _ _⟩ ⟨2, ?_⟩)
  rw [perform, if_pos (by decide), setValue_textHooks_child (c := 2) (by decide) rfl]

end Sem.Medea
