import Mathlib.Algebra.BigOperators.Group.Finset.Basic
import Mathlib.Algebra.Order.BigOperators.Group.Finset
import Mathlib.Data.Fintype.Basic
import Mathlib.Data.Prod.Lex
import Mathlib.Order.OrderIsoNat
import Sem.Lib.Run

/-!
# Kernels

Work items share a memory and run in groups. Between two barriers the items of a group take their
accesses of the memory in any order; the items of different groups are not ordered at all. A kernel
is the list of what its items do between barriers.

* `Prog`: what an item does up to a barrier, with `Prog.solo`, its effect when it runs alone.
* `Step`, `launch`: the machine, which takes one access of one item at a time.
* `Meets`: every run ends, touches only the cells it may, and leaves a memory as it should be.
* `Leads`: an item has cells of its own, and reads only these and the ones no item of its group
  writes before the barrier. Then the items act as if each ran alone (`Leads.item`).
* `Proof.meets`: an assertion for every barrier of every group makes a proof of the kernel.
-/

namespace Sem.Kernel

/-- What a work item does up to a barrier: accesses of cells, and at the end its private values. -/
inductive Prog (C : Type) (V : C → Type) (α : Type)
  | ret (a : α)
  | load (c : C) (k : V c → Prog C V α)
  | store (c : C) (v : V c) (k : Prog C V α)

variable {C : Type} {V : C → Type} {α β : Type}

namespace Prog

/-- One program after the other. -/
def bind : Prog C V α → (α → Prog C V β) → Prog C V β
  | ret a, f => f a
  | load c k, f => load c fun v => (k v).bind f
  | store c v k, f => store c v (k.bind f)

instance : Monad (Prog C V) where
  pure := ret
  bind := bind

/-- Read a cell. -/
def get (c : C) : Prog C V (V c) := load c ret

/-- Write a cell. -/
def set (c : C) (v : V c) : Prog C V Unit := store c v (ret ())

section Alone

variable [DecidableEq C] {m m' : (c : C) → V c} {ok reads owns : C → Prop} {p : Prog C V α}
  {f : α → Prog C V β}

/-- The result and the memory when nobody else writes. -/
def solo : Prog C V α → ((c : C) → V c) → α × ((c : C) → V c)
  | ret a, m => (a, m)
  | load c k, m => (k (m c)).solo m
  | store c v k, m => k.solo (Function.update m c v)

/-- The number of accesses when nobody else writes. -/
def cost : Prog C V α → ((c : C) → V c) → ℕ
  | ret _, _ => 0
  | load c k, m => (k (m c)).cost m + 1
  | store c v k, m => k.cost (Function.update m c v) + 1

/-- Alone, the program accesses cells that exist, reads what it may read and writes what it owns. -/
def Safe (ok reads owns : C → Prop) : Prog C V α → ((c : C) → V c) → Prop
  | ret _, _ => True
  | load c k, m => ok c ∧ reads c ∧ (k (m c)).Safe ok reads owns m
  | store c v k, m => ok c ∧ owns c ∧ k.Safe ok reads owns (Function.update m c v)

@[simp] theorem solo_pure (a : α) : (pure a : Prog C V α).solo m = (a, m) := rfl

@[simp] theorem solo_get (c : C) : (get c : Prog C V (V c)).solo m = (m c, m) := rfl

@[simp] theorem solo_set (c : C) (v : V c) :
    (set c v : Prog C V Unit).solo m = ((), Function.update m c v) := rfl

@[simp] theorem solo_bind : (p >>= f).solo m = (f (p.solo m).1).solo (p.solo m).2 := by
  change (p.bind f).solo m = _
  induction p generalizing m with
  | ret a => rfl
  | load c k ih => exact ih (m c)
  | store c v k ih => exact ih

@[simp] theorem safe_pure (a : α) : (pure a : Prog C V α).Safe ok reads owns m := trivial

@[simp] theorem safe_get (c : C) :
    (get c : Prog C V (V c)).Safe ok reads owns m ↔ ok c ∧ reads c := by
  simp [get, Safe]

@[simp] theorem safe_set (c : C) (v : V c) :
    (set c v : Prog C V Unit).Safe ok reads owns m ↔ ok c ∧ owns c := by
  simp [set, Safe]

@[simp] theorem safe_bind : (p >>= f).Safe ok reads owns m ↔
    p.Safe ok reads owns m ∧ (f (p.solo m).1).Safe ok reads owns (p.solo m).2 := by
  change (p.bind f).Safe ok reads owns m ↔ _
  induction p generalizing m with
  | ret a => simp [bind, Safe, solo]
  | load c k ih =>
    simp only [bind, Safe, solo]
    rw [ih]
    tauto
  | store c v k ih =>
    simp only [bind, Safe, solo]
    rw [ih]
    tauto

/-- A program that may touch more cells is still safe. -/
theorem Safe.mono {reads' owns' : C → Prop} (h : p.Safe ok reads owns m)
    (hreads : ∀ c, reads c → reads' c) (howns : ∀ c, owns c → owns' c) :
    p.Safe ok reads' owns' m := by
  induction p generalizing m with
  | ret a => trivial
  | load c k ih => exact ⟨h.1, hreads c h.2.1, ih (m c) h.2.2⟩
  | store c v k ih => exact ⟨h.1, howns c h.2.1, ih h.2.2⟩

/-- A safe program does the same in a memory that agrees on what it reads. -/
theorem Safe.congr (h : p.Safe ok reads owns m) (hm : ∀ c, reads c → m' c = m c) :
    p.Safe ok reads owns m' ∧ (p.solo m').1 = (p.solo m).1 ∧ p.cost m' = p.cost m ∧
      ∀ c, reads c → (p.solo m').2 c = (p.solo m).2 c := by
  induction p generalizing m m' with
  | ret a => exact ⟨trivial, rfl, rfl, hm⟩
  | load d k ih =>
    obtain ⟨hok, hreads, hrest⟩ := h
    obtain ⟨hsafe, hresult, hcost, hmemory⟩ := ih (m d) hrest hm
    simp only [Safe, solo, cost, hm d hreads]
    exact ⟨⟨hok, hreads, hsafe⟩, hresult, by rw [hcost], hmemory⟩
  | store d v k ih =>
    obtain ⟨hok, hown, hrest⟩ := h
    have hupdate : ∀ c, reads c → Function.update m' d v c = Function.update m d v c := by
      intro c hc
      by_cases heq : c = d
      · subst heq
        rw [Function.update_self, Function.update_self]
      · rw [Function.update_of_ne heq, Function.update_of_ne heq, hm c hc]
    obtain ⟨hsafe, hresult, hcost, hmemory⟩ := ih hrest hupdate
    simp only [Safe, solo, cost]
    exact ⟨⟨hok, hown, hsafe⟩, hresult, by rw [hcost], hmemory⟩

/-- Alone, the program is safe, and `Q` holds of its result and the memory it leaves. -/
def Wp (ok reads owns : C → Prop) (p : Prog C V α) (Q : α → ((c : C) → V c) → Prop)
    (m : (c : C) → V c) : Prop :=
  p.Safe ok reads owns m ∧ Q (p.solo m).1 (p.solo m).2

variable {Q Q' : α → ((c : C) → V c) → Prop}

@[simp] theorem wp_pure (a : α) : (pure a : Prog C V α).Wp ok reads owns Q m ↔ Q a m := by
  simp [Wp]

@[simp] theorem wp_get (c : C) {Q : V c → ((c : C) → V c) → Prop} :
    (get c : Prog C V (V c)).Wp ok reads owns Q m ↔ (ok c ∧ reads c) ∧ Q (m c) m := by
  simp [Wp]

@[simp] theorem wp_set (c : C) (v : V c) {Q : Unit → ((c : C) → V c) → Prop} :
    (set c v : Prog C V Unit).Wp ok reads owns Q m ↔
      (ok c ∧ owns c) ∧ Q () (Function.update m c v) := by
  simp [Wp]

@[simp] theorem wp_bind {Q : β → ((c : C) → V c) → Prop} :
    (p >>= f).Wp ok reads owns Q m ↔
      p.Wp ok reads owns (fun a m => (f a).Wp ok reads owns Q m) m := by
  simp [Wp, and_assoc]

/-- A weaker condition at the end. -/
theorem Wp.mono (h : p.Wp ok reads owns Q m) (hQ : ∀ a m, Q a m → Q' a m) :
    p.Wp ok reads owns Q' m :=
  ⟨h.1, hQ _ _ h.2⟩

/-- A loop keeps an invariant about what it has done. -/
theorem wp_forM {ι : Type} {body : ι → Prog C V PUnit} (inv : List ι → ((c : C) → V c) → Prop)
    {xs : List ι}
    (hbody : ∀ xs₁ x xs₂ m, xs = xs₁ ++ x :: xs₂ → inv xs₁ m →
      (body x).Wp ok reads owns (fun _ m => inv (xs₁ ++ [x]) m) m)
    (hinit : inv [] m) : (forM xs body).Wp ok reads owns (fun _ m => inv xs m) m := by
  suffices h : ∀ xs₁ xs₂ m, xs = xs₁ ++ xs₂ → inv xs₁ m →
      (forM xs₂ body).Wp ok reads owns (fun _ m => inv xs m) m from h [] xs m rfl hinit
  intro xs₁ xs₂ m hxs hm
  induction xs₂ generalizing xs₁ m with
  | nil =>
    rw [List.forM_nil, wp_pure]
    rwa [hxs, List.append_nil]
  | cons x xs₂ ih =>
    rw [List.forM_cons, wp_bind]
    refine (hbody xs₁ x xs₂ m hxs hm).mono fun _ m' hm' => ih (xs₁ ++ [x]) m' ?_ hm'
    rw [hxs, List.append_assoc]
    rfl

/-- A loop with an accumulator. -/
theorem wp_foldlM {ι : Type} {body : α → ι → Prog C V α}
    (inv : List ι → α → ((c : C) → V c) → Prop) {xs : List ι} {init : α}
    (hbody : ∀ xs₁ x xs₂ a m, xs = xs₁ ++ x :: xs₂ → inv xs₁ a m →
      (body a x).Wp ok reads owns (fun a m => inv (xs₁ ++ [x]) a m) m)
    (hinit : inv [] init m) :
    (xs.foldlM body init).Wp ok reads owns (fun a m => inv xs a m) m := by
  suffices h : ∀ xs₁ xs₂ a m, xs = xs₁ ++ xs₂ → inv xs₁ a m →
      (xs₂.foldlM body a).Wp ok reads owns (fun a m => inv xs a m) m from h [] xs init m rfl hinit
  intro xs₁ xs₂ a m hxs hm
  induction xs₂ generalizing xs₁ a m with
  | nil =>
    rw [List.foldlM_nil, wp_pure]
    rwa [hxs, List.append_nil]
  | cons x xs₂ ih =>
    rw [List.foldlM_cons, wp_bind]
    refine (hbody xs₁ x xs₂ a m hxs hm).mono fun a' m' hm' => ih (xs₁ ++ [x]) a' m' ?_ hm'
    rw [hxs, List.append_assoc]
    rfl

end Alone

end Prog

/-! ## What the items of a group do together -/

variable {I G P : Type}

/-- A kernel: what each work item does from one barrier to the next, given its private values. -/
abbrev Code (I C : Type) (V : C → Type) (P : Type) := List (I → P → Prog C V P)

/-- An assertion about the private values of the items and the memory. -/
abbrev Assertion (I C : Type) (V : C → Type) (P : Type) := (I → P) → ((c : C) → V c) → Prop

section Together

variable [DecidableEq C] {group : I → G} {territory : C → Option G} {ok : C → Prop} {g g' : G}
  {owner : C → Option I} {racy : C → Prop} {B D : Assertion I C V P} {todo todo' : I → Prog C V P}
  {m m' : (c : C) → V c} {i j : I}

/-- The cells that no group writes, and those that no other group accesses. -/
def Visible (territory : C → Option G) (g : G) (c : C) : Prop :=
  territory c = none ∨ territory c = some g

/-- An item reads its own cells, and those that nobody in its group writes before the barrier. -/
def Readable (territory : C → Option G) (owner : C → Option I) (g : G) (i : I) (c : C) : Prop :=
  owner c = some i ∨ owner c = none ∧ Visible territory g c

variable (group territory ok) in
/-- The items of a group go on as if each ran alone, and at the barrier the assertion holds. The
racy cells may be written by several items but are read by none; the assertion says nothing of
them. -/
structure LeadsBy (owner : C → Option I) (racy : C → Prop) (g : G) (B : Assertion I C V P)
    (todo : I → Prog C V P) (m : (c : C) → V c) : Prop where
  owned : ∀ c i, owner c = some i → group i = g ∧ territory c = some g ∧ ¬ racy c
  raced : ∀ c, racy c → territory c = some g
  safe : ∀ i, group i = g → (todo i).Safe ok (fun c => Readable territory owner g i c ∧ ¬ racy c)
    (fun c => owner c = some i ∨ racy c) m
  leads : ∀ own m', (∀ i, group i = g → own i = ((todo i).solo m).1) →
    (∀ c i, owner c = some i → m' c = ((todo i).solo m).2 c) →
    (∀ c, owner c = none → ¬ racy c → Visible territory g c → m' c = m c) → B own m'

variable (group territory ok) in
/-- With some owners of the cells, the programs lead to the assertion. -/
def Leads (g : G) (B : Assertion I C V P) (todo : I → Prog C V P) (m : (c : C) → V c) : Prop :=
  ∃ owner racy, LeadsBy group territory ok owner racy g B todo m

variable (group territory ok) in
/-- The code between two barriers takes one assertion to the other. -/
def Phase (g : G) (A : Assertion I C V P) (code : I → P → Prog C V P) (B : Assertion I C V P) :
    Prop :=
  ∀ own m, A own m → Leads group territory ok g B (fun i => code i (own i)) m

variable (group territory ok) in
/-- A proof has an assertion for every barrier. -/
def Proof (g : G) (A : Assertion I C V P) : Code I C V P → Assertion I C V P → Prop
  | [], D => ∀ own m, A own m → D own m
  | code :: rest, D => ∃ B, Phase group territory ok g A code B ∧ Proof g B rest D

/-- The items that write the cells, if at most one writes each. -/
noncomputable def ownerOf (writes : I → C → Prop) (c : C) : Option I :=
  open Classical in if h : ∃ i, writes i c then some h.choose else none

omit [DecidableEq C] in
/-- A cell that is written by one item at most is owned by it. -/
theorem ownerOf_eq_some {writes : I → C → Prop} {c : C}
    (h : ∀ i j, writes i c → writes j c → i = j) : ownerOf writes c = some i ↔ writes i c := by
  unfold ownerOf
  split
  · rename_i hsome
    rw [Option.some.injEq]
    exact ⟨fun heq => heq ▸ hsome.choose_spec, fun hi => h _ _ hsome.choose_spec hi⟩
  · rename_i hnone
    exact iff_of_false nofun fun hi => hnone ⟨i, hi⟩

omit [DecidableEq C] in
theorem ownerOf_eq_none {writes : I → C → Prop} {c : C} :
    ownerOf writes c = none ↔ ∀ i, ¬ writes i c := by
  unfold ownerOf
  split
  · rename_i hsome
    exact iff_of_false nofun fun h => h _ hsome.choose_spec
  · rename_i hnone
    exact iff_of_true rfl (not_exists.mp hnone)

/-- A phase is proved item by item: what one item leaves in its own cells stays until the
barrier. -/
theorem Phase.of_wp_racy {A : Assertion I C V P} {code : I → P → Prog C V P}
    {Q : (I → P) → ((c : C) → V c) → I → P → ((c : C) → V c) → Prop} (owner : C → Option I)
    (racy : C → Prop)
    (howned : ∀ c i, owner c = some i → group i = g ∧ territory c = some g ∧ ¬ racy c)
    (hraced : ∀ c, racy c → territory c = some g)
    (hitem : ∀ own m, A own m → ∀ i, group i = g →
      (code i (own i)).Wp ok (fun c => Readable territory owner g i c ∧ ¬ racy c)
        (fun c => owner c = some i ∨ racy c) (Q own m i) m)
    (hbarrier : ∀ own m own' m', A own m →
      (∀ i, group i = g → ∃ mi, Q own m i (own' i) mi ∧ ∀ c, owner c = some i → m' c = mi c) →
      (∀ c, owner c = none → ¬ racy c → Visible territory g c → m' c = m c) → B own' m') :
    Phase group territory ok g A code B := by
  intro own m hA
  refine ⟨owner, racy, howned, hraced, fun i hi => (hitem own m hA i hi).1,
    fun own' m' hown hm hrest => ?_⟩
  refine hbarrier own m own' m' hA (fun i hi => ⟨_, ?_, fun c hc => hm c i hc⟩) hrest
  rw [hown i hi]
  exact (hitem own m hA i hi).2

/-- A phase without racy cells. -/
theorem Phase.of_wp {A : Assertion I C V P} {code : I → P → Prog C V P}
    {Q : (I → P) → ((c : C) → V c) → I → P → ((c : C) → V c) → Prop} (owner : C → Option I)
    (howned : ∀ c i, owner c = some i → group i = g ∧ territory c = some g)
    (hitem : ∀ own m, A own m → ∀ i, group i = g →
      (code i (own i)).Wp ok (Readable territory owner g i) (fun c => owner c = some i)
        (Q own m i) m)
    (hbarrier : ∀ own m own' m', A own m →
      (∀ i, group i = g → ∃ mi, Q own m i (own' i) mi ∧ ∀ c, owner c = some i → m' c = mi c) →
      (∀ c, owner c = none → Visible territory g c → m' c = m c) → B own' m') :
    Phase group territory ok g A code B := by
  refine Phase.of_wp_racy (Q := Q) owner (fun _ => False)
    (fun c i hc => ⟨(howned c i hc).1, (howned c i hc).2, fun h => h⟩) nofun
    (fun own m hA i hi => ?_)
    fun own m own' m' hA hitems hrest => hbarrier own m own' m' hA hitems fun c hc =>
      hrest c hc fun h => h
  obtain ⟨hsafe, hQ⟩ := hitem own m hA i hi
  exact ⟨hsafe.mono (fun c hc => ⟨hc, fun h => h⟩) fun c hc => .inl hc, hQ⟩

/-- A phase from a stronger assertion to a weaker one. -/
theorem Phase.weaken {A A' B' : Assertion I C V P} {code : I → P → Prog C V P}
    (h : Phase group territory ok g A code B) (hA : ∀ own m, A' own m → A own m)
    (hB : ∀ own m, B own m → B' own m) : Phase group territory ok g A' code B' := by
  intro own m hm
  obtain ⟨owner, racy, howned, hraced, hsafe, hleads⟩ := h own m (hA own m hm)
  exact ⟨owner, racy, howned, hraced, hsafe, fun own' m' hown hm' hrest =>
    hB own' m' (hleads own' m' hown hm' hrest)⟩

/-- What an item may read it sees as the phase began. -/
theorem LeadsBy.visible (h : LeadsBy group territory ok owner racy g B todo m) {c : C}
    (hc : Readable territory owner g i c) : Visible territory g c := by
  rcases hc with hown | ⟨-, hvisible⟩
  · exact .inr (h.owned c i hown).2.1
  · exact hvisible

/-- What other groups do does not matter. -/
theorem LeadsBy.congr (h : LeadsBy group territory ok owner racy g B todo m)
    (htodo : ∀ i, group i = g → todo' i = todo i) (hm : ∀ c, Visible territory g c → m' c = m c) :
    LeadsBy group territory ok owner racy g B todo' m' := by
  have hitem : ∀ i, group i = g → _ := fun i hi =>
    (h.safe i hi).congr fun c hc => (hm c (h.visible hc.1) : m' c = m c)
  refine ⟨h.owned, h.raced, fun i hi => ?_, fun own m'' hown howned hrest => ?_⟩
  · rw [htodo i hi]
    exact (hitem i hi).1
  · refine h.leads own m'' (fun i hi => ?_) (fun c i hc => ?_) fun c hc hracy hvisible => ?_
    · rw [hown i hi, htodo i hi]
      exact (hitem i hi).2.1
    · obtain ⟨hi, -, hracy⟩ := h.owned c i hc
      rw [howned c i hc, htodo i hi]
      exact (hitem i hi).2.2.2 c ⟨.inl hc, hracy⟩
    · rw [hrest c hc hracy hvisible, hm c hvisible]

/-- A write of an item is not seen by the others of its group. -/
theorem Readable.unseen {c d : C} {v : V c}
    (hd : Readable territory owner g j d) (hracy : ¬ racy d) (hne : j ≠ i)
    (hc : owner c = some i ∨ racy c) : Function.update m c v d = m d := by
  refine Function.update_of_ne ?_ _ _
  rintro rfl
  have hown := hc.resolve_right hracy
  rcases hd with hother | ⟨hnone, -⟩
  · exact hne (Option.some.inj (hother.symm.trans hown))
  · cases hnone.symm.trans hown

/-- A load gives what the item would have read alone. -/
theorem LeadsBy.load [DecidableEq I] (h : LeadsBy group territory ok owner racy g B todo m)
    (hi : group i = g) {c : C} {k : V c → Prog C V P} (htodo : todo i = .load c k) :
    LeadsBy group territory ok owner racy g B (Function.update todo i (k (m c))) m := by
  have hsafe := h.safe i hi
  rw [htodo] at hsafe
  have hsolo : ∀ j, (Function.update todo i (k (m c)) j).solo m = (todo j).solo m := by
    intro j
    by_cases hne : j = i
    · subst hne
      rw [Function.update_self, htodo]
      rfl
    · rw [Function.update_of_ne hne]
  refine ⟨h.owned, h.raced, fun j hj => ?_, fun own m' hown howned hrest => ?_⟩
  · by_cases hne : j = i
    · subst hne
      rw [Function.update_self]
      exact hsafe.2.2
    · rw [Function.update_of_ne hne]
      exact h.safe j hj
  · simp only [hsolo] at hown howned
    exact h.leads own m' hown howned hrest

/-- A store reaches no other item of the group. -/
theorem LeadsBy.store [DecidableEq I] (h : LeadsBy group territory ok owner racy g B todo m)
    (hi : group i = g) {c : C} {v : V c} {k : Prog C V P} (htodo : todo i = .store c v k) :
    LeadsBy group territory ok owner racy g B (Function.update todo i k) (Function.update m c v) := by
  have hsafe := h.safe i hi
  rw [htodo] at hsafe
  have hother : ∀ j, group j = g → j ≠ i → _ := fun j hj hne =>
    (h.safe j hj).congr fun d hd =>
      (hd.1.unseen hd.2 hne hsafe.2.1 : Function.update m c v d = m d)
  refine ⟨h.owned, h.raced, fun j hj => ?_, fun own m' hown howned hrest => ?_⟩
  · by_cases hne : j = i
    · subst hne
      rw [Function.update_self]
      exact hsafe.2.2
    · rw [Function.update_of_ne hne]
      exact (hother j hj hne).1
  · refine h.leads own m' (fun j hj => ?_) (fun d j hd => ?_) fun d hd hracy hvisible => ?_
    · rw [hown j hj]
      by_cases hne : j = i
      · subst hne
        rw [Function.update_self, htodo]
        rfl
      · rw [Function.update_of_ne hne]
        exact (hother j hj hne).2.1
    · rw [howned d j hd]
      by_cases hne : j = i
      · subst hne
        rw [Function.update_self, htodo]
        rfl
      · rw [Function.update_of_ne hne]
        obtain ⟨hj, -, hracy⟩ := h.owned d j hd
        exact (hother j hj hne).2.2.2 d ⟨.inl hd, hracy⟩
    · rw [hrest d hd hracy hvisible]
      refine Function.update_of_ne ?_ _ _
      rintro rfl
      cases hd.symm.trans (hsafe.2.1.resolve_right hracy)

/-- At the barrier the assertion holds. -/
theorem LeadsBy.barrier (h : LeadsBy group territory ok owner racy g B todo m) {own : I → P}
    (htodo : ∀ i, group i = g → todo i = .ret (own i)) : B own m := by
  refine h.leads own m (fun i hi => ?_) (fun c i hc => ?_) fun _ _ _ _ => rfl
  · rw [htodo i hi]
    rfl
  · rw [htodo i (h.owned c i hc).1]
    rfl

/-- A write of another group is not seen. -/
theorem LeadsBy.foreign (h : LeadsBy group territory ok owner racy g B todo m) {c d : C} {v : V c}
    (hc : owner c = some i ∨ racy c) (hne : g' ≠ g) (hd : Visible territory g' d) :
    Function.update m c v d = m d := by
  refine Function.update_of_ne ?_ _ _
  rintro rfl
  have hterritory : territory d = some g := by
    rcases hc with hown | hracy
    · exact (h.owned d i hown).2.1
    · exact h.raced d hracy
  rw [Visible, hterritory] at hd
  rcases hd with hnone | hsome
  · cases hnone
  · exact hne (Option.some.inj hsome).symm

/-- An item stores only where it may. -/
theorem LeadsBy.store_safe (h : LeadsBy group territory ok owner racy g B todo m) (hi : group i = g)
    {c : C} {v : V c} {k : Prog C V P} (htodo : todo i = .store c v k) :
    ok c ∧ (owner c = some i ∨ racy c) := by
  have hsafe := h.safe i hi
  rw [htodo] at hsafe
  exact ⟨hsafe.1, hsafe.2.1⟩

theorem LeadsBy.load_safe (h : LeadsBy group territory ok owner racy g B todo m) (hi : group i = g)
    {c : C} {k : V c → Prog C V P} (htodo : todo i = .load c k) : ok c := by
  have hsafe := h.safe i hi
  rw [htodo] at hsafe
  exact hsafe.1

end Together

/-! ## The machine -/

/-- What each item has still to do before the barrier, and each group after it. -/
structure State (I G C : Type) (V : C → Type) (P : Type) where
  todo : I → Prog C V P
  later : G → Code I C V P
  memory : (c : C) → V c

/-- An item takes its next access, or a group passes the barrier. -/
inductive Action (I G : Type)
  | item (i : I)
  | barrier (g : G)

variable [DecidableEq I] [DecidableEq G] [DecidableEq C]

/-- A work-item accesses a cell, or a group passes its barrier. -/
inductive Step (group : I → G) : State I G C V P → Action I G → State I G C V P → Prop
  | load {s : State I G C V P} {i : I} {c : C} {k : V c → Prog C V P} :
    s.todo i = .load c k →
    Step group s (.item i) { s with todo := Function.update s.todo i (k (s.memory c)) }
  | store {s : State I G C V P} {i : I} {c : C} {v : V c} {k : Prog C V P} :
    s.todo i = .store c v k →
    Step group s (.item i)
      { s with
        todo := Function.update s.todo i k
        memory := Function.update s.memory c v }
  | barrier {s : State I G C V P} {g : G} {code : I → P → Prog C V P} {rest : Code I C V P}
    {own : I → P} :
    s.later g = code :: rest → (∀ i, group i = g → s.todo i = .ret (own i)) →
    Step group s (.barrier g)
      { s with
        todo := fun i => if group i = g then code i (own i) else s.todo i
        later := Function.update s.later g rest }

/-- The machine before its first step. -/
def start (kernel : Code I C V P) (own : I → P) (memory : (c : C) → V c) : State I G C V P :=
  { todo := fun i => .ret (own i), later := fun _ => kernel, memory }

/-- The runs of a kernel. -/
def launch (group : I → G) (kernel : Code I C V P) (own : I → P) (memory : (c : C) → V c) :
    Lts (State I G C V P) (Action I G) where
  init s := s = start kernel own memory
  step := Step group

/-- Some item is about to access a cell that does not exist. -/
def Faults (ok : C → Prop) (s : State I G C V P) : Prop :=
  ∃ i c, ¬ ok c ∧ ((∃ k, s.todo i = .load c k) ∨ ∃ v k, s.todo i = .store c v k)

/-- No item has anything left to do. -/
def Complete (s : State I G C V P) : Prop :=
  (∀ i, ∃ a, s.todo i = .ret a) ∧ ∀ g, s.later g = []

/-- Every run ends; none accesses a cell that does not exist; and at its end all is done and the
memory is as it should be. -/
structure Meets (group : I → G) (kernel : Code I C V P) (own : I → P) (memory : (c : C) → V c)
    (ok : C → Prop) (post : ((c : C) → V c) → Prop) : Prop where
  safe : ∀ s, (launch group kernel own memory).Reach s → ¬ Faults ok s
  ends : ¬ ∃ run : ℕ → State I G C V P, (launch group kernel own memory).Reach (run 0) ∧
    ∀ n, ∃ a, Step group (run n) a (run (n + 1))
  final : ∀ s, (launch group kernel own memory).Reach s → (∀ a s', ¬ Step group s a s') →
    Complete s ∧ post s.memory

/-! ## Proved kernels -/

section Proofs

variable {group : I → G} {territory : C → Option G} {ok : C → Prop} {s s' : State I G C V P}

variable (group territory ok) in
/-- Every group is on the way to an assertion from which the rest of its code is proved. -/
def Proved (D : G → Assertion I C V P) (s : State I G C V P) : Prop :=
  ∀ g, ∃ B, Leads group territory ok g B s.todo s.memory ∧
    Proof group territory ok g B (s.later g) (D g)

variable {Ds : G → Assertion I C V P}

/-- **One step of the machine keeps the proof.** -/
theorem Proved.step (h : Proved group territory ok Ds s) {a : Action I G}
    (hstep : Step group s a s') : Proved group territory ok Ds s' := by
  intro g
  obtain ⟨B, ⟨owner, racy, hleads⟩, hproof⟩ := h g
  cases hstep with
  | @load i c k htodo =>
    refine ⟨B, ⟨owner, racy, ?_⟩, hproof⟩
    by_cases hi : group i = g
    · exact hleads.load hi htodo
    · refine hleads.congr (fun j hj => ?_) fun _ _ => rfl
      exact Function.update_of_ne (by rintro rfl; exact hi hj) _ _
  | @store i c v k htodo =>
    refine ⟨B, ⟨owner, racy, ?_⟩, hproof⟩
    by_cases hi : group i = g
    · exact hleads.store hi htodo
    · obtain ⟨B', ⟨owner', racy', hleads'⟩, -⟩ := h (group i)
      have hc := (hleads'.store_safe rfl htodo).2
      refine hleads.congr (fun j hj => ?_) fun d hd => hleads'.foreign hc (Ne.symm hi) hd
      exact Function.update_of_ne (by rintro rfl; exact hi hj) _ _
  | @barrier g' code rest own hlater htodo =>
    by_cases hg : g = g'
    · subst hg
      rw [hlater] at hproof
      obtain ⟨B', hphase, hrest⟩ := hproof
      obtain ⟨owner', racy', hleads'⟩ := hphase own s.memory (hleads.barrier htodo)
      refine ⟨B', ⟨owner', racy', hleads'.congr (fun i hi => if_pos hi) fun _ _ => rfl⟩, ?_⟩
      simp only [Function.update_self]
      exact hrest
    · refine ⟨B, ⟨owner, racy, hleads.congr (fun i hi => if_neg ?_) fun _ _ => rfl⟩, ?_⟩
      · rw [hi]
        exact hg
      · simp only [Function.update_of_ne hg]
        exact hproof

omit [DecidableEq I] [DecidableEq G] in
/-- A proved kernel never leaves its memory. -/
theorem Proved.not_faults (h : Proved group territory ok Ds s) : ¬ Faults ok s := by
  rintro ⟨i, c, hc, ⟨k, htodo⟩ | ⟨v, k, htodo⟩⟩
  · obtain ⟨B, ⟨owner, racy, hleads⟩, -⟩ := h (group i)
    exact hc (hleads.load_safe rfl htodo)
  · obtain ⟨B, ⟨owner, racy, hleads⟩, -⟩ := h (group i)
    exact hc (hleads.store_safe rfl htodo).1

/-- What cannot step has nothing left to do. -/
theorem complete_of_stuck (h : ∀ a s', ¬ Step group s a s') : Complete s := by
  have htodo : ∀ i, ∃ a, s.todo i = .ret a := by
    intro i
    cases hi : s.todo i with
    | ret a => exact ⟨a, rfl⟩
    | load c k => exact (h _ _ (.load hi)).elim
    | store c v k => exact (h _ _ (.store hi)).elim
  refine ⟨htodo, fun g => ?_⟩
  choose own hown using htodo
  cases hg : s.later g with
  | nil => rfl
  | cons code rest => exact (h _ _ (.barrier hg fun i _ => hown i)).elim

omit [DecidableEq I] [DecidableEq G] in
/-- What a proved state holds when all is done. -/
theorem Proved.complete (h : Proved group territory ok Ds s) (hs : Complete s) :
    ∃ own, ∀ g, Ds g own s.memory := by
  obtain ⟨htodo, hlater⟩ := hs
  choose own hown using htodo
  refine ⟨own, fun g => ?_⟩
  obtain ⟨B, ⟨owner, racy, hleads⟩, hproof⟩ := h g
  rw [hlater g] at hproof
  exact hproof own s.memory (hleads.barrier fun i _ => hown i)

omit [DecidableEq I] [DecidableEq G] in
/-- An item's step leaves the others what they had to do. -/
theorem Proved.cost_other (h : Proved group territory ok Ds s) {i j : I} (hne : j ≠ i) {c : C}
    {v : V c} {k : Prog C V P} (htodo : s.todo i = .store c v k) :
    (s.todo j).cost (Function.update s.memory c v) = (s.todo j).cost s.memory := by
  obtain ⟨B, ⟨owner, racy, hleads⟩, -⟩ := h (group i)
  have hc := (hleads.store_safe rfl htodo).2
  by_cases hj : group j = group i
  · exact ((hleads.safe j hj).congr fun d hd => hd.1.unseen hd.2 hne hc).2.2.1
  · obtain ⟨B', ⟨owner', racy', hleads'⟩, -⟩ := h (group j)
    refine ((hleads'.safe j rfl).congr fun d hd => ?_).2.2.1
    exact hleads.foreign hc hj (hleads'.visible hd.1)

section Termination

variable [Fintype I] [Fintype G]

/-- The barriers and the accesses that are left; other items do not change an item's. -/
def State.left (s : State I G C V P) : ℕ ×ₗ ℕ :=
  toLex (∑ g, (s.later g).length, ∑ i, (s.todo i).cost s.memory)

/-- Each step leaves less to be done. -/
theorem Proved.left_lt (h : Proved group territory ok Ds s) {a : Action I G}
    (hstep : Step group s a s') : s'.left < s.left := by
  have hsum : ∀ (i : I) (f f' : I → ℕ), f' i < f i → (∀ j, j ≠ i → f' j = f j) →
      ∑ j, f' j < ∑ j, f j := by
    intro i f f' hi hother
    refine Finset.sum_lt_sum (fun j _ => ?_) ⟨i, Finset.mem_univ i, hi⟩
    by_cases hne : j = i
    · exact hne ▸ hi.le
    · exact (hother j hne).le
  cases hstep with
  | @load i c k htodo =>
    refine Prod.Lex.toLex_lt_toLex.mpr (.inr ⟨rfl, hsum i _ _ ?_ fun j hne => ?_⟩)
    · simp [htodo, Prog.cost]
    · simp only [Function.update_of_ne hne]
  | @store i c v k htodo =>
    refine Prod.Lex.toLex_lt_toLex.mpr (.inr ⟨rfl, hsum i _ _ ?_ fun j hne => ?_⟩)
    · simp [htodo, Prog.cost]
    · simp only [Function.update_of_ne hne]
      exact h.cost_other hne htodo
  | @barrier g code rest own hlater htodo =>
    refine Prod.Lex.toLex_lt_toLex.mpr (.inl ?_)
    refine Finset.sum_lt_sum (fun g' _ => ?_) ⟨g, Finset.mem_univ g, ?_⟩
    · by_cases hg : g' = g
      · subst hg
        simp [hlater]
      · simp only [Function.update_of_ne hg, le_refl]
    · simp [hlater]

variable {kernel : Code I C V P} {own : I → P} {memory : (c : C) → V c}

/-- **A proof of every group's code is a proof of the kernel.** -/
theorem Proof.meets (territory : C → Option G) (A Ds : G → Assertion I C V P)
    {post : ((c : C) → V c) → Prop}
    (hstart : ∀ g own' m', (∀ i, group i = g → own' i = own i) →
      (∀ c, Visible territory g c → m' c = memory c) → A g own' m')
    (hproof : ∀ g, Proof group territory ok g (A g) kernel (Ds g))
    (hpost : ∀ own m, (∀ g, Ds g own m) → post m) :
    Meets group kernel own memory ok post := by
  have hinductive : (launch group kernel own memory).InductiveBy (fun _ _ => True)
      (Proved group territory ok Ds) := by
    refine ⟨fun hinit => ?_, fun h _ hstep => h.step hstep⟩
    subst hinit
    intro g
    refine ⟨A g, ⟨fun _ => none, fun _ => False, nofun, nofun, fun i _ => trivial, ?_⟩, hproof g⟩
    exact fun own' m' hown _ hm => hstart g own' m' hown fun c hc => hm c rfl (fun h => h) hc
  have hproved : ∀ s, (launch group kernel own memory).Reach s → Proved group territory ok Ds s :=
    fun s hs => hinductive.reach hs
  refine ⟨fun s hs => (hproved s hs).not_faults, ?_, fun s hs hstuck => ?_⟩
  · rintro ⟨run, hreach, hrun⟩
    have hreaches : ∀ n, (launch group kernel own memory).Reach (run n) := by
      intro n
      induction n with
      | zero => exact hreach
      | succ n ih =>
        obtain ⟨a, ha⟩ := hrun n
        exact ih.next a ha
    refine not_strictAnti_of_wellFoundedLT (fun n => (run n).left) (strictAnti_nat_of_succ_lt ?_)
    intro n
    obtain ⟨a, ha⟩ := hrun n
    exact (hproved _ (hreaches n)).left_lt ha
  · obtain ⟨own', hown⟩ := (hproved s hs).complete (complete_of_stuck hstuck)
    exact ⟨complete_of_stuck hstuck, hpost own' s.memory hown⟩

omit [Fintype I] [Fintype G] in
theorem Meets.mono {post post' : ((c : C) → V c) → Prop}
    (h : Meets group kernel own memory ok post) (hpost : ∀ m, post m → post' m) :
    Meets group kernel own memory ok post' :=
  ⟨h.safe, h.ends, fun s hs hstuck => ⟨(h.final s hs hstuck).1, hpost _ (h.final s hs hstuck).2⟩⟩

omit [Fintype I] [Fintype G] in
/-- A kernel that is met has a last state. -/
theorem Meets.exists_final {post : ((c : C) → V c) → Prop}
    (h : Meets group kernel own memory ok post) :
    ∃ s, (launch group kernel own memory).Reach s ∧ ∀ a s', ¬ Step group s a s' := by
  by_contra hnone
  push Not at hnone
  refine h.ends ?_
  have hstep : ∀ s : { s // (launch group kernel own memory).Reach s },
      ∃ s' : { s // (launch group kernel own memory).Reach s }, ∃ a, Step group s.1 a s'.1 := by
    rintro ⟨s, hs⟩
    obtain ⟨a, s', hstep⟩ := hnone s hs
    exact ⟨⟨s', hs.next a hstep⟩, a, hstep⟩
  choose next hnext using hstep
  have hinit : (launch group kernel own memory).Reach (start kernel own memory) :=
    Lts.ReachBy.init (show _ = _ from rfl)
  refine ⟨fun n => (next^[n] ⟨_, hinit⟩).1, hinit, fun n => ?_⟩
  simp only [Function.iterate_succ_apply']
  exact hnext _

end Termination

end Proofs

end Sem.Kernel
