import Sem.Medea.Data
import Sem.Lib.Fuel
import Mathlib.Logic.Relation
import Mathlib.Order.WellFounded

/-!
# Setting a value

What a call of `setValue` can do: it writes values and no links (`SameLinks`), the calls that it
makes are told by the links and the hooks (`Triggers`), it returns if these calls do not go on
forever (`exists_setValue`), and it writes no other values than those of the `Data` it reaches
(`setValue_frame`).
-/

namespace Sem.Medea

universe u

variable {Value : Type u} {hooks : Hooks Value}
  {set : DataState Value → ℕ → Value → Option (DataState Value)}
  {s s' t : DataState Value} {d e c : ℕ} {v w : Value} {fuel n m : ℕ}

/-! ## Links stay -/

/-- Only values differ. -/
structure SameLinks (s s' : DataState Value) : Prop where
  datas : s'.datas = s.datas
  parentDatas : s'.parentDatas = s.parentDatas
  childDatas : s'.childDatas = s.childDatas

theorem SameLinks.refl (s : DataState Value) : SameLinks s s := ⟨rfl, rfl, rfl⟩

theorem SameLinks.trans (h : SameLinks s t) (h' : SameLinks t s') : SameLinks s s' :=
  ⟨h'.datas.trans h.datas, h'.parentDatas.trans h.parentDatas,
    h'.childDatas.trans h.childDatas⟩

theorem updateChildren_sameLinks (hset : ∀ s d v s', set s d v = some s' → SameLinks s s')
    (h : updateChildren hooks set s d = some s') : SameLinks s s' :=
  foldlM_keeps (fun _ _ _ _ hs h => hs.trans (hset _ _ _ _ h)) (SameLinks.refl s) h

theorem setData_sameLinks (hset : ∀ s d v s', set s d v = some s' → SameLinks s s')
    (h : _setData hooks set s d v = some s') : SameLinks s s' := by
  have hwrite : SameLinks s { s with value := Function.update s.value d v } := ⟨rfl, rfl, rfl⟩
  exact hwrite.trans (updateChildren_sameLinks hset h)

/-- The three parts of a call. -/
theorem setValue_cases (h : setValue hooks (fuel + 1) s d v = some s') : ∃ s₁ s₂,
    (hooks.forced s.value d v).foldlM
      (fun s' force => _setData hooks (setValue hooks fuel) s' force.1 force.2) s = some s₁ ∧
    _setData hooks (setValue hooks fuel) s₁ d (hooks.validateDataChange s.value d v) = some s₂ ∧
    (hooks.after s₂.value d).foldlM
      (fun s' next => setValue hooks fuel s' next.1 next.2) s₂ = some s' := by
  obtain ⟨s₁, h₁, h⟩ := Option.bind_eq_some_iff.mp h
  obtain ⟨s₂, h₂, h₃⟩ := Option.bind_eq_some_iff.mp h
  exact ⟨s₁, s₂, h₁, h₂, h₃⟩

theorem setValue_sameLinks (h : setValue hooks fuel s d v = some s') : SameLinks s s' := by
  induction fuel generalizing s d v s' with
  | zero => cases h
  | succ fuel ih =>
    obtain ⟨s₁, s₂, h₁, h₂, h₃⟩ := setValue_cases h
    have hset : ∀ s d v s', setValue hooks fuel s d v = some s' → SameLinks s s' :=
      fun s d v s' h => ih h
    have hforced : SameLinks s s₁ :=
      foldlM_keeps (fun _ _ _ _ hs h => hs.trans (setData_sameLinks hset h)) (SameLinks.refl s) h₁
    have hafter : SameLinks s₂ s' :=
      foldlM_keeps (fun _ _ _ _ hs h => hs.trans (ih h)) (SameLinks.refl s₂) h₃
    exact (hforced.trans (setData_sameLinks hset h₂)).trans hafter

/-! ## Fuel -/

theorem setData_mono {set' : DataState Value → ℕ → Value → Option (DataState Value)}
    (hset : ∀ s d v s', set s d v = some s' → set' s d v = some s')
    (h : _setData hooks set s d v = some s') : _setData hooks set' s d v = some s' :=
  foldlM_mono (fun _ _ _ h => hset _ _ _ _ h) h

theorem setValue_mono (hle : n ≤ m) (h : setValue hooks n s d v = some s') :
    setValue hooks m s d v = some s' := by
  induction n generalizing m s d v s' with
  | zero => cases h
  | succ n ih =>
    obtain ⟨m, rfl⟩ : ∃ m', m = m' + 1 := ⟨m - 1, by omega⟩
    have hset : ∀ s d v s', setValue hooks n s d v = some s' → setValue hooks m s d v = some s' :=
      fun s d v s' h => ih (by omega) h
    obtain ⟨s₁, s₂, h₁, h₂, h₃⟩ := setValue_cases h
    refine Option.bind_eq_some_iff.mpr ⟨s₁, ?_, Option.bind_eq_some_iff.mpr ⟨s₂, ?_, ?_⟩⟩
    · exact foldlM_mono (fun _ _ _ h => setData_mono hset h) h₁
    · exact setData_mono hset h₂
    · exact foldlM_mono (fun _ _ _ h => hset _ _ _ _ h) h₃

/-! ## Which calls are made -/

/-- A `Data` is set through its key or behind its back. -/
inductive Call
  | set (d : ℕ)
  | force (d : ℕ)

/-- The `Data` that a call writes first. -/
def Call.target : Call → ℕ
  | .set d => d
  | .force d => d

/-- The calls that a call makes. -/
inductive Triggers (hooks : Hooks Value) (childDatas : ℕ → Finset ℕ) : Call → Call → Prop
  | child {d c : ℕ} (h : c ∈ childDatas d) : Triggers hooks childDatas (.set c) (.set d)
  | childOfForce {d c : ℕ} (h : c ∈ childDatas d) : Triggers hooks childDatas (.set c) (.force d)
  | forced {values : ℕ → Value} {d e : ℕ} {v w : Value} (h : (e, w) ∈ hooks.forced values d v) :
    Triggers hooks childDatas (.force e) (.set d)
  | after {values : ℕ → Value} {d e : ℕ} {w : Value} (h : (e, w) ∈ hooks.after values d) :
    Triggers hooks childDatas (.set e) (.set d)

/-- The calls that a call leads to. -/
def Leads (hooks : Hooks Value) (childDatas : ℕ → Finset ℕ) : Call → Call → Prop :=
  Relation.ReflTransGen fun caller callee => Triggers hooks childDatas callee caller

/-- The call comes to write that `Data`. -/
def Writes (hooks : Hooks Value) (childDatas : ℕ → Finset ℕ) (call : Call) (d : ℕ) : Prop :=
  ∃ call', Leads hooks childDatas call call' ∧ call'.target = d

variable {childDatas : ℕ → Finset ℕ} {call call' : Call}

theorem Writes.of_triggers (h : Triggers hooks childDatas call' call)
    (hw : Writes hooks childDatas call' d) : Writes hooks childDatas call d := by
  obtain ⟨last, hlast, htarget⟩ := hw
  exact ⟨last, Relation.ReflTransGen.head h hlast, htarget⟩

theorem Writes.target (call : Call) : Writes hooks childDatas call call.target :=
  ⟨call, Relation.ReflTransGen.refl, rfl⟩

/-- A call that ends does not lead to itself. -/
theorem not_leads_of_acc (hacc : Acc (Triggers hooks childDatas) call)
    (h : Triggers hooks childDatas call' call) : ¬Leads hooks childDatas call' call := by
  induction hacc generalizing call' with
  | intro call _ ih =>
    intro hleads
    rcases Relation.ReflTransGen.cases_head hleads with rfl | ⟨next, htrigger, hleads⟩
    · exact ih call' h h Relation.ReflTransGen.refl
    · exact ih call' h htrigger (Relation.ReflTransGen.tail hleads h)

/-- The value that is handed down is not written meanwhile. -/
theorem not_writes_of_acc (hacc : Acc (Triggers hooks childDatas) call)
    (hc : c ∈ childDatas call.target) : ¬Writes hooks childDatas (.set c) call.target := by
  rintro ⟨last, hleads, htarget⟩
  have hchild : ∀ last : Call, last.target = call.target →
      Triggers hooks childDatas (.set c) last := by
    intro last hlast
    rw [← hlast] at hc
    cases last with
    | set d => exact .child hc
    | force d => exact .childOfForce hc
  have hcacc : Acc (Triggers hooks childDatas) (.set c) := hacc.inv (hchild call rfl)
  rcases Relation.ReflTransGen.cases_head hleads with rfl | ⟨next, htrigger, hleads⟩
  · exact not_leads_of_acc hcacc (hchild _ htarget) Relation.ReflTransGen.refl
  · exact not_leads_of_acc hcacc htrigger (Relation.ReflTransGen.tail hleads (hchild last htarget))

/-! ## Calls that return -/

/-- Children are set one after the other. -/
theorem exists_updateChildren
    (hset : ∀ c ∈ s.childDatas d, ∀ t, SameLinks s t → ∀ v, ∃ n t',
      setValue hooks n t c v = some t') :
    ∃ n s', updateChildren hooks (setValue hooks n) s d = some s' := by
  have hmono : FuelMono fun n t c => setValue hooks n t c (t.value d) :=
    fun n m t c t' hle h => setValue_mono hle h
  have hpass : ∀ c ∈ hooks.iterate (s.childDatas d), ∀ t, SameLinks s t →
      ∃ n t', setValue hooks n t c (t.value d) = some t' ∧ SameLinks s t' := by
    intro c hc t ht
    obtain ⟨n, t', ht'⟩ := hset c ((hooks.mem_iterate _ c).mp hc) t ht (t.value d)
    exact ⟨n, t', ht', ht.trans (setValue_sameLinks ht')⟩
  obtain ⟨n, s', h, -⟩ := exists_foldlM hmono hpass (SameLinks.refl s)
  exact ⟨n, s', h⟩

theorem exists_setData
    (hset : ∀ c ∈ s.childDatas d, ∀ t, SameLinks s t → ∀ v, ∃ n t',
      setValue hooks n t c v = some t') (v : Value) :
    ∃ n s', _setData hooks (setValue hooks n) s d v = some s' := by
  have hwrite : SameLinks s { s with value := Function.update s.value d v } := ⟨rfl, rfl, rfl⟩
  exact exists_updateChildren fun c hc t ht => hset c hc t (hwrite.trans ht)

/-- The call returns, whatever the values are. -/
def Returns (hooks : Hooks Value) (childDatas : ℕ → Finset ℕ) : Call → Prop
  | .set d => ∀ s : DataState Value, s.childDatas = childDatas → ∀ v,
    ∃ n s', setValue hooks n s d v = some s'
  | .force d => ∀ s : DataState Value, s.childDatas = childDatas → ∀ v,
    ∃ n s', _setData hooks (setValue hooks n) s d v = some s'

theorem returns_of_acc (hacc : Acc (Triggers hooks childDatas) call) :
    Returns hooks childDatas call := by
  induction hacc with
  | intro call _ ih =>
    have hchildren : ∀ s : DataState Value, s.childDatas = childDatas →
        ∀ c ∈ s.childDatas call.target, ∀ t, SameLinks s t → ∀ v,
          ∃ n t', setValue hooks n t c v = some t' := by
      intro s hs c hc t ht v
      rw [hs] at hc
      refine ih (.set c) ?_ t (ht.childDatas.trans hs) v
      cases call with
      | set d => exact .child hc
      | force d => exact .childOfForce hc
    cases call with
    | force d =>
      intro s hs v
      exact exists_setData (hchildren s hs) v
    | set d =>
      intro s hs v
      -- what is forced
      have hmono₁ : FuelMono fun n (t : DataState Value) (force : ℕ × Value) =>
          _setData hooks (setValue hooks n) t force.1 force.2 :=
        fun n m t force t' hle h => setData_mono (fun _ _ _ _ h => setValue_mono hle h) h
      have hpass₁ : ∀ force ∈ hooks.forced s.value d v, ∀ t, SameLinks s t → ∃ n t',
          _setData hooks (setValue hooks n) t force.1 force.2 = some t' ∧ SameLinks s t' := by
        intro force hforce t ht
        obtain ⟨n, t', ht'⟩ := ih (.force force.1) (.forced hforce) t
          (ht.childDatas.trans hs) force.2
        exact ⟨n, t', ht', ht.trans (setData_sameLinks (fun _ _ _ _ => setValue_sameLinks) ht')⟩
      obtain ⟨n₁, s₁, h₁, hs₁⟩ := exists_foldlM hmono₁ hpass₁ (SameLinks.refl s)
      -- the value
      have hlinks₁ : s₁.childDatas = childDatas := hs₁.childDatas.trans hs
      obtain ⟨n₂, s₂, h₂⟩ := exists_setData (hchildren s₁ hlinks₁)
        (hooks.validateDataChange s.value d v)
      have hs₂ := setData_sameLinks (fun _ _ _ _ => setValue_sameLinks) h₂
      -- what is set afterwards
      have hmono₃ : FuelMono fun n (t : DataState Value) (next : ℕ × Value) =>
          setValue hooks n t next.1 next.2 :=
        fun n m t next t' hle h => setValue_mono hle h
      have hpass₃ : ∀ next ∈ hooks.after s₂.value d, ∀ t, SameLinks s₂ t → ∃ n t',
          setValue hooks n t next.1 next.2 = some t' ∧ SameLinks s₂ t' := by
        intro next hnext t ht
        obtain ⟨n, t', ht'⟩ := ih (.set next.1) (.after hnext) t
          ((ht.childDatas.trans hs₂.childDatas).trans hlinks₁) next.2
        exact ⟨n, t', ht', ht.trans (setValue_sameLinks ht')⟩
      obtain ⟨n₃, s₃, h₃, -⟩ := exists_foldlM hmono₃ hpass₃ (SameLinks.refl s₂)
      refine ⟨max n₁ (max n₂ n₃) + 1, s₃, ?_⟩
      have hmax₁ : n₁ ≤ max n₁ (max n₂ n₃) := by omega
      have hmax₂ : n₂ ≤ max n₁ (max n₂ n₃) := by omega
      have hmax₃ : n₃ ≤ max n₁ (max n₂ n₃) := by omega
      refine Option.bind_eq_some_iff.mpr ⟨s₁, ?_, Option.bind_eq_some_iff.mpr ⟨s₂, ?_, ?_⟩⟩
      · exact foldlM_mono (fun t force t' h => hmono₁ n₁ _ t force t' hmax₁ h) h₁
      · exact setData_mono (fun _ _ _ _ h => setValue_mono hmax₂ h) h₂
      · exact foldlM_mono (fun t next t' h => hmono₃ n₃ _ t next t' hmax₃ h) h₃

/-- To set a value returns if the calls that it leads to come to an end. -/
theorem exists_setValue (hacc : Acc (Triggers hooks s.childDatas) (.set d)) (v : Value) :
    ∃ n s', setValue hooks n s d v = some s' :=
  returns_of_acc hacc s rfl v

/-! ## What is not written -/

theorem updateChildren_frame
    (hset : ∀ c ∈ s.childDatas d, ∀ t t' v, t.childDatas = s.childDatas →
      setValue hooks n t c v = some t' → t'.value e = t.value e)
    (h : updateChildren hooks (setValue hooks n) s d = some s') : s'.value e = s.value e := by
  have hkept : s'.childDatas = s.childDatas ∧ s'.value e = s.value e := by
    refine foldlM_keeps (P := fun t => t.childDatas = s.childDatas ∧ t.value e = s.value e)
      ?_ ⟨rfl, rfl⟩ h
    intro c hc t t' ⟨hlinks, hvalue⟩ hpass
    have hchild := (hooks.mem_iterate _ c).mp hc
    exact ⟨(setValue_sameLinks hpass).childDatas.trans hlinks,
      (hset c hchild t t' _ hlinks hpass).trans hvalue⟩
  exact hkept.2

theorem setData_frame (hne : e ≠ d)
    (hset : ∀ c ∈ s.childDatas d, ∀ t t' v, t.childDatas = s.childDatas →
      setValue hooks n t c v = some t' → t'.value e = t.value e)
    (h : _setData hooks (setValue hooks n) s d v = some s') : s'.value e = s.value e := by
  have hframe := updateChildren_frame
    (s := { s with value := Function.update s.value d v }) hset h
  exact hframe.trans (Function.update_of_ne hne v s.value)

/-- Only the `Data` that the call comes to are written. -/
theorem setValue_frame (hlinks : s.childDatas = childDatas)
    (hwrites : ¬Writes hooks childDatas (.set d) e) (h : setValue hooks n s d v = some s') :
    s'.value e = s.value e := by
  induction n generalizing s d v s' with
  | zero => cases h
  | succ n ih =>
    obtain ⟨s₁, s₂, h₁, h₂, h₃⟩ := setValue_cases h
    -- what a call of `call`, made by this one, hands down
    have hchildren : ∀ call, Leads hooks childDatas (.set d) call → ∀ t : DataState Value,
        t.childDatas = childDatas → ∀ c ∈ t.childDatas call.target, ∀ u u' v,
          u.childDatas = t.childDatas → setValue hooks n u c v = some u' →
            u'.value e = u.value e := by
      intro call hleads t ht c hc u u' v hu hset
      have htrigger : Triggers hooks childDatas (.set c) call := by
        rw [ht] at hc
        cases call with
        | set d => exact .child hc
        | force d => exact .childOfForce hc
      refine ih (hu.trans ht) (fun hw => hwrites ?_) hset
      obtain ⟨last, hlast, htarget⟩ := hw
      exact ⟨last, (hleads.tail htrigger).trans hlast, htarget⟩
    have hne : ∀ call, Leads hooks childDatas (.set d) call → e ≠ call.target := by
      rintro call hleads rfl
      exact hwrites ⟨call, hleads, rfl⟩
    have hkept₁ : s₁.childDatas = childDatas ∧ s₁.value e = s.value e := by
      refine foldlM_keeps (P := fun t => t.childDatas = childDatas ∧ t.value e = s.value e)
        ?_ ⟨hlinks, rfl⟩ h₁
      intro force hforce t t' ⟨ht, hvalue⟩ hpass
      have hleads : Leads hooks childDatas (.set d) (.force force.1) :=
        Relation.ReflTransGen.single (.forced hforce)
      exact ⟨(setData_sameLinks (fun _ _ _ _ => setValue_sameLinks) hpass).childDatas.trans ht,
        (setData_frame (hne _ hleads) (hchildren _ hleads t ht) hpass).trans hvalue⟩
    have hself : Leads hooks childDatas (.set d) (.set d) := Relation.ReflTransGen.refl
    have hvalue₂ := setData_frame (hne _ hself) (hchildren _ hself s₁ hkept₁.1) h₂
    have hlinks₂ := (setData_sameLinks (fun _ _ _ _ => setValue_sameLinks) h₂).childDatas.trans
      hkept₁.1
    have hkept₃ : s'.childDatas = childDatas ∧ s'.value e = s₂.value e := by
      refine foldlM_keeps (P := fun t => t.childDatas = childDatas ∧ t.value e = s₂.value e)
        ?_ ⟨hlinks₂, rfl⟩ h₃
      intro next hnext t t' ⟨ht, hvalue⟩ hpass
      have hnot : ¬Writes hooks childDatas (.set next.1) e :=
        fun hw => hwrites (hw.of_triggers (.after hnext))
      exact ⟨(setValue_sameLinks hpass).childDatas.trans ht, (ih ht hnot hpass).trans hvalue⟩
    exact hkept₃.2.trans (hvalue₂.trans hkept₁.2)

end Sem.Medea
