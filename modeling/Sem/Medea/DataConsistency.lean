import Sem.Medea.DataLinks

/-!
# Linked data hold the value of a parent

A value that is set is handed down to the children. Meanwhile some children still have the value
that their parent had before; the proofs follow a set of `Data` that are excused.

* `Carries`: the keys of the children take, as they are, the values that a call hands down.
* `settles`: then all who held the value of a parent still do.
-/

namespace Sem.Medea

universe u

variable {Value : Type u} {hooks : Hooks Value} {s s' t : DataState Value} {d e c p : ℕ}
  {v w : Value} {fuel n m : ℕ} {call call' : Call} {X : ℕ → Prop}

/-- No other key sets the `Data`. -/
structure Untouched (hooks : Hooks Value) (c : ℕ) : Prop where
  not_forced : ∀ values d v w, (c, w) ∉ hooks.forced values d v
  not_after : ∀ values d w, (c, w) ∉ hooks.after values d

/-- With a parent, it holds the value of one. -/
def Holds (s : DataState Value) (c : ℕ) : Prop :=
  (s.parentDatas c).Nonempty → ∃ p ∈ s.parentDatas c, s.value c = s.value p

/-- The links agree, lead to no `Data` that another key sets, and close no circle. -/
structure Linked (hooks : Hooks Value) (s : DataState Value) : Prop where
  sides : Mutual s
  untouched : ∀ c, (s.parentDatas c).Nonempty → Untouched hooks c
  ends : WellFounded (Triggers hooks s.childDatas)

theorem Linked.of_sameLinks (h : Linked hooks s) (hs : SameLinks s s') : Linked hooks s' := by
  obtain ⟨hsides, huntouched, hends⟩ := h
  refine ⟨hsides.of_sameLinks hs, ?_, ?_⟩
  · rw [hs.parentDatas]
    exact huntouched
  · rw [hs.childDatas]
    exact hends

/-! ## The values that are handed down -/

/-- Values that differ from `base` in the `Data` of `W` only. -/
def Meanwhile (W : ℕ → Prop) (base values : ℕ → Value) : Prop := ∀ e, ¬W e → values e = base e

/-- The calls that a call makes, each with its value, while the values are such as `M` says. -/
inductive Hands (hooks : Hooks Value) (childDatas : ℕ → Finset ℕ) (M : (ℕ → Value) → Prop) :
    Call × Value → Call × Value → Prop
  | child {values : ℕ → Value} {d c : ℕ} {v : Value} (hM : M values) (h : c ∈ childDatas d) :
    Hands hooks childDatas M (.set d, v) (.set c, hooks.validateDataChange values d v)
  | childOfForce {d c : ℕ} {v : Value} (h : c ∈ childDatas d) :
    Hands hooks childDatas M (.force d, v) (.set c, v)
  | forced {values : ℕ → Value} {d e : ℕ} {v w : Value} (hM : M values)
    (h : (e, w) ∈ hooks.forced values d v) : Hands hooks childDatas M (.set d, v) (.force e, w)
  | after {values : ℕ → Value} {d e : ℕ} {v w : Value} (hM : M values)
    (h : (e, w) ∈ hooks.after values d) : Hands hooks childDatas M (.set d, v) (.set e, w)

/-- Whatever the call comes to hand down a link, the key of the child takes it as it is. -/
def Carries (hooks : Hooks Value) (childDatas : ℕ → Finset ℕ) (M : (ℕ → Value) → Prop)
    (start : Call × Value) : Prop :=
  ∀ caller callee, Relation.ReflTransGen (Hands hooks childDatas M) start caller →
    Hands hooks childDatas M caller callee → callee.1.target ∈ childDatas caller.1.target →
      ∀ values, M values → hooks.validateDataChange values callee.1.target callee.2 = callee.2

/-- So it is for all that a call of `setValue` does, which starts from these values. -/
structure Carried (hooks : Hooks Value) (childDatas : ℕ → Finset ℕ) (M : (ℕ → Value) → Prop)
    (values : ℕ → Value) (d : ℕ) (v : Value) : Prop where
  value : Carries hooks childDatas M (.force d, hooks.validateDataChange values d v)
  forced : ∀ force ∈ hooks.forced values d v, Carries hooks childDatas M (.force force.1, force.2)
  after : ∀ values', M values' → ∀ next ∈ hooks.after values' d,
    Carries hooks childDatas M (.set next.1, next.2)

variable {childDatas childDatas' : ℕ → Finset ℕ} {M : (ℕ → Value) → Prop} {W : ℕ → Prop}
  {base values : ℕ → Value}

theorem Hands.mono {x y : Call × Value} (hle : ∀ d, childDatas d ⊆ childDatas' d)
    (h : Hands hooks childDatas M x y) : Hands hooks childDatas' M x y := by
  cases h with
  | child hM h => exact .child hM (hle _ h)
  | childOfForce h => exact .childOfForce (hle _ h)
  | forced hM h => exact .forced hM h
  | after hM h => exact .after hM h

namespace Carries

/-- With fewer links. -/
theorem mono {x : Call × Value} (hle : ∀ d, childDatas d ⊆ childDatas' d)
    (h : Carries hooks childDatas' M x) : Carries hooks childDatas M x :=
  fun caller callee hreach hhands hchild =>
    h caller callee (Relation.ReflTransGen.mono (fun _ _ => Hands.mono hle) _ _ hreach)
      (hhands.mono hle) (hle _ hchild)

theorem of_hands {x y : Call × Value} (h : Carries hooks childDatas M x)
    (hhands : Hands hooks childDatas M x y) : Carries hooks childDatas M y :=
  fun caller callee hreach => h caller callee (hreach.head hhands)

/-- To write the value that the key makes of it. -/
theorem force (h : Carries hooks childDatas M (.set d, v)) (hM : M values) :
    Carries hooks childDatas M (.force d, hooks.validateDataChange values d v) := by
  have hchild : ∀ {y}, Hands hooks childDatas M (.force d, hooks.validateDataChange values d v) y →
      Hands hooks childDatas M (.set d, v) y := by
    rintro _ (_ | hc)
    exact .child hM hc
  intro caller callee hreach hhands htarget
  rcases Relation.ReflTransGen.cases_head hreach with rfl | ⟨y, hy, hreach⟩
  · exact h _ callee .refl (hchild hhands) htarget
  · exact h caller callee (hreach.head (hchild hy)) hhands htarget

theorem carried (h : Carries hooks childDatas M (.set d, v)) (hM : M values) :
    Carried hooks childDatas M values d v where
  value := h.force hM
  forced _ hforce := h.of_hands (.forced hM hforce)
  after _ hM' _ hnext := h.of_hands (.after hM' hnext)

/-- A child takes the value. -/
theorem takes (h : Carries hooks childDatas M (.force d, v)) (hc : c ∈ childDatas d)
    (hM : M values) : hooks.validateDataChange values c v = v :=
  h _ (.set c, v) .refl (.childOfForce hc) hc values hM

end Carries

/-- A call writes no others than those of `W`. -/
def Inside (hooks : Hooks Value) (childDatas : ℕ → Finset ℕ) (W : ℕ → Prop) (call : Call) : Prop :=
  ∀ e, Writes hooks childDatas call e → W e

theorem Inside.of_triggers (h : Inside hooks childDatas W call)
    (htriggers : Triggers hooks childDatas call' call) : Inside hooks childDatas W call' :=
  fun e hwrites => h e (hwrites.of_triggers htriggers)

theorem triggers_child (hc : c ∈ childDatas call.target) :
    Triggers hooks childDatas (.set c) call := by
  cases call with
  | set d => exact .child hc
  | force d => exact .childOfForce hc

theorem Meanwhile.setValue (hvalues : Meanwhile W base s.value)
    (hinside : Inside hooks s.childDatas W (.set d)) (h : setValue hooks n s d v = some s') :
    Meanwhile W base s'.value := fun e he =>
  (setValue_frame rfl (fun hwrites => he (hinside e hwrites)) h).trans (hvalues e he)

/-- A value that is written, behind the back of a key or not, is written to no others than those
that the call writes. -/
theorem setData_frame_of_call (hlinks : s.childDatas = childDatas)
    (hwrites : ¬Writes hooks childDatas call e)
    (h : _setData hooks (setValue hooks n) s call.target v = some s') :
    s'.value e = s.value e := by
  refine setData_frame ?_ ?_ h
  · rintro rfl
    exact hwrites (Writes.target call)
  · intro c hc t t' v ht hset
    rw [hlinks] at hc ht
    exact setValue_frame ht (fun hw => hwrites (hw.of_triggers (triggers_child hc))) hset

theorem Meanwhile.setData (hvalues : Meanwhile W base s.value)
    (hinside : Inside hooks s.childDatas W call)
    (h : _setData hooks (Medea.setValue hooks n) s call.target v = some s') :
    Meanwhile W base s'.value := fun e he =>
  (setData_frame_of_call rfl (fun hwrites => he (hinside e hwrites)) h).trans (hvalues e he)

/-! ## While a value is handed down -/

/-- Before the call: all but the excused ones and its target hold the value of a parent, and the
value that is written to the target is that of a parent which the call does not write. -/
structure Ready (hooks : Hooks Value) (s : DataState Value) (X : ℕ → Prop) (call : Call)
    (v : Value) : Prop where
  others : ∀ c, ¬X c → c ≠ call.target → Holds s c
  target : ¬X call.target → (s.parentDatas call.target).Nonempty →
    ∃ p ∈ s.parentDatas call.target, v = s.value p ∧ ¬Writes hooks s.childDatas call p

/-- What a call of `setValue` is shown to do. -/
def Settles (hooks : Hooks Value) (n : ℕ) : Prop :=
  ∀ s (X W : ℕ → Prop) base d v s', Linked hooks s →
    Ready hooks s X (.set d) (hooks.validateDataChange s.value d v) →
    Meanwhile W base s.value → Inside hooks s.childDatas W (.set d) →
    Carried hooks s.childDatas (Meanwhile W base) s.value d v →
    setValue hooks n s d v = some s' → ∀ c, ¬X c → Holds s' c

theorem updateChildren_holds (hset : Settles hooks n) (hs : Linked hooks s)
    (hothers : ∀ c, ¬X c → c ∉ s.childDatas d → Holds s c) (hvalues : Meanwhile W base s.value)
    (hinside : ∀ c ∈ s.childDatas d, Inside hooks s.childDatas W (.set c))
    (hcarries : Carries hooks s.childDatas (Meanwhile W base) (.force d, s.value d))
    (h : updateChildren hooks (setValue hooks n) s d = some s') : ∀ c, ¬X c → Holds s' c := by
  have hdone : (SameLinks s s' ∧ (∀ c ∈ ([] : List ℕ), c ∈ s.childDatas d) ∧
      ∀ c, ¬X c → c ∉ ([] : List ℕ) → Holds s' c) ∧
        s'.value d = s.value d ∧ Meanwhile W base s'.value := by
    refine foldlM_inv (P := fun l t => (SameLinks s t ∧ (∀ c ∈ l, c ∈ s.childDatas d) ∧
      ∀ c, ¬X c → c ∉ l → Holds t c) ∧ t.value d = s.value d ∧ Meanwhile W base t.value) ?_
        ⟨⟨SameLinks.refl s, ?_, ?_⟩, rfl, hvalues⟩ h
    · intro x l t t' ⟨⟨ht, hl, hholds⟩, hvalue, ht'⟩ hpass
      have hx := hl x List.mem_cons_self
      have hlinked := hs.of_sameLinks ht
      have hkept := not_writes_of_acc (hs.ends.apply (.set d)) hx
      -- the child takes the value, and hands it down
      have htakes : hooks.validateDataChange t.value x (t.value d) = t.value d := by
        rw [hvalue]
        exact hcarries.takes hx ht'
      have hcarried : Carried hooks t.childDatas (Meanwhile W base) t.value x (t.value d) := by
        rw [ht.childDatas, hvalue]
        exact (hcarries.of_hands (.childOfForce hx)).carried ht'
      have hxinside : Inside hooks t.childDatas W (.set x) := by
        rw [ht.childDatas]
        exact hinside x hx
      refine ⟨⟨ht.trans (setValue_sameLinks hpass),
        fun c hc => hl c (List.mem_cons_of_mem x hc), fun c hX hc => ?_⟩,
        (setValue_frame ht.childDatas hkept hpass).trans hvalue, ht'.setValue hxinside hpass⟩
      -- the children that are still to come are excused
      refine hset t (fun c => X c ∨ c ∈ l) W base x _ t' hlinked ⟨?_, ?_⟩ ht' hxinside hcarried
        hpass c (not_or.mpr ⟨hX, hc⟩)
      · intro c hX hne
        rw [not_or] at hX
        exact hholds c hX.1 (List.not_mem_cons_of_ne_of_not_mem hne hX.2)
      · rw [← ht.childDatas] at hx hkept
        exact fun _ _ => ⟨d, (hlinked.sides.inverse d x).mp hx, htakes, hkept⟩
    · exact fun c hc => (hooks.mem_iterate _ c).mp hc
    · exact fun c hX hc => hothers c hX fun hchild => hc ((hooks.mem_iterate _ c).mpr hchild)
  exact fun c hX => hdone.1.2.2 c hX List.not_mem_nil

theorem setData_holds (hset : Settles hooks n) (hs : Linked hooks s)
    (hready : Ready hooks s X call v) (hvalues : Meanwhile W base s.value)
    (hinside : Inside hooks s.childDatas W call)
    (hcarries : Carries hooks s.childDatas (Meanwhile W base) (.force call.target, v))
    (h : _setData hooks (setValue hooks n) s call.target v = some s') : ∀ c, ¬X c → Holds s' c := by
  have hwrite : SameLinks s { s with value := Function.update s.value call.target v } :=
    ⟨rfl, rfl, rfl⟩
  have hmeanwhile : Meanwhile W base (Function.update s.value call.target v) := by
    intro e he
    have hne : e ≠ call.target := by
      rintro rfl
      exact he (hinside _ (Writes.target call))
    rw [Function.update_of_ne hne]
    exact hvalues e he
  refine updateChildren_holds hset (hs.of_sameLinks hwrite) ?_ hmeanwhile
    (fun c hc => hinside.of_triggers (triggers_child hc)) ?_ h
  · intro c hX hchild hparents
    by_cases hc : c = call.target
    · subst hc
      obtain ⟨p, hp, hvalue, hwrites⟩ := hready.target hX hparents
      have hne : p ≠ call.target := by
        rintro rfl
        exact hwrites (Writes.target call)
      refine ⟨p, hp, ?_⟩
      simp only [Function.update_self, Function.update_of_ne hne]
      exact hvalue
    · obtain ⟨p, hp, hvalue⟩ := hready.others c hX hc hparents
      have hne : p ≠ call.target := by
        rintro rfl
        exact hchild ((hs.sides.inverse _ c).mpr hp)
      refine ⟨p, hp, ?_⟩
      simp only [Function.update_of_ne hc, Function.update_of_ne hne]
      exact hvalue
  · simp only [Function.update_self]
    exact hcarries

theorem settles (n : ℕ) : Settles hooks n := by
  induction n with
  | zero =>
    intro s X W base d v s' _ _ _ _ _ h
    cases h
  | succ n ih =>
    intro s X W base d v s' hs hready hvalues hinside hcarried h
    obtain ⟨s₁, s₂, h₁, h₂, h₃⟩ := setValue_cases h
    -- what is forced has no parents; the target waits
    have hforced : (SameLinks s s₁ ∧ (∀ c, ¬X c → c ≠ d → Holds s₁ c) ∧
        ∀ p, ¬Writes hooks s.childDatas (.set d) p → s₁.value p = s.value p) ∧
          Meanwhile W base s₁.value := by
      refine foldlM_keeps (P := fun t => (SameLinks s t ∧ (∀ c, ¬X c → c ≠ d → Holds t c) ∧
        ∀ p, ¬Writes hooks s.childDatas (.set d) p → t.value p = s.value p) ∧
          Meanwhile W base t.value) ?_
        ⟨⟨SameLinks.refl s, hready.others, fun _ _ => rfl⟩, hvalues⟩ h₁
      intro force hforce t t' ⟨⟨ht, hholds, hframe⟩, htvalues⟩ hpass
      have ht' := hs.of_sameLinks ht
      have htrigger : Triggers hooks s.childDatas (.force force.1) (.set d) := .forced hforce
      have htinside : Inside hooks t.childDatas W (.force force.1) := by
        rw [ht.childDatas]
        exact hinside.of_triggers htrigger
      have hforceReady : Ready hooks t (fun c => X c ∨ c = d) (.force force.1) force.2 := by
        refine ⟨fun c hX _ => ?_, fun _ hparents => ?_⟩
        · rw [not_or] at hX
          exact hholds c hX.1 hX.2
        · exact absurd hforce ((ht'.untouched _ hparents).not_forced _ _ _ force.2)
      have hcarries : Carries hooks t.childDatas (Meanwhile W base) (.force force.1, force.2) := by
        rw [ht.childDatas]
        exact hcarried.forced force hforce
      refine ⟨⟨ht.trans (setData_sameLinks (fun _ _ _ _ => setValue_sameLinks) hpass),
        fun c hX hne => setData_holds ih ht' hforceReady htvalues htinside hcarries hpass c
          (not_or.mpr ⟨hX, hne⟩), fun p hp => ?_⟩,
        htvalues.setData htinside hpass⟩
      have hnot : ¬ Writes hooks s.childDatas (.force force.1) p := fun hw =>
        hp (hw.of_triggers htrigger)
      exact (setData_frame_of_call ht.childDatas hnot hpass).trans (hframe p hp)
    obtain ⟨⟨hsame₁, hholds₁, hframe₁⟩, hvalues₁⟩ := hforced
    have hs₁ := hs.of_sameLinks hsame₁
    have hinside₁ : Inside hooks s₁.childDatas W (.set d) := by
      rw [hsame₁.childDatas]
      exact hinside
    have hready₁ : Ready hooks s₁ X (.set d) (hooks.validateDataChange s.value d v) := by
      refine ⟨hholds₁, fun hX hparents => ?_⟩
      rw [hsame₁.parentDatas] at hparents ⊢
      rw [hsame₁.childDatas]
      obtain ⟨p, hp, hvalue, hwrites⟩ := hready.target hX hparents
      exact ⟨p, hp, hvalue.trans (hframe₁ p hwrites).symm, hwrites⟩
    have hcarries₁ : Carries hooks s₁.childDatas (Meanwhile W base)
        (.force d, hooks.validateDataChange s.value d v) := by
      rw [hsame₁.childDatas]
      exact hcarried.value
    have hholds₂ := setData_holds ih hs₁ hready₁ hvalues₁ hinside₁ hcarries₁ h₂
    have hvalues₂ := hvalues₁.setData hinside₁ h₂
    have hsame₂ := setData_sameLinks (fun _ _ _ _ => setValue_sameLinks) h₂
    have hs₂ := hs₁.of_sameLinks hsame₂
    -- what is set afterwards has no parents either
    have hafter : SameLinks s₂ s' ∧ (∀ c, ¬X c → Holds s' c) ∧ Meanwhile W base s'.value := by
      refine foldlM_keeps (P := fun t => SameLinks s₂ t ∧ (∀ c, ¬X c → Holds t c) ∧
        Meanwhile W base t.value) ?_ ⟨SameLinks.refl s₂, hholds₂, hvalues₂⟩ h₃
      intro next hnext t t' ⟨ht, hholds, htvalues⟩ hpass
      have ht' := hs₂.of_sameLinks ht
      have hlinks : t.childDatas = s.childDatas :=
        (ht.childDatas.trans hsame₂.childDatas).trans hsame₁.childDatas
      have htinside : Inside hooks t.childDatas W (.set next.1) := by
        rw [hlinks]
        exact hinside.of_triggers (.after hnext)
      have htcarried : Carried hooks t.childDatas (Meanwhile W base) t.value next.1 next.2 := by
        rw [hlinks]
        exact (hcarried.after _ hvalues₂ next hnext).carried htvalues
      refine ⟨ht.trans (setValue_sameLinks hpass), ih t X W base next.1 next.2 t' ht'
        ⟨fun c hX _ => hholds c hX, fun _ hparents => ?_⟩ htvalues htinside htcarried hpass,
        htvalues.setValue htinside hpass⟩
      exact absurd hnext ((ht'.untouched _ hparents).not_after _ _ next.2)
    exact hafter.2.1

/-! ## The values that are written -/

/-- What a call writes, it can hand down the links once more. -/
def Repeats (hooks : Hooks Value) (n : ℕ) : Prop :=
  ∀ s W base childDatas d v s' e, s.childDatas = childDatas → Meanwhile W base s.value →
    Inside hooks childDatas W (.set d) →
    Carried hooks childDatas (Meanwhile W base) s.value d v →
    (e = d ∨ Carries hooks childDatas (Meanwhile W base) (.force e, s.value e)) →
    setValue hooks n s d v = some s' →
      Carries hooks childDatas (Meanwhile W base) (.force e, s'.value e)

theorem setData_repeats (hset : Repeats hooks n) (hlinks : s.childDatas = childDatas)
    (hvalues : Meanwhile W base s.value) (hinside : Inside hooks childDatas W call)
    (hcarries : Carries hooks childDatas (Meanwhile W base) (.force call.target, v))
    (he : e = call.target ∨ Carries hooks childDatas (Meanwhile W base) (.force e, s.value e))
    (h : _setData hooks (setValue hooks n) s call.target v = some s') :
    Carries hooks childDatas (Meanwhile W base) (.force e, s'.value e) := by
  subst hlinks
  unfold _setData updateChildren at h
  have hdone : (s'.childDatas = s.childDatas ∧ Meanwhile W base s'.value) ∧
      ∀ e, (e = call.target ∨ Carries hooks s.childDatas (Meanwhile W base) (.force e, s.value e)) →
        Carries hooks s.childDatas (Meanwhile W base) (.force e, s'.value e) := by
    refine foldlM_keeps (s := { s with value := Function.update s.value call.target v })
      (P := fun t => (t.childDatas = s.childDatas ∧ Meanwhile W base t.value) ∧ ∀ e, (e = call.target ∨
        Carries hooks s.childDatas (Meanwhile W base) (.force e, s.value e)) →
          Carries hooks s.childDatas (Meanwhile W base) (.force e, t.value e)) ?_
            ⟨⟨rfl, fun e he => ?_⟩, fun e he => ?_⟩ h
    · intro x hx t t' ⟨⟨ht, htvalues⟩, hkept⟩ hpass
      have hchild : x ∈ s.childDatas call.target := (hooks.mem_iterate _ x).mp hx
      have htinside : Inside hooks s.childDatas W (.set x) :=
        hinside.of_triggers (triggers_child hchild)
      have htcarried := ((hkept _ (.inl rfl)).of_hands (.childOfForce hchild)).carried htvalues
      exact ⟨⟨(setValue_sameLinks hpass).childDatas.trans ht,
        htvalues.setValue (by rwa [ht]) hpass⟩, fun e he =>
          hset t W base _ x _ t' e ht htvalues htinside htcarried (.inr (hkept e he)) hpass⟩
    · have hne : e ≠ call.target := by
        rintro rfl
        exact he (hinside _ (Writes.target call))
      simp only [Function.update_of_ne hne]
      exact hvalues e he
    · by_cases hne : e = call.target
      · subst hne
        simp only [Function.update_self]
        exact hcarries
      · simp only [Function.update_of_ne hne]
        exact he.resolve_left hne
  exact hdone.2 e he

theorem repeats (n : ℕ) : Repeats hooks n := by
  induction n with
  | zero =>
    intro s W base childDatas d v s' e _ _ _ _ _ h
    cases h
  | succ n ih =>
    intro s W base childDatas d v s' e hlinks hvalues hinside hcarried he h
    obtain ⟨s₁, s₂, h₁, h₂, h₃⟩ := setValue_cases h
    have hforced : (s₁.childDatas = childDatas ∧ Meanwhile W base s₁.value) ∧ (e = d ∨
        Carries hooks childDatas (Meanwhile W base) (.force e, s₁.value e)) := by
      refine foldlM_keeps (P := fun t => (t.childDatas = childDatas ∧ Meanwhile W base t.value) ∧
        (e = d ∨ Carries hooks childDatas (Meanwhile W base) (.force e, t.value e))) ?_
          ⟨⟨hlinks, hvalues⟩, he⟩ h₁
      intro force hforce t t' ⟨⟨ht, htvalues⟩, hkept⟩ hpass
      have htinside : Inside hooks childDatas W (.force force.1) :=
        hinside.of_triggers (.forced hforce)
      exact ⟨⟨(setData_sameLinks (fun _ _ _ _ => setValue_sameLinks) hpass).childDatas.trans ht,
        htvalues.setData (show Inside hooks t.childDatas W (.force force.1) by rwa [ht]) hpass⟩,
        hkept.imp_right fun hkept => setData_repeats ih ht htvalues
          htinside (hcarried.forced force hforce) (.inr hkept) hpass⟩
    obtain ⟨⟨hlinks₁, hvalues₁⟩, hkept₁⟩ := hforced
    have hlinks₂ : s₂.childDatas = childDatas :=
      (setData_sameLinks (fun _ _ _ _ => setValue_sameLinks) h₂).childDatas.trans hlinks₁
    have hvalues₂ : Meanwhile W base s₂.value :=
      hvalues₁.setData (show Inside hooks s₁.childDatas W (.set d) by rwa [hlinks₁]) h₂
    have hkept₂ : Carries hooks childDatas (Meanwhile W base) (.force e, s₂.value e) :=
      setData_repeats ih hlinks₁ hvalues₁ hinside hcarried.value hkept₁ h₂
    have hafter : (s'.childDatas = childDatas ∧ Meanwhile W base s'.value) ∧
        Carries hooks childDatas (Meanwhile W base) (.force e, s'.value e) := by
      refine foldlM_keeps (P := fun t => (t.childDatas = childDatas ∧ Meanwhile W base t.value) ∧
        Carries hooks childDatas (Meanwhile W base) (.force e, t.value e)) ?_
          ⟨⟨hlinks₂, hvalues₂⟩, hkept₂⟩ h₃
      intro next hnext t t' ⟨⟨ht, htvalues⟩, hkept⟩ hpass
      have htinside : Inside hooks childDatas W (.set next.1) := hinside.of_triggers (.after hnext)
      have hcarries := hcarried.after _ hvalues₂ next hnext
      exact ⟨⟨(setValue_sameLinks hpass).childDatas.trans ht,
        htvalues.setValue (by rwa [ht]) hpass⟩,
        ih t W base _ next.1 next.2 t' e ht htvalues htinside (hcarries.carried htvalues)
          (.inr hkept) hpass⟩
    exact hafter.2

end Sem.Medea
