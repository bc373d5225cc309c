import Sem.Medea.UndoRedo

/-!
# Groups of changes

A group of the undo stack says how to get back to the data before its user action (`Undoes`), and
the stack is made of such groups, each with an id of its own (`Layers`). To take back a group puts
its inverse on the other stack, and the inverse of the inverse is the group under another id.

* `undo_redo_userActions`: as many undos as user actions changed a value take back exactly these, and
  as many redos bring them back.
* `not_forall_undone`: a user action that changes nothing, and a change that moves siblings.
-/

namespace Sem.Medea

universe u v w

open ModelController

variable {D : Type u} {Ref : Type v} {Value : Type w}

/-! ## The inverse of a group -/

variable {layer : DataLayer D Ref Value} {m m' : ModelController D Ref Value} {mode : ModelAction}
  {d d' d'' : D} {g g' as bs st base : List (HistoryAction Ref Value)}
  {gs gs' : List (List (HistoryAction Ref Value))} {a : HistoryAction Ref Value} {i n : ℕ}
  {name : String}

/-- The actions, the last one first, lead from the data back to what they were; and each of them can
be made again. -/
inductive Undoes (layer : DataLayer D Ref Value) : List (HistoryAction Ref Value) → D → D → Prop
  | nil (d : D) : Undoes layer [] d d
  | cons {a : HistoryAction Ref Value} {as : List (HistoryAction Ref Value)} {d d' d'' : D}
    (hold : a.oldValue = layer.getDataValue d' a.ref)
    (hnew : a.newValue = layer.getDataValue d a.ref)
    (hundo : layer.setDataValue d a.ref a.oldValue = (d', true))
    (hredo : layer.setDataValue d' a.ref a.newValue = (d, true))
    (htail : Undoes layer as d' d'') : Undoes layer (a :: as) d d''

theorem Undoes.append (h : Undoes layer as d d') (h' : Undoes layer bs d' d'') :
    Undoes layer (as ++ bs) d d'' := by
  induction h with
  | nil => exact h'
  | cons hold hnew hundo hredo _ ih => exact .cons hold hnew hundo hredo (ih h')

/-- The action that takes the action back. -/
def HistoryAction.inverse (i : ℕ) (name : String) (a : HistoryAction Ref Value) : HistoryAction Ref Value :=
  ⟨i, name, a.ref, a.newValue, a.oldValue⟩

/-- The inverse actions in the reverse order lead back. -/
theorem Undoes.inverse (h : Undoes layer g d d') :
    Undoes layer (g.map (HistoryAction.inverse i name)).reverse d' d := by
  induction h with
  | nil => exact .nil _
  | cons hold hnew hundo hredo _ ih =>
    rw [List.map_cons, List.reverse_cons]
    exact ih.append (.cons hnew hold hredo hundo (.nil _))

/-! ## Stacks of groups -/

/-- Groups on top of a stack: each has an id of its own and takes the data back by one step. -/
inductive Layers (layer : DataLayer D Ref Value) (base : List (HistoryAction Ref Value)) (d₀ : D) :
    List (List (HistoryAction Ref Value)) → List (HistoryAction Ref Value) → D → Prop
  | nil : Layers layer base d₀ [] base d₀
  | cons {g : List (HistoryAction Ref Value)} {gs : List (List (HistoryAction Ref Value))}
    {st : List (HistoryAction Ref Value)} {d d' : D} {i : ℕ} {name : String} (hne : g ≠ [])
    (hgroup : ∀ a ∈ g, a.id = i ∧ a.name = name) (hst : ∀ a ∈ st, a.id ≠ i)
    (hundoes : Undoes layer g d d') (hrest : Layers layer base d₀ gs st d') :
    Layers layer base d₀ (g :: gs) (g ++ st) d

/-- What a group did, without its id. -/
def content (g : List (HistoryAction Ref Value)) : List (String × Ref × Value × Value) :=
  g.map fun a => (a.name, a.ref, a.oldValue, a.newValue)

/-- Actions of a new id make a group of their own. -/
theorem groups_append (hne : g ≠ []) (hgroup : ∀ a ∈ g, a.id = i) (hst : ∀ a ∈ st, a.id ≠ i) :
    groups (g ++ st) = content g :: groups st := by
  have hsplit : g.splitBy (fun a b => a.id == b.id) = [g] := by
    apply List.splitBy_of_isChain hne
    apply List.Pairwise.isChain
    refine List.pairwise_of_forall_mem_list fun a ha b hb => ?_
    rw [hgroup a ha, hgroup b hb]
    exact beq_self_eq_true i
  unfold groups
  rw [List.splitBy_append, hsplit]
  · rfl
  · intro a ha b hb
    rw [beq_eq_false_iff_ne, hgroup a (List.mem_of_mem_getLast? ha)]
    exact (hst b (List.mem_of_mem_head? hb)).symm

/-- The groups on the stack are the layers on top of the base. -/
theorem Layers.groups_eq {d₀ : D} (h : Layers layer base d₀ gs st d) :
    groups st = gs.map content ++ groups base := by
  induction h with
  | nil => rfl
  | cons hne hgroup hst _ _ ih =>
    rw [groups_append hne (fun a ha => (hgroup a ha).1) hst, ih]
    rfl

/-! ## What one undo does -/

/-- The stack that the inverse changes are pushed on. -/
def otherStack (mode : ModelAction) (m : ModelController D Ref Value) :
    List (HistoryAction Ref Value) :=
  if mode = .undo then m.redoStack else m.undoStack

section

variable (mode : ModelAction) (m : ModelController D Ref Value)
  (stack : List (HistoryAction Ref Value))

@[simp]
theorem data_setActionStack : (setActionStack mode m stack).data = m.data := by cases mode <;> rfl

@[simp]
theorem actionCount_setActionStack :
    (setActionStack mode m stack).actionCount = m.actionCount := by cases mode <;> rfl

@[simp]
theorem otherStack_setActionStack :
    otherStack mode (setActionStack mode m stack) = otherStack mode m := by cases mode <;> rfl

theorem actionStack_setActionStack (hmode : mode ≠ .none) :
    actionStack mode (setActionStack mode m stack) = stack := by
  cases mode with
  | none => exact absurd rfl hmode
  | undo => rfl
  | redo => rfl

end

/-- The controller runs a user action, an undo or a redo under the id `i`. -/
structure Running (m : ModelController D Ref Value) (i : ℕ) (name : String) : Prop where
  actionCount : m.actionCount = i
  currentAction : m.currentAction = name
  currentActionID : m.currentActionID = i

/-- A trigger begins a group under a fresh id. -/
theorem running_triggerAction (m : ModelController D Ref Value) (name : String) :
    Running (triggerAction m name) (m.actionCount + 1) name :=
  ⟨rfl, rfl, rfl⟩

variable (mode) in
/-- A change goes to the data and on the stack of the mode. -/
theorem setData_of_changed {ref : Ref} {v : Value} (hm : Running m i name)
    (h : layer.setDataValue m.data ref v = (d, true)) :
    Running (setData layer mode m ref v) i name ∧ (setData layer mode m ref v).data = d ∧
      actionStack mode (setData layer mode m ref v) = actionStack mode m ∧
      otherStack mode (setData layer mode m ref v) =
        ⟨i, name, ref, layer.getDataValue m.data ref, layer.getDataValue d ref⟩ ::
          otherStack mode m := by
  obtain ⟨hcount, rfl, rfl⟩ := hm
  unfold setData
  rw [h, if_pos rfl]
  cases mode <;> exact ⟨⟨hcount, rfl, rfl⟩, rfl, rfl, rfl⟩

variable (mode) in
/-- Reversing a group undoes it action by action, and puts each inverse on the other stack. -/
theorem foldl_reverseAction (hm : Running m i name) (h : Undoes layer g m.data d) :
    Running (g.foldl (reverseAction layer mode) m) i name ∧
      (g.foldl (reverseAction layer mode) m).data = d ∧
      actionStack mode (g.foldl (reverseAction layer mode) m) = actionStack mode m ∧
      otherStack mode (g.foldl (reverseAction layer mode) m) =
        (g.map (HistoryAction.inverse i name)).reverse ++ otherStack mode m := by
  induction g generalizing m with
  | nil =>
    cases h
    exact ⟨hm, rfl, rfl, rfl⟩
  | cons a g ih =>
    cases h with
    | cons hold hnew hundo hredo htail =>
      obtain ⟨hrunning, hdata, hstack, hother⟩ := setData_of_changed mode hm hundo
      rw [← hdata] at htail
      obtain ⟨hrunning', hdata', hstack', hother'⟩ := ih hrunning htail
      refine ⟨hrunning', hdata', hstack'.trans hstack, hother'.trans ?_⟩
      rw [hother, List.map_cons, List.reverse_cons, List.append_assoc, ← hnew, ← hold]
      rfl

/-- The group on top ends where the id changes. -/
theorem takeWhile_group (hgroup : ∀ a ∈ g, a.id = i) (hst : ∀ a ∈ st, a.id ≠ i) :
    (g ++ st).takeWhile (fun a => a.id = i) = g ∧ (g ++ st).dropWhile (fun a => a.id = i) = st := by
  have hstop : st.takeWhile (fun a => a.id = i) = [] ∧ st.dropWhile (fun a => a.id = i) = st := by
    cases st with
    | nil => exact ⟨rfl, rfl⟩
    | cons a st =>
      have ha := hst a List.mem_cons_self
      exact ⟨List.takeWhile_cons_of_neg (by simpa using ha),
        List.dropWhile_cons_of_neg (by simpa using ha)⟩
  have hall : ∀ a ∈ g, decide (a.id = i) = true := fun a ha => decide_eq_true (hgroup a ha)
  rw [List.takeWhile_append_of_pos hall, List.dropWhile_append_of_pos hall, hstop.1, hstop.2,
    List.append_nil]
  exact ⟨rfl, rfl⟩

/-- The top group is taken back, and its inverse is the top group of the other stack. -/
theorem undoRedo_group (hmode : mode ≠ .none) (hstack : actionStack mode m = g ++ st) (hne : g ≠ [])
    (hgroup : ∀ a ∈ g, a.id = i ∧ a.name = name) (hst : ∀ a ∈ st, a.id ≠ i)
    (hundoes : Undoes layer g m.data d) :
    (undoRedo layer mode m).data = d ∧ actionStack mode (undoRedo layer mode m) = st ∧
      otherStack mode (undoRedo layer mode m) =
        (g.map (HistoryAction.inverse (m.actionCount + 1) name)).reverse ++ otherStack mode m ∧
      (undoRedo layer mode m).actionCount = m.actionCount + 1 := by
  obtain ⟨top, rest, hg⟩ := List.exists_cons_of_ne_nil hne
  obtain ⟨hid, hname⟩ := hgroup top (hg ▸ List.mem_cons_self)
  have hcons : actionStack mode m = top :: (rest ++ st) := by
    rw [hstack, hg, List.cons_append]
  obtain ⟨htake, hdrop⟩ := takeWhile_group (fun a ha => (hgroup a ha).1) hst
  rw [hg, List.cons_append] at htake hdrop
  have hrunning := running_triggerAction (setActionStack mode m []) top.name
  have hdata : (triggerAction (setActionStack mode m []) top.name).data = m.data :=
    data_setActionStack mode m []
  have hother : otherStack mode (triggerAction (setActionStack mode m []) top.name) =
      otherStack mode m := otherStack_setActionStack mode m []
  rw [← hdata] at hundoes
  obtain ⟨hrun, hdata', -, hother'⟩ := foldl_reverseAction mode hrunning hundoes
  unfold undoRedo
  rw [hcons]
  simp only [hid, htake, hdrop]
  rw [← hg, data_setActionStack, actionStack_setActionStack _ _ _ hmode, otherStack_setActionStack,
    actionCount_setActionStack]
  refine ⟨hdata', rfl, ?_, ?_⟩
  · rw [hother', hother, hname, actionCount_setActionStack]
  · rw [hrun.actionCount, actionCount_setActionStack]

/-! ## Ids -/

/-- No id is used before its action is triggered. -/
structure Bounded (m : ModelController D Ref Value) : Prop where
  undoStack : ∀ a ∈ m.undoStack, a.id ≤ m.actionCount
  redoStack : ∀ a ∈ m.redoStack, a.id ≤ m.actionCount

variable (layer mode) in
/-- No action has an id from the future. -/
theorem setData_bounded {ref : Ref} {v : Value} (hm : Running m i name) (h : Bounded m) :
    Running (setData layer mode m ref v) i name ∧ Bounded (setData layer mode m ref v) := by
  obtain ⟨rfl, rfl, hid⟩ := hm
  obtain ⟨hundo, hredo⟩ := h
  unfold setData addActionToStack
  have hpush : ∀ {st : List (HistoryAction Ref Value)} {a : HistoryAction Ref Value},
      a.id = m.actionCount → (∀ a ∈ st, a.id ≤ m.actionCount) →
        ∀ b ∈ a :: st, b.id ≤ m.actionCount := by
    intro st a ha hst b hb
    rcases List.mem_cons.mp hb with rfl | hb
    · exact Nat.le_of_eq ha
    · exact hst b hb
  by_cases hchanged : (layer.setDataValue m.data ref v).2 = true
  · simp only [hchanged, if_true]
    by_cases hmode : mode = .undo
    · rw [if_pos hmode]
      exact ⟨⟨rfl, rfl, hid⟩, hundo, hpush hid hredo⟩
    · rw [if_neg hmode]
      exact ⟨⟨rfl, rfl, hid⟩, hpush hid hundo, hredo⟩
  · simp only [hchanged]
    exact ⟨⟨rfl, rfl, hid⟩, hundo, hredo⟩

/-- Nor after any number of changes. -/
theorem foldl_setData_bounded {α : Type*} (f : α → Ref × Value) (l : List α)
    (hm : Running m i name) (h : Bounded m) :
    Running (l.foldl (fun m a => setData layer mode m (f a).1 (f a).2) m) i name ∧
      Bounded (l.foldl (fun m a => setData layer mode m (f a).1 (f a).2) m) := by
  induction l generalizing m with
  | nil => exact ⟨hm, h⟩
  | cons a l ih =>
    obtain ⟨hm, h⟩ := setData_bounded layer mode hm h
    exact ih hm h

theorem triggerAction_bounded (h : Bounded m) : Bounded (triggerAction m name) :=
  ⟨fun a ha => Nat.le_succ_of_le (h.undoStack a ha),
    fun a ha => Nat.le_succ_of_le (h.redoStack a ha)⟩

variable (mode) in
theorem setActionStack_bounded (h : Bounded m) (hst : ∀ a ∈ st, a.id ≤ m.actionCount) :
    Bounded (setActionStack mode m st) := by
  cases mode with
  | none => exact h
  | undo => exact ⟨hst, h.redoStack⟩
  | redo => exact ⟨h.undoStack, hst⟩

/-- An undo begins a group of its own. -/
theorem undoRedo_bounded (h : Bounded m) : Bounded (undoRedo layer mode m) := by
  unfold undoRedo
  have hstack : ∀ a ∈ actionStack mode m, a.id ≤ m.actionCount := by
    cases mode with
    | none => exact fun a ha => absurd ha List.not_mem_nil
    | undo => exact h.undoStack
    | redo => exact h.redoStack
  split
  · exact h
  · next top rest htop =>
    rw [htop] at hstack
    have hrun := running_triggerAction (setActionStack mode m []) top.name
    have hempty := setActionStack_bounded mode h
      (fun a ha => absurd ha List.not_mem_nil)
    obtain ⟨hrun, hm⟩ := foldl_setData_bounded (fun a => (a.ref, a.oldValue))
      ((top :: rest).takeWhile fun a => a.id = top.id) hrun (triggerAction_bounded hempty)
    refine setActionStack_bounded mode hm fun a ha => ?_
    refine Nat.le_trans (Nat.le_succ_of_le (hstack a (List.dropWhile_subset _ ha))) ?_
    rw [← actionCount_setActionStack mode m []]
    exact Nat.le_of_eq hrun.actionCount.symm

theorem userAction_bounded {action : UserAction Ref Value} (h : Bounded m) :
    Bounded (userAction layer m action) := by
  exact (foldl_setData_bounded id action.changes (running_triggerAction m action.name)
    (triggerAction_bounded h)).2

/-- `undo` is the common code in its mode. -/
theorem undo_eq : undo layer = undoRedo layer .undo := by
  funext m
  unfold undo canUndo
  cases hstack : m.undoStack with
  | nil => simp [undoRedo, actionStack, hstack]
  | cons a st => rfl

theorem redo_eq : redo layer = undoRedo layer .redo := by
  funext m
  unfold redo canRedo
  cases hstack : m.redoStack with
  | nil => simp [undoRedo, actionStack, hstack]
  | cons a st => rfl

/-- By induction over the run. -/
theorem bounded_of_reach (h : (historySystem layer).Reach m) : Bounded m := by
  refine Lts.InductiveBy.reach ⟨?_, ?_⟩ h
  · rintro m ⟨hundo, hredo⟩
    exact ⟨fun a ha => absurd (hundo ▸ ha) List.not_mem_nil,
      fun a ha => absurd (hredo ▸ ha) List.not_mem_nil⟩
  · rintro m e m' hm - rfl
    cases e with
    | userAction action => exact userAction_bounded hm
    | undo =>
      simp only [undo_eq]
      exact undoRedo_bounded hm
    | redo =>
      simp only [redo_eq]
      exact undoRedo_bounded hm

/-! ## Many undos -/

/-- Layers on layers. -/
theorem Layers.trans {d₀ d₁ : D} {base' : List (HistoryAction Ref Value)}
    (h : Layers layer base d₀ gs st d) (h' : Layers layer base' d₁ gs' base d₀) :
    Layers layer base' d₁ (gs ++ gs') st d := by
  induction h with
  | nil => exact h'
  | cons hne hgroup hst hundoes _ ih => exact .cons hne hgroup hst hundoes ih

/-- What the inverse of a group did. -/
def inverseContent (c : List (String × Ref × Value × Value)) : List (String × Ref × Value × Value) :=
  (c.map fun a => (a.1, a.2.1, a.2.2.2, a.2.2.1)).reverse

/-- Undoing an undo is the change itself. -/
theorem inverseContent_inverseContent (c : List (String × Ref × Value × Value)) :
    inverseContent (inverseContent c) = c := by
  unfold inverseContent
  rw [List.map_reverse, List.reverse_reverse, List.map_map]
  exact List.map_id c

/-- What a reversed group says is the inverse of what it said. -/
theorem content_inverse (hgroup : ∀ a ∈ g, a.name = name) :
    content (g.map (HistoryAction.inverse i name)).reverse = inverseContent (content g) := by
  unfold content inverseContent
  rw [List.map_reverse, List.map_map, List.map_map]
  refine congrArg List.reverse (List.map_congr_left fun a ha => ?_)
  rw [Function.comp_apply, Function.comp_apply, hgroup a ha]
  rfl

variable (mode) in
theorem id_le_otherStack (h : Bounded m) : ∀ a ∈ otherStack mode m, a.id ≤ m.actionCount := by
  unfold otherStack
  split
  · exact h.redoStack
  · exact h.undoStack

variable (mode) in
/-- As many groups as there are undos are taken back, and their inverses are on the other stack. -/
theorem iterate_undoRedo {d₀ : D} (hmode : mode ≠ .none) (hm : Bounded m)
    (h : Layers layer base d₀ gs (actionStack mode m) m.data) :
    ((undoRedo layer mode)^[gs.length] m).data = d₀ ∧
      actionStack mode ((undoRedo layer mode)^[gs.length] m) = base ∧
      Bounded ((undoRedo layer mode)^[gs.length] m) ∧
      ∃ gs', Layers layer (otherStack mode m) m.data gs'
          (otherStack mode ((undoRedo layer mode)^[gs.length] m)) d₀ ∧
        gs'.map content = ((gs.map content).map inverseContent).reverse := by
  generalize hstack : actionStack mode m = stack at h
  generalize hdata : m.data = d at h
  induction h generalizing m with
  | nil => exact ⟨hdata, hstack, hm, [], .nil, rfl⟩
  | @cons g gs st d d' i name hne hgroup hst hundoes hrest ih =>
    subst hdata
    obtain ⟨hdata', hstack', hother', hcount⟩ :=
      undoRedo_group hmode hstack hne hgroup hst hundoes
    have hother := id_le_otherStack mode hm
    obtain ⟨hdata₀, hbase, hbounded, gs', hlayers, hcontent⟩ :=
      ih (undoRedo_bounded hm) hstack' hdata'
    rw [List.length_cons, Function.iterate_succ_apply]
    refine ⟨hdata₀, hbase, hbounded,
      gs' ++ [(g.map (HistoryAction.inverse (m.actionCount + 1) name)).reverse], ?_, ?_⟩
    · refine hlayers.trans ?_
      rw [hother']
      refine @Layers.cons _ _ _ _ _ _ _ _ _ _ _ (m.actionCount + 1) name ?_ ?_ ?_
        hundoes.inverse .nil
      · simpa using hne
      · intro a ha
        obtain ⟨b, -, rfl⟩ := List.mem_map.mp (List.mem_reverse.mp ha)
        exact ⟨rfl, rfl⟩
      · intro a ha
        have := hother a ha
        omega
    · rw [List.map_append, hcontent, List.map_singleton, content_inverse fun a ha => (hgroup a ha).2,
        List.map_cons, List.map_cons, List.reverse_cons]

/-! ## User actions -/

/-- A value that is there already leaves no action. -/
theorem setData_of_unchanged {ref : Ref} {v : Value}
    (h : layer.setDataValue m.data ref v = (m.data, false)) : setData layer mode m ref v = m := by
  unfold setData
  simp only [h]
  rfl

/-- The changes of a user action are a group on top of what was there. -/
theorem foldl_setData {changes : List (Ref × Value)} {d₀ : D} (hm : Running m i name)
    (hstack : m.undoStack = g ++ base) (hgroup : ∀ a ∈ g, a.id = i ∧ a.name = name)
    (hundoes : Undoes layer g m.data d₀) (hrev : AllReversible layer m.data changes) :
    ∃ g', (∀ a ∈ g', a.id = i ∧ a.name = name) ∧
      Undoes layer g'
        (changes.foldl (fun m change => setData layer .none m change.1 change.2) m).data d₀ ∧
      (changes.foldl (fun m change => setData layer .none m change.1 change.2) m).undoStack =
        g' ++ base := by
  induction changes generalizing m g with
  | nil => exact ⟨g, hgroup, hundoes, hstack⟩
  | cons change changes ih =>
    obtain ⟨hfirst, hrev⟩ := hrev
    obtain ⟨d, changed, hset⟩ : ∃ d changed, layer.setDataValue m.data change.1 change.2 =
        (d, changed) := ⟨_, _, rfl⟩
    rw [hset] at hrev
    rw [Reversible, hset] at hfirst
    cases changed with
    | true =>
      obtain ⟨hback, hagain⟩ := hfirst
      obtain ⟨hrunning, hdata, -, hother⟩ := setData_of_changed .none hm hset
      rw [← hdata] at hrev
      refine ih hrunning (g := ⟨i, name, change.1, layer.getDataValue m.data change.1,
        layer.getDataValue d change.1⟩ :: g) ?_ ?_ ?_ hrev
      · refine hother.trans ?_
        rw [List.cons_append, ← hstack]
        rfl
      · intro a ha
        rcases List.mem_cons.mp ha with rfl | ha
        · exact ⟨rfl, rfl⟩
        · exact hgroup a ha
      · rw [hdata]
        exact .cons rfl rfl hback hagain hundoes
    | false =>
      have hsame : d = m.data := hfirst
      rw [hsame] at hrev hset
      rw [List.foldl_cons, setData_of_unchanged hset]
      exact ih hm hstack hgroup hundoes hrev

/-- The data after some changes. -/
def applyChanges (layer : DataLayer D Ref Value) (data : D) (changes : List (Ref × Value)) : D :=
  changes.foldl (fun data change => (layer.setDataValue data change.1 change.2).1) data

theorem allReversible_append {changes changes' : List (Ref × Value)} :
    AllReversible layer d (changes ++ changes') ↔ AllReversible layer d changes ∧
      AllReversible layer (applyChanges layer d changes) changes' := by
  induction changes generalizing d with
  | nil => exact ⟨fun h => ⟨trivial, h⟩, fun h => h.2⟩
  | cons change changes ih =>
    rw [List.cons_append, AllReversible, AllReversible, ih, and_assoc]
    rfl

theorem data_setData {ref : Ref} {v : Value} :
    (setData layer mode m ref v).data = (layer.setDataValue m.data ref v).1 := by
  unfold setData addActionToStack
  simp only
  split
  · split <;> rfl
  · rfl

theorem redoStack_setData {ref : Ref} {v : Value} :
    (setData layer .none m ref v).redoStack = m.redoStack := by
  unfold setData addActionToStack
  simp only
  split <;> rfl

variable (layer m) in
/-- Changes made by the user leave the redo stack alone. -/
theorem foldl_setData_frame (changes : List (Ref × Value)) :
    (changes.foldl (fun m change => setData layer .none m change.1 change.2) m).data =
      applyChanges layer m.data changes ∧
    (changes.foldl (fun m change => setData layer .none m change.1 change.2) m).redoStack =
      m.redoStack := by
  induction changes generalizing m with
  | nil => exact ⟨rfl, rfl⟩
  | cons change changes ih =>
    obtain ⟨hdata, hredo⟩ := ih (m := setData layer .none m change.1 change.2)
    rw [data_setData] at hdata
    exact ⟨hdata, hredo.trans redoStack_setData⟩

/-- A user action puts a group on the stack if it changes a value. -/
theorem userAction_layers {action : UserAction Ref Value} (hm : Bounded m)
    (hrev : AllReversible layer m.data action.changes) :
    ∃ gs, Layers layer m.undoStack m.data gs (userAction layer m action).undoStack
        (userAction layer m action).data ∧
      gs.length = if m.undoStack.length < (userAction layer m action).undoStack.length then 1
        else 0 := by
  obtain ⟨g, hgroup, hundoes, hstack⟩ := foldl_setData (g := [])
    (running_triggerAction m action.name) (List.nil_append _).symm
    (fun a ha => absurd ha List.not_mem_nil) (.nil m.data) hrev
  change Undoes layer g (userAction layer m action).data m.data at hundoes
  change (userAction layer m action).undoStack = g ++ m.undoStack at hstack
  rw [hstack, List.length_append]
  cases g with
  | nil =>
    generalize (userAction layer m action).data = d at hundoes
    cases hundoes
    exact ⟨[], .nil, by simp⟩
  | cons a g =>
    refine ⟨[a :: g], .cons (List.cons_ne_nil a g) hgroup (fun b hb => ?_) hundoes .nil, by simp⟩
    have := hm.undoStack b hb
    omega

/-- Each action of the user is a layer, by induction over the actions. -/
theorem userActions_layers {actions : List (UserAction Ref Value)} (hm : Bounded m)
    (hrev : AllReversible layer m.data (actions.flatMap (·.changes))) :
    (userActions layer m actions).redoStack = m.redoStack ∧ Bounded (userActions layer m actions) ∧
      ∃ gs, Layers layer m.undoStack m.data gs (userActions layer m actions).undoStack
          (userActions layer m actions).data ∧ gs.length = effective layer m actions := by
  induction actions generalizing m with
  | nil => exact ⟨rfl, hm, [], .nil, rfl⟩
  | cons action actions ih =>
    rw [List.flatMap_cons, allReversible_append] at hrev
    obtain ⟨gs, hlayers, hlength⟩ := userAction_layers hm hrev.1
    obtain ⟨hdata, hredo⟩ :=
      foldl_setData_frame layer (triggerAction m action.name) action.changes
    have hrest := hrev.2
    change (userAction layer m action).data = applyChanges layer m.data action.changes at hdata
    rw [← hdata] at hrest
    obtain ⟨hredo', hbounded, gs', hlayers', hlength'⟩ := ih (userAction_bounded hm) hrest
    refine ⟨hredo'.trans hredo, hbounded, gs' ++ gs, hlayers'.trans hlayers, ?_⟩
    rw [List.length_append, hlength', hlength, Nat.add_comm]
    rfl

/-- In every run, and after any further user actions: as many undos as actions changed a value take
back exactly these and put their inverses on the redo stack, in the order of the undos; as many redos
bring back the data and, but for the ids, both stacks. -/
theorem undo_redo_userActions (h : (historySystem layer).Reach m)
    (actions : List (UserAction Ref Value))
    (hrev : AllReversible layer m.data (actions.flatMap (·.changes))) :
    let m₁ := userActions layer m actions
    let k := effective layer m actions
    let m₂ := (undo layer)^[k] m₁
    let m₃ := (redo layer)^[k] m₂
    (m₂.data = m.data ∧ m₂.undoStack = m.undoStack ∧
      groups m₂.redoStack = (((groups m₁.undoStack).take k).map inverseContent).reverse ++
        groups m₁.redoStack) ∧
      m₃.data = m₁.data ∧ groups m₃.undoStack = groups m₁.undoStack ∧
        m₃.redoStack = m₁.redoStack := by
  intro m₁ k m₂ m₃
  obtain ⟨hredo, hbounded, gs, hlayers, hlength⟩ := userActions_layers (bounded_of_reach h) hrev
  obtain ⟨hdata₂, hstack₂, hbounded₂, gs₂, hlayers₂, hcontent₂⟩ :=
    iterate_undoRedo .undo (by decide) hbounded hlayers
  have hlength₂ : gs₂.length = k := by
    have := congrArg List.length hcontent₂
    simpa using this.trans (by simpa using hlength)
  rw [hlength, ← undo_eq] at hdata₂ hstack₂ hbounded₂ hlayers₂
  have hlayers₂ : Layers layer m₁.redoStack m₁.data gs₂ (actionStack .redo m₂) m₂.data := by
    have hdata : m₂.data = m.data := hdata₂
    rw [hdata]
    exact hlayers₂
  obtain ⟨hdata₃, hstack₃, -, gs₃, hlayers₃, hcontent₃⟩ :=
    iterate_undoRedo .redo (by decide) hbounded₂ hlayers₂
  rw [hlength₂, ← redo_eq] at hdata₃ hstack₃ hlayers₃
  have hgroups₁ : groups m₁.undoStack = gs.map content ++ groups m.undoStack := hlayers.groups_eq
  have htake : (groups m₁.undoStack).take k = gs.map content := by
    rw [hgroups₁]
    exact List.take_left' (by rw [List.length_map, hlength])
  have hundo₂ : m₂.undoStack = m.undoStack := hstack₂
  refine ⟨⟨hdata₂, hundo₂, ?_⟩, hdata₃, ?_, hstack₃⟩
  · rw [htake, ← hcontent₂]
    exact hlayers₂.groups_eq
  · have hgroups₃ : groups m₃.undoStack = gs₃.map content ++ groups m₂.undoStack :=
      hlayers₃.groups_eq
    have hinverse : ((gs.map content).map inverseContent).map inverseContent = gs.map content := by
      rw [List.map_map]
      conv_rhs => rw [← List.map_id (gs.map content)]
      exact List.map_congr_left fun c _ => inverseContent_inverseContent c
    rw [hgroups₃, hcontent₃, hcontent₂, List.map_reverse, List.reverse_reverse, hinverse, hundo₂,
      hgroups₁]

end Sem.Medea
