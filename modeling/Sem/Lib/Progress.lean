import Sem.Lib.Run

/-!
# Runs that come to a goal

In every state short of the goal some action lowers a rank. So there is a run to the goal, of actions
that are allowed and meet the condition.
-/

namespace Sem

namespace Lts

universe u v w

variable {S : Type u} {A : Type v} {R : Type w} {f : S → A → Option S} {ok : S → A → Prop}
  [∀ s a, Decidable (ok s a)] {allowed : A → Prop} {I goal : S → Prop}

theorem exists_runBy_of_rank {lt : R → R → Prop} (hlt : WellFounded lt) (rank : S → R)
    (hprogress : ∀ s, I s → ¬ goal s →
      ∃ a s', allowed a ∧ ok s a ∧ f s a = some s' ∧ I s' ∧ lt (rank s') (rank s))
    {s : S} (hs : I s) :
    ∃ as s', (∀ a ∈ as, allowed a) ∧ runBy f ok s as = some s' ∧ goal s' := by
  induction hrank : rank s using hlt.induction generalizing s with
  | _ r ih =>
    by_cases hgoal : goal s
    · exact ⟨[], s, nofun, rfl, hgoal⟩
    · obtain ⟨a, s', ha, hok, hstep, hs', hlower⟩ := hprogress s hs hgoal
      obtain ⟨as, s'', has, hrun, hgoal'⟩ := ih (rank s') (hrank ▸ hlower) hs' rfl
      refine ⟨a :: as, s'', List.forall_mem_cons.mpr ⟨ha, has⟩, ?_, hgoal'⟩
      rw [runBy, if_pos hok, hstep]
      exact hrun

end Lts

end Sem
