import Mathlib.Data.Fintype.Card
import Mathlib.Data.Set.Finite.Basic
import Mathlib.Logic.Relation
import Sem.Lib.Fuel

/-!
# What a recursion over a graph collects

A node's successors, and what is found from each of them, without a record of what has been visited.
Finding the successors may fail, or take some depth as well.

* `exists_collect_iff`: it comes to an end exactly where no way is endless and the successors of
  all that is reached are found.
* `mem_collect_iff`: then it has what is reached.
* `acc_iff_of_finite`: in a finite graph, a way is endless only through a cycle.
-/

namespace Sem

universe u

variable {α : Type u}

/-- The successors of a node, each followed by what is found from it, to a depth. -/
def collect (next : ℕ → α → Option (List α)) : ℕ → α → Option (List α)
  | 0, _ => none
  | depth + 1, a =>
    (next depth a).bind fun bs =>
      (bs.mapM fun b => (collect next depth b).map (b :: ·)).map List.flatten

namespace Closure

variable (next : ℕ → α → Option (List α))

/-- One thing leads to another directly. -/
def Step (a b : α) : Prop := ∃ depth bs, next depth a = some bs ∧ b ∈ bs

/-- More depth finds the same successors. -/
def Mono : Prop := ∀ m n a bs, m ≤ n → next m a = some bs → next n a = some bs

variable {next} {m n : ℕ} {a b : α} {bs l : List α}

theorem Mono.unique (h : Mono next) {bs' : List α} (hm : next m a = some bs)
    (hn : next n a = some bs') : bs = bs' :=
  Option.some.inj ((h m _ a bs (Nat.le_max_left m n) hm).symm.trans
    (h n _ a bs' (Nat.le_max_right m n) hn))

theorem collect_succ : collect next (n + 1) a = some l ↔
    ∃ bs ls, next n a = some bs ∧
      bs.mapM (fun b => (collect next n b).map (b :: ·)) = some ls ∧ l = ls.flatten := by
  simp only [collect, Option.bind_eq_some_iff, Option.map_eq_some_iff]
  grind

theorem collect_mono (h : Mono next) (hmn : m ≤ n) (hl : collect next m a = some l) :
    collect next n a = some l := by
  induction m generalizing n a l with
  | zero => cases hl
  | succ m ih =>
    obtain ⟨n, rfl⟩ : ∃ k, n = k + 1 := ⟨n - 1, by omega⟩
    rw [collect_succ] at hl ⊢
    obtain ⟨bs, ls, hbs, hls, rfl⟩ := hl
    refine ⟨bs, ls, h m n a bs (by omega) hbs, mapM_mono (fun b l hb => ?_) hls, rfl⟩
    obtain ⟨l', hl', rfl⟩ := Option.map_eq_some_iff.mp hb
    exact Option.map_eq_some_iff.mpr ⟨l', ih (by omega) hl', rfl⟩

/-- What is found from the successors of a node. -/
theorem mem_collect_succ {ls : List (List α)}
    (h : bs.mapM (fun b => (collect next n b).map (b :: ·)) = some ls) {x : α} :
    x ∈ ls.flatten ↔ ∃ b ∈ bs, ∃ lb, collect next n b = some lb ∧ (x = b ∨ x ∈ lb) := by
  rw [List.mem_flatten]
  constructor
  · rintro ⟨l, hl, hx⟩
    obtain ⟨b, hb, hbl⟩ := exists_source_of_mapM h hl
    obtain ⟨lb, hlb, rfl⟩ := Option.map_eq_some_iff.mp hbl
    exact ⟨b, hb, lb, hlb, List.mem_cons.mp hx⟩
  · rintro ⟨b, hb, lb, hlb, hx⟩
    obtain ⟨l, hl, hbl⟩ := exists_image_of_mapM h hb
    rw [hlb, Option.map_some] at hbl
    exact ⟨l, hl, Option.some.inj hbl ▸ List.mem_cons.mpr hx⟩

theorem mem_collect_iff (h : Mono next) (hl : collect next n a = some l) :
    b ∈ l ↔ Relation.TransGen (Step next) a b := by
  induction n generalizing a l with
  | zero => cases hl
  | succ n ih =>
    obtain ⟨bs, ls, hbs, hls, rfl⟩ := collect_succ.mp hl
    rw [mem_collect_succ hls, Relation.TransGen.head'_iff]
    constructor
    · rintro ⟨c, hc, lc, hlc, rfl | hb⟩
      · exact ⟨b, ⟨n, bs, hbs, hc⟩, .refl⟩
      · exact ⟨c, ⟨n, bs, hbs, hc⟩, ((ih hlc).mp hb).to_reflTransGen⟩
    · rintro ⟨c, ⟨k, bs', hbs', hc⟩, hcb⟩
      obtain rfl := h.unique hbs hbs'
      obtain ⟨_, -, hcl⟩ := exists_image_of_mapM hls hc
      obtain ⟨lc, hlc, -⟩ := Option.map_eq_some_iff.mp hcl
      refine ⟨c, hc, lc, hlc, ?_⟩
      rcases Relation.reflTransGen_iff_eq_or_transGen.mp hcb with heq | hcb
      · exact .inl heq
      · exact .inr ((ih hlc).mpr hcb)

/-- A recursion that comes to an end has followed every way to its end. -/
theorem acc_of_collect (h : Mono next) (hl : collect next n a = some l) :
    Acc (flip (Step next)) a ∧
      ∀ b, Relation.ReflTransGen (Step next) a b → ∃ k bs, next k b = some bs := by
  induction n generalizing a l with
  | zero => cases hl
  | succ n ih =>
    obtain ⟨bs, ls, hbs, hls, -⟩ := collect_succ.mp hl
    have hnext : ∀ c, Step next a c → ∃ lc, collect next n c = some lc := by
      rintro c ⟨k, bs', hbs', hc⟩
      obtain rfl := h.unique hbs hbs'
      obtain ⟨_, -, hcl⟩ := exists_image_of_mapM hls hc
      obtain ⟨lc, hlc, -⟩ := Option.map_eq_some_iff.mp hcl
      exact ⟨lc, hlc⟩
    constructor
    · refine Acc.intro a fun c hc => ?_
      obtain ⟨lc, hlc⟩ := hnext c hc
      exact (ih hlc).1
    · intro b hab
      rcases Relation.ReflTransGen.cases_head hab with rfl | ⟨c, hac, hcb⟩
      · exact ⟨n, bs, hbs⟩
      · obtain ⟨lc, hlc⟩ := hnext c hac
        exact (ih hlc).2 b hcb

theorem exists_collect (h : Mono next) (hacc : Acc (flip (Step next)) a)
    (hnext : ∀ b, Relation.ReflTransGen (Step next) a b → ∃ k bs, next k b = some bs) :
    ∃ n l, collect next n a = some l := by
  induction hacc with
  | intro a _ ih =>
    obtain ⟨k, bs, hbs⟩ := hnext a .refl
    obtain ⟨n, ls, hls⟩ : ∃ n ls, bs.mapM
        (fun b => (collect next n b).map (b :: ·)) = some ls := by
      refine exists_fuel_mapM (fun m n b l hmn hl => ?_) fun b hb => ?_
      · obtain ⟨lb, hlb, rfl⟩ := Option.map_eq_some_iff.mp hl
        rw [collect_mono h hmn hlb, Option.map_some]
      · have hstep : Step next a b := ⟨k, bs, hbs, hb⟩
        obtain ⟨n, lb, hlb⟩ := ih b hstep fun c hc => hnext c (.head hstep hc)
        exact ⟨n, b :: lb, by rw [hlb, Option.map_some]⟩
    refine ⟨max k n + 1, ls.flatten, collect_succ.mpr
      ⟨bs, ls, h k _ a bs (Nat.le_max_left k n) hbs, mapM_mono (fun b l hl => ?_) hls, rfl⟩⟩
    obtain ⟨lb, hlb, rfl⟩ := Option.map_eq_some_iff.mp hl
    rw [collect_mono h (Nat.le_max_right k n) hlb, Option.map_some]

theorem exists_collect_iff (h : Mono next) : (∃ n l, collect next n a = some l) ↔
    Acc (flip (Step next)) a ∧
      ∀ b, Relation.ReflTransGen (Step next) a b → ∃ k bs, next k b = some bs :=
  ⟨fun ⟨_, _, hl⟩ => acc_of_collect h hl, fun ⟨hacc, hnext⟩ => exists_collect h hacc hnext⟩

/-! ## Cycles -/

variable {R S : α → α → Prop}

/-- Two relations that agree wherever one of them leads reach the same. -/
theorem reflTransGen_congr (h : ∀ c, Relation.ReflTransGen R a c → ∀ d, R c d ↔ S c d) :
    Relation.ReflTransGen R a b ↔ Relation.ReflTransGen S a b := by
  constructor
  · intro hab
    induction hab with
    | refl => exact .refl
    | tail hac hcd ih => exact ih.tail ((h _ hac _).mp hcd)
  · intro hab
    induction hab with
    | refl => exact .refl
    | tail _ hcd ih => exact ih.tail ((h _ ih _).mpr hcd)

theorem transGen_congr (h : ∀ c, Relation.ReflTransGen R a c → ∀ d, R c d ↔ S c d) :
    Relation.TransGen R a b ↔ Relation.TransGen S a b := by
  rw [Relation.TransGen.tail'_iff, Relation.TransGen.tail'_iff]
  refine exists_congr fun c => ?_
  rw [← reflTransGen_congr h]
  exact and_congr_right fun hac => h c hac b

theorem not_transGen_self (hacc : Acc (flip R) a) : ¬ Relation.TransGen R a a := by
  induction hacc with
  | intro a _ ih =>
    intro hcycle
    obtain ⟨b, hab, hba⟩ := Relation.TransGen.head'_iff.mp hcycle
    exact ih b hab (Relation.TransGen.tail' hba hab)

theorem acc_of_reflTransGen (hacc : Acc (flip R) a) (hab : Relation.ReflTransGen R a b) :
    Acc (flip R) b := by
  induction hab with
  | refl => exact hacc
  | tail _ hbc ih => exact ih.inv hbc

theorem acc_iff_of_finite (hfinite : {b | Relation.ReflTransGen R a b}.Finite) :
    Acc (flip R) a ↔ ∀ b, Relation.ReflTransGen R a b → ¬ Relation.TransGen R b b := by
  refine ⟨fun hacc b hab => not_transGen_self (acc_of_reflTransGen hacc hab), fun hcycle => ?_⟩
  have := hfinite.to_subtype
  let S (x y : {b | Relation.ReflTransGen R a b}) : Prop := Relation.TransGen R y x
  have : IsTrans _ S := ⟨fun _ _ _ hxy hyz => hyz.trans hxy⟩
  have : Std.Irrefl S := ⟨fun x => hcycle x x.2⟩
  have hwf : WellFounded S := Finite.wellFounded_of_trans_of_irrefl S
  suffices hall : ∀ x : {b | Relation.ReflTransGen R a b}, Acc (flip R) x.1 from
    hall ⟨a, .refl⟩
  intro x
  induction hwf.apply x with
  | intro x _ ih =>
    exact Acc.intro x.1 fun b hb => ih ⟨b, x.2.tail hb⟩ (.single hb)

end Closure

end Sem
