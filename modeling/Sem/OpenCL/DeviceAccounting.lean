import Mathlib.Algebra.BigOperators.Group.List.Basic
import Mathlib.Data.List.Perm.Basic
import Sem.OpenCL.LoadBalancer

/-!
# The accounts of the devices

In a run in which no attempt fails that ends a call, and no `KmeansCluster` of vectors returns, the
job counts are those of the calls in progress.

* `Settles`: on the paths of such runs a body releases what it holds; `Kind.settles` for each call.
* `Books`: the invariant; `books_inductive` keeps it over every step.
* `devices_accounted_of_clean`: the accounts of every such run.
* `not_devices_accounted`: a kernel that is not found leaves its device with a job for good.
-/

namespace Sem.OpenCL

/-! ## What a call releases -/

/-- On every path that a clean run can take, the body releases devices that it holds, and it
returns, if it may, with none. -/
def Settles (mayReturn : Prop) : List ℕ → Body → Prop
  | held, .done _ => mayReturn → held = []
  | held, .request k => ∀ deviceId, Settles mayReturn (deviceId :: held) (k deviceId)
  | held, .attempt site k => ∀ outcome, site.Passes outcome → Settles mayReturn held (k outcome)
  | held, .release deviceId k => deviceId ∈ held ∧ Settles mayReturn (held.erase deviceId) k

variable {mayReturn : Prop} {held : List ℕ} {failed next thrown : Body} {k : Bool → Body}

/-- The sites whose failure is more than reported. -/
def Site.Strict (site : Site) : Prop := ∀ outcome, site.Passes outcome → outcome = .ok

theorem Site.strict_of_ne {site : Site} (h1 : site ≠ .dimensions) (h2 : site ≠ .readBuffer)
    (h3 : site ≠ .matrixArgs) (h4 : site ≠ .matrixLaunch) : site.Strict := by
  rintro outcome (hok | hreported | ⟨hmatrix, -⟩)
  · exact hok
  · exact (hreported.elim h1 h2).elim
  · exact (hmatrix.elim h3 h4).elim

theorem Settles.attempts {sites : List Site} (hsites : ∀ site ∈ sites, site.Strict)
    (h : Settles mayReturn held next) : Settles mayReturn held (attempts sites failed next) := by
  induction sites with
  | nil => exact h
  | cons site sites ih =>
    intro outcome hpasses
    have hok := hsites site List.mem_cons_self outcome hpasses
    subst hok
    exact ih fun site hsite => hsites site (List.mem_cons_of_mem _ hsite)

theorem strict_all {sites : List Site}
    (h : ∀ site ∈ sites, site ≠ .dimensions ∧ site ≠ .readBuffer ∧ site ≠ .matrixArgs ∧
      site ≠ .matrixLaunch) : ∀ site ∈ sites, site.Strict := fun site hsite =>
  have ⟨h1, h2, h3, h4⟩ := h site hsite
  Site.strict_of_ne h1 h2 h3 h4

theorem Settles.released {deviceId : ℕ} (h : Settles mayReturn held next) :
    Settles mayReturn (deviceId :: held) (.release deviceId next) := by
  refine ⟨List.mem_cons_self, ?_⟩
  rwa [List.erase_cons_head]

theorem settles_matrixMultBuffers (h : ∀ success, Settles mayReturn held (k success)) :
    Settles mayReturn held (matrixMultBuffers thrown k) := by
  intro outcome _
  beta_reduce
  by_cases hok : outcome = .ok
  · rw [if_pos hok]
    refine Settles.attempts (strict_all (by decide)) ?_
    rintro argsOutcome hargs
    have hreported : ∀ site o, site = Site.matrixArgs ∨ site = .matrixLaunch →
        site.Passes o → o = .ok ∨ o = .openCL := by
      rintro site o (rfl | rfl) (hok | (hreported | hreported) | ⟨-, hopen⟩)
      all_goals first | exact .inl hok | exact .inr hopen | cases hreported
    rcases hreported _ _ (.inl rfl) hargs with rfl | rfl
    · intro launchOutcome hlaunch
      rcases hreported _ _ (.inr rfl) hlaunch with rfl | rfl
      · exact h true
      · exact h false
    · exact h false
  · rw [if_neg hok]
    exact h false

theorem settles_kmeansIterations (h : Settles mayReturn held next) (n : ℕ) :
    Settles mayReturn held (kmeansIterations failed next n) := by
  induction n with
  | zero => exact h
  | succ n ih => exact ih.attempts (strict_all (by decide))

theorem settles_kmeansClusterBuffers (n : ℕ) (h : Settles mayReturn held (k true)) :
    Settles mayReturn held (kmeansClusterBuffers n k) := fun _ =>
  (settles_kmeansIterations h.released n).attempts (strict_all (by decide))

/-- Every call, with nothing held. -/
theorem Kind.settles (kind : Kind) : Settles (¬ kind.OfVectors) [] kind.body := by
  cases kind with
  | runParallel isValid numThreads =>
    change Settles _ _ (OpenCL.runParallel isValid numThreads)
    unfold OpenCL.runParallel
    cases isValid with
    | false => exact fun _ => rfl
    | true =>
      by_cases hzero : numThreads = 0
      · rw [if_neg (by decide), if_pos hzero]
        exact fun _ => rfl
      · rw [if_neg (by decide), if_neg hzero]
        intro deviceId
        exact Settles.attempts (strict_all (by decide)) (Settles.released fun _ => rfl)
  | matrixMult =>
    intro deviceId
    refine Settles.attempts (strict_all (by decide)) (settles_matrixMultBuffers fun success => ?_)
    exact Settles.attempts (strict_all (by decide)) (Settles.released fun _ => rfl)
  | kmeansCluster isFPGA iterations =>
    change Settles _ _ (OpenCL.kmeansCluster isFPGA iterations)
    unfold OpenCL.kmeansCluster
    cases isFPGA with
    | true => exact fun _ => rfl
    | false =>
      intro deviceId
      refine Settles.attempts (strict_all (by decide)) (settles_kmeansClusterBuffers _ ?_)
      exact fun _ _ _ _ hmay => (hmay rfl).elim
  | kmeansClusterBuffers iterations =>
    exact settles_kmeansClusterBuffers iterations fun _ => rfl
  | fft isValid =>
    change Settles _ _ (OpenCL.fft isValid)
    unfold OpenCL.fft
    cases isValid with
    | false => exact fun _ => rfl
    | true =>
      intro deviceId
      exact Settles.attempts (strict_all (by decide)) (Settles.released fun _ => rfl)

/-! ## The books -/

instance : Std.Total (α := DeviceJobList) (· ≤ ·) where
  total a b := by
    change (a.numJobs < b.numJobs ∨ _) ∨ (b.numJobs < a.numJobs ∨ _)
    omega

instance : IsTrans DeviceJobList (· ≤ ·) where
  trans a b c := by
    rintro (hab | ⟨hab, hab'⟩) (hbc | ⟨hbc, hbc'⟩)
    · exact .inl (hab.trans hbc)
    · exact .inl (hbc ▸ hab)
    · exact .inl (hab ▸ hbc)
    · exact .inr ⟨hab.trans hbc, hab'.trans hbc'⟩

theorem DeviceJobList.numJobs_le {a b : DeviceJobList} (h : a ≤ b) : a.numJobs ≤ b.numJobs := by
  rcases h with hlt | ⟨heq, -⟩
  · exact hlt.le
  · exact heq.le

variable {deviceIds : List ℕ} {s s' : Balancer} {call call' : Call} {i : ℕ}

/-- The invariant of a clean run. -/
structure Books (deviceIds : List ℕ) (s : Balancer) : Prop where
  sorted : s.devices.Pairwise (· ≤ ·)
  jobs : ∀ djl ∈ s.devices, djl.numJobs = s.inProgress djl.deviceId
  devices : (s.devices.map (·.deviceId)).Perm deviceIds
  settles : ∀ call ∈ s.calls, Settles (¬ call.kind.OfVectors) call.held call.body
  matched : s.unmatched = []

theorem sum_set {α : Type} (f : α → ℕ) {l : List α} {a b : α} (h : l[i]? = some a) :
    ((l.set i b).map f).sum + f a = (l.map f).sum + f b := by
  induction l generalizing i with
  | nil => cases h
  | cons c l ih =>
    cases i with
    | zero =>
      cases h
      simp only [List.set_cons_zero, List.map_cons, List.sum_cons]
      omega
    | succ i =>
      have := ih h
      simp only [List.set_cons_succ, List.map_cons, List.sum_cons]
      omega

theorem sum_eraseIdx {α : Type} (f : α → ℕ) {l : List α} {a : α} (h : l[i]? = some a) :
    ((l.eraseIdx i).map f).sum + f a = (l.map f).sum := by
  induction l generalizing i with
  | nil => cases h
  | cons c l ih =>
    cases i with
    | zero =>
      cases h
      simp only [List.eraseIdx_cons_zero, List.map_cons, List.sum_cons]
      omega
    | succ i =>
      have := ih h
      simp only [List.eraseIdx_cons_succ, List.map_cons, List.sum_cons]
      omega

/-- What a request leaves of the set. -/
theorem request_perm {devices : OrderedSet DeviceJobList} {djl : DeviceJobList}
    (hnodup : ((djl :: devices).map (·.deviceId)).Nodup) (n : ℕ) :
    (OrderedSet.insert devices { djl with numJobs := n }).Perm
      ({ djl with numJobs := n } :: devices) := by
  refine OrderedSet.insert_perm fun hmem => ?_
  rw [List.map_cons, List.nodup_cons] at hnodup
  exact hnodup.1 (List.mem_map.mpr ⟨_, hmem, rfl⟩)

/-- What a release leaves: one device with one job less, or all as it was. -/
theorem releaseDevice_cases {devices : OrderedSet DeviceJobList}
    (hnodup : (devices.map (·.deviceId)).Nodup) (deviceId : ℕ) :
    (releaseDevice devices deviceId = devices ∧ ∀ djl ∈ devices, djl.deviceId ≠ deviceId) ∨
      ∃ djl rest, djl.deviceId = deviceId ∧ devices.Perm (djl :: rest) ∧
        (releaseDevice devices deviceId).Perm ({ djl with numJobs := djl.numJobs - 1 } :: rest) ∧
        (devices.Pairwise (· ≤ ·) → (releaseDevice devices deviceId).Pairwise (· ≤ ·)) := by
  unfold releaseDevice
  cases hfind : devices.find? (·.deviceId = deviceId) with
  | none =>
    refine .inl ⟨rfl, fun djl hdjl => ?_⟩
    simpa using List.find?_eq_none.mp hfind djl hdjl
  | some djl =>
    have hmem := List.mem_of_find?_eq_some hfind
    have hid : djl.deviceId = deviceId := by simpa using List.find?_some hfind
    have hperm := OrderedSet.perm_cons_erase hnodup.of_map hmem
    refine .inr ⟨djl, _, hid, hperm, request_perm ?_ _, fun hsorted => ?_⟩
    · exact (hperm.map _).nodup_iff.mp hnodup
    · exact OrderedSet.pairwise_insert (OrderedSet.pairwise_erase hsorted djl) _

theorem Books.nodup (h : Books deviceIds s) (hids : deviceIds.Nodup) :
    (s.devices.map (·.deviceId)).Nodup :=
  h.devices.nodup_iff.mpr hids

/-- A call that goes on as it should. -/
theorem Books.settles_set {calls : List Call} (h : ∀ call ∈ calls,
      Settles (¬ call.kind.OfVectors) call.held call.body)
    (hcall : Settles (¬ call'.kind.OfVectors) call'.held call'.body) :
    ∀ call ∈ calls.set i call', Settles (¬ call.kind.OfVectors) call.held call.body := by
  intro c hc
  rcases List.mem_or_eq_of_mem_set hc with hmem | rfl
  · exact h c hmem
  · exact hcall

/-- **A step of a clean run keeps the books.** -/
theorem Books.step (hids : deviceIds.Nodup) (h : Books deviceIds s) {a : Action}
    (hclean : Clean s a) (hstep : step s a = some s') : Books deviceIds s' := by
  cases a with
  | start kind =>
    cases hstep
    have hprogress : ∀ d, ({ s with calls := s.calls ++ [⟨kind, kind.body, []⟩] } : Balancer).inProgress d
        = s.inProgress d := by
      intro d
      simp [Balancer.inProgress]
    refine ⟨h.sorted, fun djl hdjl => ?_, h.devices, fun c hc => ?_, h.matched⟩
    · rw [hprogress]
      exact h.jobs djl hdjl
    · rcases List.mem_append.mp hc with hold | hnew
      · exact h.settles c hold
      · rw [List.mem_singleton.mp hnew]
        exact kind.settles
  | run i outcome =>
    obtain ⟨call, hcall, hgo⟩ := Option.bind_eq_some_iff.mp hstep
    obtain ⟨hpasses, hreturns⟩ := hclean call hcall
    have hmem := List.mem_of_getElem? hcall
    have hsettles := h.settles call hmem
    cases hbody : call.body with
    | done success =>
      rw [hbody] at hgo hsettles
      cases hgo
      have hheld : call.held = [] := hsettles (hreturns success hbody)
      refine ⟨h.sorted, fun djl hdjl => ?_, h.devices, fun c hc => ?_, ?_⟩
      · have hsum := sum_eraseIdx (fun c : Call => c.held.count djl.deviceId) hcall
        rw [hheld, List.count_nil, Nat.add_zero] at hsum
        rw [h.jobs djl hdjl]
        exact hsum.symm
      · exact h.settles c (List.mem_of_mem_eraseIdx hc)
      · rw [h.matched, hheld]
        rfl
    | request k =>
      rw [hbody] at hgo hsettles
      cases hdevices : s.devices with
      | nil =>
        rw [goOn, hdevices] at hgo
        cases hgo
      | cons djl rest =>
        rw [goOn, hdevices] at hgo
        cases hgo
        have hnodup := h.nodup hids
        rw [hdevices] at hnodup
        have hperm := request_perm hnodup (djl.numJobs + 1)
        have hsorted := h.sorted
        rw [hdevices] at hsorted
        have hsum := fun d => sum_set (fun c : Call => c.held.count d)
          (b := { call with body := k djl.deviceId, held := djl.deviceId :: call.held }) hcall
        refine ⟨OrderedSet.pairwise_insert hsorted.of_cons _, fun e he => ?_, ?_, ?_, h.matched⟩
        · have hsum := hsum e.deviceId
          simp only [List.count_cons] at hsum
          rcases List.mem_cons.mp (hperm.subset he) with rfl | hrest
          · have := h.jobs djl (hdevices ▸ List.mem_cons_self)
            simp only [Balancer.inProgress] at this ⊢
            simp only [beq_self_eq_true, if_true] at hsum
            omega
          · have hne : djl.deviceId ≠ e.deviceId := by
              intro heq
              rw [List.map_cons, List.nodup_cons] at hnodup
              exact hnodup.1 (List.mem_map.mpr ⟨e, hrest, heq.symm⟩)
            have := h.jobs e (hdevices ▸ List.mem_cons_of_mem _ hrest)
            simp only [Balancer.inProgress] at this ⊢
            simp only [beq_iff_eq, hne, if_false] at hsum
            omega
        · refine ((hperm.map (·.deviceId)).trans ?_).trans h.devices
          rw [hdevices]
          exact List.Perm.refl _
        · exact Books.settles_set h.settles (hsettles djl.deviceId)
    | attempt site k =>
      rw [hbody] at hgo hsettles
      cases hgo
      refine ⟨h.sorted, fun djl hdjl => ?_, h.devices, ?_, h.matched⟩
      · have hsum := sum_set (fun c : Call => c.held.count djl.deviceId)
          (b := { call with body := k outcome }) hcall
        rw [h.jobs djl hdjl]
        exact (Nat.add_right_cancel hsum).symm
      · exact Books.settles_set h.settles (hsettles outcome (hpasses site k hbody))
    | release deviceId k =>
      rw [hbody] at hgo hsettles
      cases hgo
      obtain ⟨hheld, hrest⟩ := hsettles
      have hsum := fun d => sum_set (fun c : Call => c.held.count d)
        (b := { call with body := k, held := call.held.erase deviceId }) hcall
      have hpos : 0 < call.held.count deviceId := List.count_pos_iff.mpr hheld
      have hother : ∀ d, d ≠ deviceId → (call.held.erase deviceId).count d = call.held.count d :=
        fun d hd => List.count_erase_of_ne hd
      rcases releaseDevice_cases (h.nodup hids) deviceId with
        ⟨heq, hnone⟩ | ⟨djl, rest, rfl, hperm, hperm', hsorted⟩
      · refine ⟨by simpa only [heq] using h.sorted, fun e he => ?_,
          by simpa only [heq] using h.devices, Books.settles_set h.settles hrest, h.matched⟩
        rw [heq] at he
        have hsum := hsum e.deviceId
        rw [hother _ (hnone e he)] at hsum
        rw [h.jobs e he]
        exact (Nat.add_right_cancel hsum).symm
      · refine ⟨hsorted h.sorted, fun e he => ?_, ?_, Books.settles_set h.settles hrest, h.matched⟩
        · have hsum := hsum e.deviceId
          rcases List.mem_cons.mp (hperm'.subset he) with rfl | hmemRest
          · have := h.jobs djl (hperm.mem_iff.mpr List.mem_cons_self)
            simp only [List.count_erase_self] at hsum
            simp only [Balancer.inProgress] at this ⊢
            omega
          · have hne : e.deviceId ≠ djl.deviceId := by
              intro heq
              have hnodup := (hperm.map (·.deviceId)).nodup_iff.mp (h.nodup hids)
              rw [List.map_cons, List.nodup_cons] at hnodup
              exact hnodup.1 (List.mem_map.mpr ⟨e, hmemRest, heq⟩)
            rw [hother _ hne] at hsum
            rw [h.jobs e (hperm.mem_iff.mpr (List.mem_cons_of_mem _ hmemRest))]
            exact (Nat.add_right_cancel hsum).symm
        · exact ((hperm'.map (·.deviceId)).trans (hperm.map (·.deviceId)).symm).trans h.devices

/-- The set that the balancer starts with. -/
theorem deviceSet_books (hids : deviceIds.Nodup) :
    (deviceSet deviceIds).Pairwise (· ≤ ·) ∧
      ((deviceSet deviceIds).map (·.deviceId)).Perm deviceIds ∧
      ∀ djl ∈ deviceSet deviceIds, djl.numJobs = 0 := by
  suffices h : ∀ (ids before : List ℕ) (set : OrderedSet DeviceJobList), (before ++ ids).Nodup →
      set.Pairwise (· ≤ ·) → (set.map (·.deviceId)).Perm before → (∀ djl ∈ set, djl.numJobs = 0) →
      (ids.foldl (fun set d => OrderedSet.insert set ⟨d, 0⟩) set).Pairwise (· ≤ ·) ∧
        ((ids.foldl (fun set d => OrderedSet.insert set ⟨d, 0⟩) set).map (·.deviceId)).Perm
          (before ++ ids) ∧
        ∀ djl ∈ ids.foldl (fun set d => OrderedSet.insert set ⟨d, 0⟩) set, djl.numJobs = 0 from
    h deviceIds [] [] hids List.Pairwise.nil (List.Perm.refl _) nofun
  intro ids
  induction ids with
  | nil =>
    intro before set _ hsorted hperm hzero
    rw [List.append_nil]
    exact ⟨hsorted, hperm, hzero⟩
  | cons d ids ih =>
    intro before set hnodup hsorted hperm hzero
    have hfresh : (⟨d, 0⟩ : DeviceJobList) ∉ set := by
      intro hmem
      have hbefore : d ∈ before := hperm.mem_iff.mp (List.mem_map.mpr ⟨_, hmem, rfl⟩)
      exact (List.nodup_append.mp hnodup).2.2 d hbefore d List.mem_cons_self rfl
    have hinsert := OrderedSet.insert_perm hfresh
    have hmap : ((OrderedSet.insert set ⟨d, 0⟩).map (·.deviceId)).Perm (before ++ [d]) :=
      ((hinsert.map DeviceJobList.deviceId).trans (hperm.cons d)).trans (List.perm_append_singleton d before).symm
    have := ih (before ++ [d]) (OrderedSet.insert set ⟨d, 0⟩) (by simpa using hnodup)
      (OrderedSet.pairwise_insert hsorted _) hmap fun djl hdjl => by
        rcases List.mem_cons.mp (hinsert.subset hdjl) with rfl | hold
        · rfl
        · exact hzero djl hold
    simpa using this

theorem books_inductive (hids : deviceIds.Nodup) :
    (balancer deviceIds).InductiveBy Clean (Books deviceIds) := by
  refine ⟨fun hinit => ?_, fun h hclean hstep => h.step hids hclean hstep⟩
  subst hinit
  obtain ⟨hsorted, hperm, hjobs⟩ := deviceSet_books hids
  exact ⟨hsorted, hjobs, hperm, nofun, rfl⟩

/-- The books are what the accounts are to be. -/
theorem Books.accounted (h : Books deviceIds s) : Accounted deviceIds s := by
  refine ⟨h.jobs, h.devices, fun deviceId devices hrequest d hd => ?_, fun c hc deviceId k hbody => ?_,
    h.matched⟩
  · have hsorted := h.sorted
    have hjobs := h.jobs
    have hdevices := h.devices
    cases hs : s.devices with
    | nil =>
      rw [hs] at hrequest
      cases hrequest
    | cons djl rest =>
      rw [hs] at hrequest hsorted hjobs hdevices
      cases hrequest
      obtain ⟨e, he, rfl⟩ := List.mem_map.mp (hdevices.mem_iff.mpr hd)
      rw [← hjobs djl List.mem_cons_self, ← hjobs e he]
      rcases List.mem_cons.mp he with rfl | hrest
      · exact le_rfl
      · exact DeviceJobList.numJobs_le ((List.pairwise_cons.mp hsorted).1 e hrest)
  · have := h.settles c hc
    rw [hbody] at this
    exact this.1

/-- **In every clean run the accounts are right in every state.** -/
theorem devices_accounted_of_clean (hids : deviceIds.Nodup)
    (hs : (balancer deviceIds).ReachBy Clean s) : Accounted deviceIds s :=
  ((books_inductive hids).reach hs).accounted

/-- Two calls on two devices, the second of which returns. -/
theorem devices_accounted_returned : ∃ s, (balancer [0, 1]).ReachBy Clean s ∧
    s.devices = [⟨1, 0⟩, ⟨0, 1⟩] ∧ s.inProgress 0 = 1 ∧ s.inProgress 1 = 0 ∧
      Accounted [0, 1] s := by
  have hclean : ∀ (s : Balancer) i call, s.calls[i]? = some call → call.kind = .fft true →
      Clean s (.run i .ok) := by
    intro s i call hcall hkind call' hcall'
    obtain rfl := Option.some.inj (hcall.symm.trans hcall')
    exact ⟨fun _ _ _ => .inl rfl, fun _ _ => by rw [hkind]; exact not_false⟩
  have hempty : (balancer [0, 1]).ReachBy Clean ⟨deviceSet [0, 1], [], []⟩ := .init rfl
  have hone := hempty.step (Action.start (.fft true)) trivial rfl
  have htwo := hone.step (Action.start (.fft true)) trivial rfl
  have hrequest := htwo.step (Action.run 0 .ok) (hclean _ _ _ rfl rfl) rfl
  have hother := hrequest.step (Action.run 1 .ok) (hclean _ _ _ rfl rfl) rfl
  have hworked := hother.step (Action.run 1 .ok) (hclean _ _ _ rfl rfl) rfl
  have hreleased := hworked.step (Action.run 1 .ok) (hclean _ _ _ rfl rfl) rfl
  have hreturned := hreleased.step (Action.run 1 .ok) (hclean _ _ _ rfl rfl) rfl
  exact ⟨_, hreturned, rfl, rfl, rfl, devices_accounted_of_clean (by decide) hreturned⟩

/-- `RunParallel` finds no device, and `KmeansCluster` of vectors succeeds: either returns and leaves
its device with a job. -/
theorem not_devices_accounted :
    (∃ s, Lts.run step ⟨deviceSet [0], [], []⟩ [.start (.runParallel true 1), .run 0 .ok,
      .run 0 .other, .run 0 .ok] = some s ∧ (balancer [0]).Reach s ∧ s.calls = [] ∧
        ¬ Accounted [0] s) ∧
    ∃ s, Lts.run step ⟨deviceSet [0], [], []⟩
      (.start (.kmeansCluster false 0) :: List.replicate 19 (.run 0 .ok)) = some s ∧
        (balancer [0]).Reach s ∧ s.calls = [] ∧ ¬ Accounted [0] s := by
  have hleft : ¬ Accounted [0] ⟨[⟨0, 1⟩], [], [0]⟩ := by
    intro h
    exact absurd (h.jobs ⟨0, 1⟩ List.mem_cons_self) (by decide)
  have hparallel : Lts.run step ⟨deviceSet [0], [], []⟩ [.start (.runParallel true 1), .run 0 .ok,
      .run 0 .other, .run 0 .ok] = some ⟨[⟨0, 1⟩], [], [0]⟩ := rfl
  have hkmeans : Lts.run step ⟨deviceSet [0], [], []⟩
      (.start (.kmeansCluster false 0) :: List.replicate 19 (.run 0 .ok)) =
        some ⟨[⟨0, 1⟩], [], [0]⟩ := rfl
  exact ⟨⟨_, hparallel, Lts.reach_of_run hparallel, rfl, hleft⟩,
    ⟨_, hkmeans, Lts.reach_of_run hkmeans, rfl, hleft⟩⟩

end Sem.OpenCL
