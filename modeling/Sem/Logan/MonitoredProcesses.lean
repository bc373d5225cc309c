import Sem.Logan.SigarProcesses

/-!
# The monitored processes after an update

* `stringInString_iff`: `std::search` finds an empty name in every text but the empty one.
* `lookup_foldl_updateProcess`, `mem_trackedPids_foldl_updateProcess`: the loop over the list.
* `Monitor.Settled`: the invariant between the calls.
* `exact_of_settles`: the runs in which every update leaves exactly the matching processes.
* `not_exact`: names that are cleared, and a process whose number is given to another program.
-/

namespace Sem.Logan

open Xml (Text)

/-! ## Names -/

theorem startsWith_iff {haystack needle : Text} : startsWith haystack needle = true ↔
    needle.map Char.toUpper <+: haystack.map Char.toUpper := by
  induction haystack generalizing needle with
  | nil => cases needle <;> simp [startsWith]
  | cons c haystack ih =>
    cases needle with
    | nil => simp [startsWith]
    | cons d needle =>
      rw [startsWith, List.map_cons, List.map_cons, List.cons_prefix_cons, Bool.and_eq_true,
        beq_iff_eq, ih]
      exact and_congr_left' eq_comm

theorem stringInString_iff {haystack needle : Text} : stringInString haystack needle = true ↔
    haystack ≠ [] ∧ ContainsName haystack needle := by
  rw [stringInString, decide_eq_true_iff, ContainsName]
  induction haystack with
  | nil => simp [search]
  | cons c haystack ih =>
    rw [search, List.map_cons, List.infix_cons_iff, ← List.map_cons, ← startsWith_iff]
    split
    · rename_i h
      simp [h]
    · rename_i h
      simp only [h, ne_eq, Bool.false_eq_true, false_or, reduceCtorEq, not_false_eq_true, true_and]
      rw [ne_eq] at ih
      rw [ih, and_iff_right_iff_imp]
      rintro hinfix rfl
      obtain rfl : needle = [] := by simpa using hinfix
      exact h rfl

/-! ## The loop over the list -/

section

variable {exeName : Int → Text} {pids pids' : List Int} {s s' s'' : SigarSystemInfo}

/-- What the loop over the processes does. -/
structure Updated (exeName : Int → Text) (pids : List Int) (s s' : SigarSystemInfo) : Prop where
  trackedProcessNames : s'.trackedProcessNames = s.trackedProcessNames
  forceProcessNameCheck : s'.forceProcessNameCheck = s.forceProcessNameCheck
  currentPids : ∀ q, q ∈ s'.currentPids ↔ q ∈ pids ∨ q ∈ s.currentPids
  lookup : ∀ q, s'.processes.lookup q =
    if q ∈ pids then some (s.nameOf exeName q) else s.processes.lookup q
  trackedPids : ∀ q, q ∈ s'.trackedPids ↔
    if q ∈ pids ∧ (s.forceProcessNameCheck = true ∨ s.processes.lookup q = none) then
      s.matchesName (s.nameOf exeName q) = true
    else q ∈ s.trackedPids

theorem SigarSystemInfo.matchesName_congr (h : s'.trackedProcessNames = s.trackedProcessNames)
    (name : Text) : s'.matchesName name = s.matchesName name := by
  rw [matchesName, matchesName, h]

theorem Updated.nil : Updated exeName [] s s := by
  constructor <;> simp

theorem Updated.nameOf (h : Updated exeName pids s s') (q : Int) :
    s'.nameOf exeName q = s.nameOf exeName q := by
  rw [SigarSystemInfo.nameOf, h.lookup]
  split <;> rfl

theorem Updated.trans (h : Updated exeName pids s s') (h' : Updated exeName pids' s' s'') :
    Updated exeName (pids ++ pids') s s'' where
  trackedProcessNames := h'.trackedProcessNames.trans h.trackedProcessNames
  forceProcessNameCheck := h'.forceProcessNameCheck.trans h.forceProcessNameCheck
  currentPids q := by
    rw [h'.currentPids, h.currentPids, List.mem_append]
    tauto
  lookup q := by
    rw [h'.lookup, h.lookup, h.nameOf]
    by_cases hq : q ∈ pids <;> by_cases hq' : q ∈ pids' <;> simp [hq, hq']
  trackedPids q := by
    rw [h'.trackedPids, h.trackedPids, h.nameOf, h.forceProcessNameCheck, h.lookup,
      SigarSystemInfo.matchesName_congr h.trackedProcessNames]
    by_cases hq : q ∈ pids <;> by_cases hq' : q ∈ pids' <;>
      by_cases hforce : s.forceProcessNameCheck = true <;> simp [hq, hq', hforce]

theorem updateProcess_eq (pid : Int) : SigarSystemInfo.updateProcess exeName s pid =
    { s with
      processes := if s.gotProcess pid then s.processes
        else s.processes.insert pid (s.nameOf exeName pid)
      currentPids := insert pid s.currentPids
      trackedPids := if !s.gotProcess pid || s.forceProcessNameCheck then
          if s.matchesName (s.nameOf exeName pid) then insert pid s.trackedPids
          else s.trackedPids.erase pid
        else s.trackedPids } := by
  have hmatches : ∀ processes currentPids, SigarSystemInfo.matchesName
      { s with processes := processes, currentPids := currentPids } (s.nameOf exeName pid) =
        s.matchesName (s.nameOf exeName pid) := fun _ _ => rfl
  unfold SigarSystemInfo.updateProcess SigarSystemInfo.monitorProcess
    SigarSystemInfo.ignoreProcess
  simp only [hmatches]
  split_ifs <;> rfl

theorem updated_updateProcess (pid : Int) :
    Updated exeName [pid] s (SigarSystemInfo.updateProcess exeName s pid) := by
  rw [updateProcess_eq]
  refine ⟨rfl, rfl, fun q => ?_, fun q => ?_, fun q => ?_⟩
  · simp
  · rw [SigarSystemInfo.gotProcess]
    by_cases hq : q = pid
    · subst hq
      cases hlookup : s.processes.lookup q <;> simp [SigarSystemInfo.nameOf, hlookup]
    · split_ifs <;> simp_all [AList.lookup_insert_ne]
  · rw [SigarSystemInfo.gotProcess]
    by_cases hq : q = pid
    · subst hq
      cases hlookup : s.processes.lookup q <;>
        by_cases hforce : s.forceProcessNameCheck = true <;> simp [hforce] <;> split_ifs <;> simp_all
    · split_ifs <;> simp_all

theorem updated_foldl (exeName : Int → Text) (s : SigarSystemInfo) (pids : List Int) :
    Updated exeName pids s (pids.foldl (SigarSystemInfo.updateProcess exeName) s) := by
  induction pids generalizing s with
  | nil => exact .nil
  | cons pid pids ih => exact (updated_updateProcess pid).trans (ih _)

/-! ## The purge -/

/-- What the loop over the entries does. -/
structure Purged (freedPid : Int → Int) (keys : List Int) (s s' : SigarSystemInfo) : Prop where
  trackedProcessNames : s'.trackedProcessNames = s.trackedProcessNames
  currentPids : s'.currentPids = s.currentPids
  lookup : ∀ q, s'.processes.lookup q =
    if q ∈ keys ∧ q ∉ s.currentPids then none else s.processes.lookup q
  trackedPids : ∀ q, q ∈ s'.trackedPids ↔
    q ∈ s.trackedPids ∧ ∀ k ∈ keys, k ∉ s.currentPids → freedPid k ≠ q

theorem purged_foldl (freedPid : Int → Int) (s : SigarSystemInfo) (keys : List Int) :
    Purged freedPid keys s (keys.foldl (SigarSystemInfo.purgeProcess freedPid) s) := by
  induction keys generalizing s with
  | nil => constructor <;> simp
  | cons k keys ih =>
    rw [List.foldl_cons]
    have h := ih (SigarSystemInfo.purgeProcess freedPid s k)
    unfold SigarSystemInfo.purgeProcess at h ⊢
    split_ifs at h ⊢ with hk
    · refine ⟨h.trackedProcessNames, h.currentPids, fun q => ?_, fun q => ?_⟩
      · rw [h.lookup]
        by_cases hq : q = k <;> simp_all
      · rw [h.trackedPids]
        simp [hk]
    · refine ⟨h.trackedProcessNames, h.currentPids, fun q => ?_, fun q => ?_⟩
      · rw [h.lookup]
        simp only [SigarSystemInfo.ignoreProcess, Table.lookup_erase]
        by_cases hq : q = k <;> simp_all
      · rw [h.trackedPids]
        simp only [SigarSystemInfo.ignoreProcess, Finset.mem_erase, List.forall_mem_cons]
        grind

end

/-! ## The runs -/

/-- What an update has to find: the flag is set, or there are names, or nothing that is monitored is
alive; a process that was seen before matches under its present name as it did; the freed keys are
read as they were; and no process without a name is asked for the empty name. -/
structure Monitor.Ready (s : Monitor) (list : ProcessList) : Prop where
  checked : s.info.forceProcessNameCheck = true ∨ s.info.trackedProcessNames.Nonempty ∨
    ∀ pid ∈ s.info.trackedPids, pid ∉ list.pids
  named : ∀ pid ∈ list.pids, s.info.matchesName (s.info.nameOf list.exeName pid) =
    s.info.matchesName (processName (list.exeName pid))
  purged : ∀ pid ∈ s.info.processes.keys, pid ∉ list.pids → list.freedPid pid = pid
  nonempty : [] ∈ s.info.trackedProcessNames → ∀ pid ∈ list.pids,
    processName (list.exeName pid) ≠ []

/-- Any other call, and an update that fails, needs nothing. -/
def Monitor.Settles (s : Monitor) : ProcessCall → Prop
  | .updateProcesses (some list) => s.Ready list
  | _ => True

/-- Between the calls, the monitored processes are some of those seen, and without the flag they are
those that match, unless the names have been cleared. -/
structure SigarSystemInfo.Settled (s : SigarSystemInfo) : Prop where
  seen : ∀ pid ∈ s.trackedPids, pid ∈ s.processes.keys
  matched : s.forceProcessNameCheck = false → s.trackedProcessNames.Nonempty →
    ∀ pid name, s.processes.lookup pid = some name →
      (pid ∈ s.trackedPids ↔ s.matchesName name = true)

variable {s : Monitor} {list : ProcessList}

theorem matchesName_iff {info : SigarSystemInfo} {name : Text}
    (h : [] ∈ info.trackedProcessNames → name ≠ []) : info.matchesName name = true ↔
      ∃ query ∈ info.trackedProcessNames, ContainsName name query := by
  rw [SigarSystemInfo.matchesName, decide_eq_true_iff]
  refine exists_congr fun query => and_congr_right fun hquery => ?_
  rw [stringInString_iff, and_iff_right_iff_imp]
  rintro hcontains rfl
  obtain rfl : query = [] := by simpa [ContainsName] using hcontains
  exact h hquery rfl

theorem matchesName_of_empty {info : SigarSystemInfo} (h : ¬ info.trackedProcessNames.Nonempty)
    (name : Text) : info.matchesName name = false := by
  rw [Finset.not_nonempty_iff_eq_empty] at h
  simp [SigarSystemInfo.matchesName, h]

/-- **An update that finds what it needs** keeps the processes that are alive, and monitors those of
them that match. -/
theorem updateProcesses_spec (hs : s.info.Settled) (h : s.Ready list) :
    (∀ q, (s.info.updateProcesses (some list)).processes.lookup q =
      if q ∈ list.pids then some (s.info.nameOf list.exeName q) else none) ∧
    (∀ q, q ∈ (s.info.updateProcesses (some list)).trackedPids ↔
      q ∈ list.pids ∧ s.info.matchesName (s.info.nameOf list.exeName q) = true) ∧
    (s.info.updateProcesses (some list)).trackedProcessNames = s.info.trackedProcessNames ∧
    (s.info.updateProcesses (some list)).forceProcessNameCheck = false := by
  have hloop := updated_foldl list.exeName
    { s.info with currentPids := ∅ } list.pids
  set looped := list.pids.foldl (SigarSystemInfo.updateProcess list.exeName)
    { s.info with currentPids := ∅ } with hlooped
  have hpurge := purged_foldl list.freedPid looped looped.processes.keys
  have hcurrent : ∀ q, q ∈ looped.currentPids ↔ q ∈ list.pids := fun q => by
    simpa using hloop.currentPids q
  have hlookup : ∀ q, looped.processes.lookup q = if q ∈ list.pids then
      some (s.info.nameOf list.exeName q) else s.info.processes.lookup q := hloop.lookup
  have hkeys : ∀ q, q ∈ looped.processes.keys ↔ q ∈ list.pids ∨ q ∈ s.info.processes.keys := by
    intro q
    rw [← AList.mem_keys, ← AList.mem_keys, Table.mem_iff_lookup, Table.mem_iff_lookup, hlookup]
    by_cases hq : q ∈ list.pids <;> simp [hq]
  have hmatched : ∀ q ∈ list.pids, q ∈ looped.trackedPids ↔
      s.info.matchesName (s.info.nameOf list.exeName q) = true := by
    intro q hq
    rw [hloop.trackedPids]
    split_ifs with hcheck
    · exact Iff.rfl
    · -- the process was seen before, and is not checked again
      simp only [hq, true_and, not_or, Bool.not_eq_true] at hcheck
      obtain ⟨name, hname⟩ := Option.ne_none_iff_exists'.mp hcheck.2
      have hnameOf : s.info.nameOf list.exeName q = name := by
        rw [SigarSystemInfo.nameOf, hname, Option.getD_some]
      by_cases hnames : s.info.trackedProcessNames.Nonempty
      · rw [hnameOf]
        exact hs.matched hcheck.1 hnames q name hname
      · rw [matchesName_of_empty hnames]
        rcases h.checked with hforce | hnonempty | hended
        · exact absurd hforce (by simp [hcheck.1])
        · exact absurd hnonempty hnames
        · exact iff_of_false (fun htracked => hended q htracked hq) Bool.false_ne_true
  refine ⟨fun q => ?_, fun q => ?_, ?_, rfl⟩
  · have hpurged := hpurge.lookup q
    simp only [hkeys, hcurrent, hlookup] at hpurged
    refine hpurged.trans ?_
    by_cases hq : q ∈ list.pids
    · simp [hq]
    · by_cases hseen : q ∈ s.info.processes.keys
      · simp [hq, hseen]
      · have hnone : s.info.processes.lookup q = none :=
          AList.lookup_eq_none.mpr fun hmem => hseen (AList.mem_keys.mp hmem)
        simp [hq, hseen, hnone]
  · refine (hpurge.trackedPids q).trans ?_
    by_cases hq : q ∈ list.pids
    · rw [hmatched q hq]
      refine ⟨fun htracked => ⟨hq, htracked.1⟩, fun htracked => ⟨htracked.2, ?_⟩⟩
      rintro k hk hended rfl
      rw [hcurrent] at hended
      have hread := h.purged k (((hkeys k).mp hk).resolve_left hended) hended
      exact hended (hread ▸ hq)
    · refine iff_of_false (fun htracked => ?_) fun htracked => hq htracked.1
      have hold := htracked.1
      rw [hloop.trackedPids, if_neg fun hin => hq hin.1] at hold
      have hseen := hs.seen q hold
      have hended : q ∉ looped.currentPids := fun hin => hq ((hcurrent q).mp hin)
      exact htracked.2 q ((hkeys q).mpr (Or.inr hseen)) hended (h.purged q hseen hq)
  · exact hpurge.trackedProcessNames.trans hloop.trackedProcessNames

theorem settled_updateProcesses (hs : s.info.Settled) (h : s.Ready list) :
    (s.info.updateProcesses (some list)).Settled := by
  obtain ⟨hlookup, htracked, hnames, -⟩ := updateProcesses_spec hs h
  refine ⟨fun q hq => ?_, fun _ _ q name hname => ?_⟩
  · rw [← AList.mem_keys, Table.mem_iff_lookup, hlookup, if_pos ((htracked q).mp hq).1]
    exact ⟨_, rfl⟩
  · rw [hlookup] at hname
    split_ifs at hname with hq
    obtain rfl := Option.some.inj hname
    rw [htracked, SigarSystemInfo.matchesName_congr hnames]
    simp [hq]

theorem settled_inductive : monitorSystem.InductiveBy (fun s call => s.Settles call)
    (fun s => s.info.Settled ∧ s.Exact) where
  init := by
    rintro s rfl
    exact ⟨⟨nofun, fun _ hnames => absurd hnames (by simp)⟩, nofun⟩
  step := by
    rintro s call s' ⟨hs, hexact⟩ hok hstep
    cases call with
    | monitorProcesses processName =>
      obtain rfl := Option.some.inj hstep
      refine ⟨?_, nofun⟩
      simp only [SigarSystemInfo.monitorProcesses]
      split_ifs
      · exact hs
      · exact ⟨hs.seen, nofun⟩
    | ignoreProcesses processName =>
      obtain rfl := Option.some.inj hstep
      refine ⟨?_, nofun⟩
      simp only [SigarSystemInfo.ignoreProcesses]
      split_ifs
      · exact ⟨hs.seen, nofun⟩
      · exact hs
    | clearMonitoredProcesses =>
      obtain rfl := Option.some.inj hstep
      exact ⟨⟨hs.seen, fun _ hnames => absurd hnames Finset.not_nonempty_empty⟩, nofun⟩
    | updateProcesses list =>
      obtain rfl := Option.some.inj hstep
      cases list with
      | none => exact ⟨hs, nofun⟩
      | some list =>
        refine ⟨settled_updateProcesses hs hok, ?_⟩
        rintro list' hlist q
        obtain rfl := Option.some.inj hlist
        obtain ⟨-, htracked, hnames, -⟩ := updateProcesses_spec hs hok
        rw [htracked, hnames]
        refine and_congr_right fun hq => ?_
        rw [hok.named q hq]
        exact matchesName_iff fun hempty => hok.nonempty hempty q hq

/-- **In a run whose updates find what they need**, the monitored processes after each update are
those alive that have a tracked name in theirs. -/
theorem exact_of_settles (s : Monitor)
    (h : monitorSystem.ReachBy (fun s call => s.Settles call) s) : s.Exact :=
  (settled_inductive.reach h).2

/-! ## Runs -/

instance (s : Monitor) (list : ProcessList) : Decidable (s.Ready list) :=
  decidable_of_iff (_ ∧ _ ∧ _ ∧ _) ⟨fun ⟨h1, h2, h3, h4⟩ => ⟨h1, h2, h3, h4⟩,
    fun h => ⟨h.checked, h.named, h.purged, h.nonempty⟩⟩

instance (s : Monitor) : ∀ call, Decidable (s.Settles call)
  | .monitorProcesses _ => isTrue trivial
  | .ignoreProcesses _ => isTrue trivial
  | .clearMonitoredProcesses => isTrue trivial
  | .updateProcesses none => isTrue trivial
  | .updateProcesses (some list) => inferInstanceAs (Decidable (s.Ready list))

/-- A list of programs "/bin/sh". -/
def shells (pids : List Int) : ProcessList := ⟨pids, fun _ => "/bin/sh".toList, id⟩

theorem exact_of_settles_shells : ∃ s : Monitor, s.Exact ∧ s.info.trackedPids = {2, 3} := by
  have hrun : Lts.runBy monitorStep (fun s call => s.Settles call)
      ⟨⟨∅, ∅, ∅, ∅, false⟩, none⟩
      [.monitorProcesses "SH".toList, .updateProcesses (some (shells [1, 2])),
        .updateProcesses none, .updateProcesses (some (shells [2, 3]))] = some _ := rfl
  exact ⟨_, exact_of_settles _ (Lts.reachBy_of_runBy hrun), by decide +kernel⟩

/-- The names are cleared but the process is still monitored, and a process is monitored whose number
now belongs to another program. -/
theorem not_exact :
    (∃ s, monitorSystem.Reach s ∧ s.updated = some (shells [1]) ∧
      s.info.trackedProcessNames = ∅ ∧ s.info.trackedPids = {1} ∧ ¬ s.Exact) ∧
    ∃ s, monitorSystem.Reach s ∧
      s.info.trackedProcessNames = {"sh".toList} ∧ s.info.trackedPids = {1} ∧ ¬ s.Exact := by
  constructor
  · have hrun : Lts.run monitorStep ⟨⟨∅, ∅, ∅, ∅, false⟩, none⟩
        [.monitorProcesses "sh".toList, .updateProcesses (some (shells [1])),
          .clearMonitoredProcesses, .updateProcesses (some (shells [1]))] = some _ := rfl
    refine ⟨_, Lts.reach_of_run hrun, rfl, by decide +kernel, by decide +kernel, fun h => ?_⟩
    exact absurd ((h _ rfl 1).mp (by decide +kernel)).2 (by decide +kernel)
  · have hrun : Lts.run monitorStep ⟨⟨∅, ∅, ∅, ∅, false⟩, none⟩
        [.monitorProcesses "sh".toList, .updateProcesses (some (shells [1])),
          .updateProcesses (some ⟨[1], fun _ => "/bin/cat".toList, id⟩)] = some _ := rfl
    refine ⟨_, Lts.reach_of_run hrun, by decide +kernel, by decide +kernel, fun h => ?_⟩
    exact absurd ((h _ rfl 1).mp (by decide +kernel)).2 (by decide +kernel)

end Sem.Logan
