import Sem.FftAccel.RequestMap

/-!
# Searches for an id, one after the other

A search starts behind the id that the last one found and examines 254 ids. So when an id is found
and not given out, as for an empty vector, the searches after it can end before they are back at
that id.

* `admits_of_not_alone`: no later vector loses its id, if two other ids are free, one that is not the
  next and one that is not the last.
* `exists_not_admits`: otherwise a later vector does.
-/

namespace Sem.FftAccel

universe u

variable {α : Type u}

/-- `id` can be given out. -/
def FftRequestMap.Free (m : FftRequestMap α) (id : UInt8) : Prop := id ∉ m.stagedPacketGroups

/-- None of the vectors, one after the other, is refused for want of an id. -/
def FftRequestMap.Admits : FftRequestMap α → List (List α) → Prop
  | _, [] => True
  | m, data :: rest =>
    (m.constructPackets data).1 ≠ .error .noFreeId ∧ (m.constructPackets data).2.Admits rest

namespace FftRequestMap

variable {m m' : FftRequestMap α} {staged : Table UInt8 (FftPacketGroup α)} {n k : ℕ}
  {tracker newId : UInt8} {data : List α}

/-! ## One search -/

theorem add_ofNat_succ (id : UInt8) (n : ℕ) : id + UInt8.ofNat (n + 1) = id + 1 + UInt8.ofNat n := by
  rw [UInt8.ofNat_add, UInt8.add_assoc, UInt8.add_comm (UInt8.ofNat n)]
  rfl

/-- The first id that is free is found. -/
theorem searchId_eq (hk : k < n) (hfree : tracker + UInt8.ofNat k ∉ staged)
    (hbusy : ∀ j < k, tracker + UInt8.ofNat j ∈ staged) :
    searchId staged n tracker = (some (tracker + UInt8.ofNat k), tracker + UInt8.ofNat (k + 1)) := by
  induction n generalizing tracker k with
  | zero => omega
  | succ n ih =>
    cases k with
    | zero =>
      have hzero : tracker + UInt8.ofNat 0 = tracker := UInt8.add_zero _
      rw [hzero] at hfree ⊢
      rw [searchId, if_neg hfree]
      rfl
    | succ k =>
      have hmem : tracker ∈ staged := by simpa using hbusy 0 (by omega)
      rw [searchId, if_pos hmem, add_ofNat_succ, add_ofNat_succ]
      refine ih (by omega) (add_ofNat_succ _ _ ▸ hfree) fun j hj => ?_
      exact add_ofNat_succ _ _ ▸ hbusy (j + 1) (by omega)

/-- What is found is the first id that is free. -/
theorem searchId_some (h : (searchId staged n tracker).1 = some newId) :
    ∃ k < n, newId = tracker + UInt8.ofNat k ∧ newId ∉ staged ∧
      ∀ j < k, tracker + UInt8.ofNat j ∈ staged := by
  induction n generalizing tracker with
  | zero => cases h
  | succ n ih =>
    rw [searchId] at h
    by_cases hmem : tracker ∈ staged
    · rw [if_pos hmem] at h
      obtain ⟨k, hk, rfl, hfree, hbusy⟩ := ih h
      refine ⟨k + 1, by omega, (add_ofNat_succ _ _).symm, hfree, fun j hj => ?_⟩
      cases j with
      | zero => simpa using hmem
      | succ j => exact add_ofNat_succ _ _ ▸ hbusy j (by omega)
    · rw [if_neg hmem] at h
      obtain rfl := Option.some.inj h
      exact ⟨0, by omega, (UInt8.add_zero _).symm, hmem, fun _ hj => by omega⟩

/-- The next search starts behind the id that was found. -/
theorem getNewId_tracker (h : m.getNewId.1 = some newId) : m.getNewId.2 = newId + 1 := by
  obtain ⟨k, hk, rfl, hfree, hbusy⟩ := searchId_some h
  show (searchId _ _ _).2 = _
  rw [searchId_eq hk hfree hbusy, UInt8.ofNat_add, UInt8.add_assoc]
  rfl

theorem getNewId_eq_none (h : ∀ k < 254, m.idTracker + UInt8.ofNat k ∈ m.stagedPacketGroups) :
    m.getNewId.1 = none := by
  cases hid : m.getNewId.1 with
  | none => rfl
  | some newId =>
    obtain ⟨k, hk, rfl, hfree, -⟩ := searchId_some hid
    exact absurd (h k hk) hfree

/-! ## Constructing a request -/

variable {group : FftPacketGroup α}

theorem constructPackets_of_noId (h : m.getNewId.1 = none) (data : List α) :
    m.constructPackets data = (.error .noFreeId, { m with idTracker := m.getNewId.2 }) := by
  unfold constructPackets
  cases hid : m.getNewId with
  | mk found tracker =>
    rw [hid] at h
    obtain rfl : found = none := h
    rfl

/-- An id was found, which is new. -/
theorem constructPackets_of_id (h : m.getNewId.1 = some newId) (data : List α) :
    m.constructPackets data =
      match FftPacketGroup.ofVector data newId with
      | none => (.error .emptyVector, { m with idTracker := m.getNewId.2 })
      | some group =>
        if newId ∈ m.unfulfilledPromises then
          (.error .noPromise, { m with
            idTracker := m.getNewId.2
            stagedPacketGroups := m.stagedPacketGroups.insert newId group })
        else
          (.ok group,
            { stagedPacketGroups := m.stagedPacketGroups.insert newId group
              unfulfilledPromises := m.unfulfilledPromises.insert newId none
              idTracker := m.getNewId.2 }) := by
  have hnew := getNewId_fresh h
  unfold constructPackets
  cases hid : m.getNewId with
  | mk found tracker =>
    rw [hid] at h
    obtain rfl : found = some newId := h
    exact if_neg hnew

/-- A vector that is not empty is refused for want of an id, or takes the id that was found. -/
theorem constructPackets_stages (h : m.getNewId.1 = some newId) (hdata : data ≠ []) :
    (m.constructPackets data).1 ≠ .error .noFreeId ∧
      (m.constructPackets data).2.idTracker = newId + 1 ∧
      ∀ id, id ∈ (m.constructPackets data).2.stagedPacketGroups ↔
        id = newId ∨ id ∈ m.stagedPacketGroups := by
  rw [constructPackets_of_id h, FftPacketGroup.ofVector_eq hdata, ← getNewId_tracker h]
  by_cases hpromise : newId ∈ m.unfulfilledPromises
  · simp only [if_pos hpromise]
    exact ⟨nofun, trivial, fun _ => AList.mem_insert _⟩
  · simp only [if_neg hpromise]
    exact ⟨nofun, trivial, fun _ => AList.mem_insert _⟩

theorem exists_id_of_admits {rest : List (List α)} (h : m.Admits (data :: rest)) :
    ∃ newId, m.getNewId.1 = some newId := by
  cases hid : m.getNewId.1 with
  | none => exact absurd (by rw [constructPackets_of_noId hid]) h.1
  | some newId => exact ⟨newId, rfl⟩

/-! ## The id that was passed over -/

/-- Both maps search next from `p` ids behind `id`, which was passed over and which `m` can give out
when it comes to it again, while `m'` gave it out at once. -/
structure PassedOver (id : UInt8) (p : ℕ) (m m' : FftRequestMap α) : Prop where
  pos : 1 ≤ p
  le : p ≤ 256
  tracker : m.idTracker = id + UInt8.ofNat p
  tracker' : m'.idTracker = id + UInt8.ofNat p
  staged : ∀ i, i ∈ m'.stagedPacketGroups ↔ i = id ∨ i ∈ m.stagedPacketGroups
  /-- The ids in between are given out. -/
  passed : ∀ j, 1 ≤ j → j < p → id + UInt8.ofNat j ∈ m.stagedPacketGroups
  /-- Wherever a search starts before it is back at `id`, it finds an id up to `id`. -/
  ahead : ∀ r, p ≤ r → r ≤ 256 → ∃ u, r ≤ u ∧ u < r + 254 ∧ u ≤ 256 ∧ m.Free (id + UInt8.ofNat u)

theorem add_ofNat_inj {id : UInt8} {i j : ℕ} (hi : i < 256) (hj : j < 256) :
    id + UInt8.ofNat i = id + UInt8.ofNat j ↔ i = j := by
  rw [UInt8.add_right_inj, ← UInt8.toNat_inj, UInt8.toNat_ofNat', UInt8.toNat_ofNat']
  omega

theorem add_ofNat_ne {id : UInt8} {i : ℕ} (hpos : 0 < i) (hi : i < 256) :
    id + UInt8.ofNat i ≠ id := by
  intro heq
  have hzero : id + UInt8.ofNat i = id + UInt8.ofNat 0 := heq.trans (UInt8.add_zero _).symm
  rw [add_ofNat_inj hi (by omega)] at hzero
  omega

theorem add_ofNat_add (id : UInt8) (i j : ℕ) :
    id + UInt8.ofNat i + UInt8.ofNat j = id + UInt8.ofNat (i + j) := by
  rw [UInt8.ofNat_add, UInt8.add_assoc]

theorem add_ofNat_wrap (id : UInt8) (i : ℕ) :
    id + UInt8.ofNat (i + 256) = id + UInt8.ofNat i := by
  rw [← UInt8.toNat_inj]
  simp only [UInt8.toNat_add, UInt8.toNat_ofNat']
  omega

theorem add_ofNat_256 (id : UInt8) : id + UInt8.ofNat 256 = id :=
  UInt8.add_zero id

theorem sub_one_eq (id : UInt8) : id - 1 = id + UInt8.ofNat 255 :=
  UInt8.sub_eq_add_neg id 1

namespace PassedOver

variable {id : UInt8} {p : ℕ}

theorem exists_getNewId (h : PassedOver id p m m') : ∃ newId, m.getNewId.1 = some newId := by
  obtain ⟨u, hu, hless, -, hfree⟩ := h.ahead p le_rfl h.le
  refine FftRequestMap.exists_getNewId (k := u - p) (by omega) ?_
  rw [h.tracker, add_ofNat_add, Nat.add_sub_cancel' hu]
  exact hfree

/-- The two searches find the same id, if the second finds one. -/
theorem next (h : PassedOver id p m m') (hid : m'.getNewId.1 = some newId) {data data' : List α}
    (hdata : data ≠ []) (hdata' : data' ≠ []) :
    ∃ q, PassedOver id q (m.constructPackets data).2 (m'.constructPackets data').2 := by
  obtain ⟨k, hk, hnewId, hfree, hbusy⟩ := searchId_some hid
  replace hk : k < 254 := hk
  rw [h.tracker', add_ofNat_add] at hnewId
  have hpos := h.pos
  have hle := h.le
  obtain ⟨hne, hfree⟩ := not_or.mp (mt (h.staged newId).mpr hfree)
  -- the search of `m'` ends before it is back at `id`
  have hend : p + k ≤ 255 := by
    by_contra hend
    obtain ⟨j, hj⟩ : ∃ j, p + k = j + 256 := ⟨p + k - 256, by omega⟩
    rw [hj, add_ofNat_wrap] at hnewId
    cases j with
    | zero => exact hne (by simpa using hnewId)
    | succ j => exact hfree (hnewId ▸ h.passed (j + 1) (by omega) (by omega))
  have hfound : m.getNewId.1 = some newId := by
    have hsearch : m.getNewId = (some newId, m.idTracker + UInt8.ofNat (k + 1)) := by
      rw [hnewId, ← add_ofNat_add, ← h.tracker]
      refine searchId_eq hk (by rwa [h.tracker, add_ofNat_add, ← hnewId]) fun j hj => ?_
      have hmem := hbusy j hj
      rw [h.tracker', add_ofNat_add, h.staged] at hmem
      rw [h.tracker, add_ofNat_add]
      exact hmem.resolve_left (add_ofNat_ne (by omega) (by omega))
    rw [hsearch]
  obtain ⟨-, htracker, hstaged⟩ := constructPackets_stages hfound hdata
  obtain ⟨-, htracker', hstaged'⟩ := constructPackets_stages hid hdata'
  have hnext : newId + 1 = id + UInt8.ofNat (p + k + 1) := by
    rw [hnewId, ← add_ofNat_add id (p + k) 1]
    rfl
  refine ⟨p + k + 1, by omega, by omega, htracker.trans hnext, htracker'.trans hnext, fun i => ?_,
    fun j hone hj => ?_, fun r hr hrle => ?_⟩
  · rw [hstaged, hstaged', h.staged]
    tauto
  · rw [hstaged]
    rcases Nat.lt_or_ge j p with hless | hge
    · exact .inr (h.passed j hone hless)
    · rcases Nat.lt_or_ge j (p + k) with hless | hge'
      · have hmem := hbusy (j - p) (by omega)
        rw [h.tracker', add_ofNat_add, Nat.add_sub_cancel' hge, h.staged] at hmem
        exact .inr (hmem.resolve_left (add_ofNat_ne (by omega) (by omega)))
      · obtain rfl : j = p + k := by omega
        exact .inl hnewId.symm
  · obtain ⟨u, hu, hless, hule, hufree⟩ := h.ahead r (by omega) hrle
    refine ⟨u, hu, hless, hule, fun hmem => ?_⟩
    refine ((hstaged _).mp hmem).elim (fun heq => ?_) hufree
    rcases Nat.lt_or_ge u 256 with hlt | hge
    · rw [hnewId, add_ofNat_inj hlt (by omega)] at heq
      omega
    · obtain rfl : u = 256 := by omega
      exact hne (heq ▸ add_ofNat_256 id)

/-- `m` gives out one id more than `m'`, the one that was passed over. -/
theorem admits (h : PassedOver id p m m') {rest : List (List α)} (hrest : ∀ v ∈ rest, v ≠ [])
    (hadmits : m'.Admits rest) {data : List α} (hdata : data ≠ []) : m.Admits (data :: rest) := by
  induction rest generalizing p m m' data with
  | nil =>
    obtain ⟨newId, hid⟩ := h.exists_getNewId
    exact ⟨(constructPackets_stages hid hdata).1, trivial⟩
  | cons data' rest ih =>
    obtain ⟨newId, hid⟩ := h.exists_getNewId
    obtain ⟨newId', hid'⟩ := exists_id_of_admits hadmits
    have hdata' := hrest data' List.mem_cons_self
    obtain ⟨q, hnext⟩ := h.next hid' hdata hdata'
    exact ⟨(constructPackets_stages hid hdata).1,
      ih hnext (fun v hv => hrest v (List.mem_cons_of_mem _ hv)) hadmits.2 hdata'⟩

end PassedOver

/-! ## The map that passed over an id -/

/-- The id is found and not given out. -/
def passOver (m : FftRequestMap α) : FftRequestMap α := { m with idTracker := m.getNewId.2 }

/-- Apart from the id, only the next or only the last before it can be free. -/
def Alone (m : FftRequestMap α) (id : UInt8) : Prop :=
  (∀ i, m.Free i → i = id ∨ i = id + 1) ∨ ∀ i, m.Free i → i = id ∨ i = id - 1

theorem exists_position (id i : UInt8) : ∃ u, 1 ≤ u ∧ u ≤ 256 ∧ i = id + UInt8.ofNat u := by
  have hsub : i = id + UInt8.ofNat (i - id).toNat := by
    rw [UInt8.ofNat_toNat, UInt8.add_comm, UInt8.sub_add_cancel]
  rcases Nat.eq_zero_or_pos (i - id).toNat with hzero | hpos
  · rw [hzero] at hsub
    exact ⟨256, by omega, by omega, hsub⟩
  · exact ⟨(i - id).toNat, hpos, Nat.le_of_lt (i - id).toNat_lt, hsub⟩

/-- The searches that come after are the same if other ids are free. -/
theorem admits_of_not_alone (h : m.getNewId.1 = some newId) (halone : ¬ m.Alone newId)
    {vectors : List (List α)} (hvectors : ∀ v ∈ vectors, v ≠ []) (hadmits : m.Admits vectors) :
    m.passOver.Admits vectors := by
  cases vectors with
  | nil => trivial
  | cons data rest =>
    have hdata := hvectors data List.mem_cons_self
    obtain ⟨-, htracker, hstaged⟩ := constructPackets_stages h hdata
    obtain ⟨hnext, hlast⟩ := not_or.mp halone
    push Not at hnext hlast
    obtain ⟨i, hi, hine, hinext⟩ := hnext
    obtain ⟨j, hj, hjne, hjlast⟩ := hlast
    obtain ⟨u, hupos, hule, rfl⟩ := exists_position newId i
    obtain ⟨v, hvpos, hvle, rfl⟩ := exists_position newId j
    have hid := add_ofNat_256 newId
    have hu : u ≠ 256 := fun heq => hine (heq ▸ hid)
    have hu' : u ≠ 1 := fun heq => hinext (heq ▸ rfl)
    have hv : v ≠ 256 := fun heq => hjne (heq ▸ hid)
    have hv' : v ≠ 255 := fun heq => hjlast (heq ▸ (sub_one_eq newId).symm)
    have hpassed : PassedOver newId 1 m.passOver (m.constructPackets data).2 := by
      refine ⟨le_rfl, by omega, getNewId_tracker h, htracker, hstaged, fun _ _ _ => by omega,
        fun r hr hrle => ?_⟩
      rcases (by omega : r = 1 ∨ r = 2 ∨ 3 ≤ r) with rfl | rfl | hge
      · exact ⟨v, hvpos, by omega, hvle, hj⟩
      · exact ⟨u, by omega, by omega, hule, hi⟩
      · exact ⟨256, hrle, by omega, le_rfl, by rw [hid]; exact getNewId_fresh (m := m) h⟩
    exact hpassed.admits (fun v hv => hvectors v (List.mem_cons_of_mem _ hv)) hadmits.2 hdata

theorem passOver_getNewId_of_last (h : m.getNewId.1 = some newId)
    (hlast : ∀ i, m.Free i → i = newId ∨ i = newId - 1) : m.passOver.getNewId.1 = none := by
  refine getNewId_eq_none fun k hk => ?_
  show m.getNewId.2 + _ ∈ m.stagedPacketGroups
  rw [getNewId_tracker h, ← add_ofNat_succ]
  by_contra hfree
  rcases hlast _ hfree with heq | heq
  · exact add_ofNat_ne (by omega) (by omega) heq
  · rw [sub_one_eq, add_ofNat_inj (by omega) (by omega)] at heq
    omega

/-- A vector that would have got an id gets none, at once or after one other. -/
theorem exists_not_admits (h : m.getNewId.1 = some newId) (halone : m.Alone newId) {data : List α}
    (hdata : data ≠ []) :
    ∃ n, m.Admits (List.replicate n data) ∧ ¬ m.passOver.Admits (List.replicate n data) := by
  obtain ⟨hfirst, htracker, hstaged⟩ := constructPackets_stages h hdata
  by_cases hlast : ∀ i, m.Free i → i = newId ∨ i = newId - 1
  · refine ⟨1, ⟨hfirst, trivial⟩, fun hadmits => hadmits.1 ?_⟩
    rw [constructPackets_of_noId (passOver_getNewId_of_last h hlast)]
  · have hnext := halone.resolve_right hlast
    have hfree : m.Free (newId + 1) := by
      by_contra hbusy
      exact hlast fun i hi => .inl ((hnext i hi).resolve_right fun heq => hbusy (heq ▸ hi))
    have hne : newId + 1 ≠ newId := add_ofNat_ne (i := 1) (by decide) (by decide)
    have hsecond : (m.constructPackets data).2.getNewId.1 = some (newId + 1) := by
      rw [← htracker]
      exact congrArg Prod.fst (if_neg fun hmem =>
        ((hstaged _).mp hmem).elim (htracker ▸ hne) (htracker ▸ hfree))
    have hpassed : m.passOver.getNewId.1 = some (newId + 1) := by
      rw [← getNewId_tracker h] at hfree ⊢
      exact congrArg Prod.fst (if_neg hfree)
    obtain ⟨-, htracker', hstaged'⟩ := constructPackets_stages hpassed hdata
    refine ⟨2, ⟨hfirst, (constructPackets_stages hsecond hdata).1, trivial⟩, fun hadmits =>
      hadmits.2.1 ?_⟩
    rw [constructPackets_of_noId (getNewId_eq_none fun k hk => ?_)]
    rw [htracker', hstaged', ← add_ofNat_succ, ← add_ofNat_succ]
    by_contra hmem
    obtain ⟨hne', hmem⟩ := not_or.mp hmem
    rcases hnext _ hmem with heq | heq
    · exact add_ofNat_ne (by omega) (by omega) heq
    · exact hne' heq

end FftRequestMap

end Sem.FftAccel
