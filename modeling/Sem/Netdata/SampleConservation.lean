import Mathlib.Data.List.Perm.Basic
import Sem.Netdata.DeviceSampleAggregator

/-!
# Conservation of the samples

* `readings_withSample`: a change of a sample adds one reading to its group, where that metric was
  not set.
* `Aggregation.Safe`: the calls that lose nothing.
* `conserved_of_safe`: the runs of such calls lose and repeat nothing.
* `not_conserved`: a second retrieval gives a null pointer, and a second value of a metric replaces
  the first.
-/

namespace Sem.Netdata

open Xml (Text)

variable {F : Type} {perc cel : Int → F}

/-! ## One sample -/

@[simp] theorem GPUMetricSample.deviceName_set (s : GPUMetricSample F) (v : F) (metric : Metric) :
    (s.set v metric).deviceName = s.deviceName := by
  cases metric <;> rfl

@[simp] theorem GPUMetricSample.seconds_set (s : GPUMetricSample F) (v : F) (metric : Metric) :
    (s.set v metric).seconds = s.seconds := by
  cases metric <;> rfl

@[simp] theorem GPUMetricSample.get_new (deviceName : Text) (timestamp : BitVec 64)
    (metric : Metric) : (GPUMetricSample.new deviceName timestamp : GPUMetricSample F).get metric =
      none := by
  cases metric <;> rfl

theorem GPUMetricSample.readings_new (hostname deviceName : Text) (timestamp : BitVec 64) :
    (GPUMetricSample.new deviceName timestamp : GPUMetricSample F).readings hostname = [] := by
  simp [GPUMetricSample.readings]

/-- The reading of a sample's metric. -/
def GPUMetricSample.reading (hostname : Text) (s : GPUMetricSample F) (metric : Metric) (v : F) :
    Reading F :=
  ⟨hostname, s.deviceName, s.seconds, metric, v⟩

theorem GPUMetricSample.readings_set (hostname : Text) {s : GPUMetricSample F} {metric : Metric}
    (h : s.get metric = none) (v : F) :
    ((s.set v metric).readings hostname).Perm
      (s.reading hostname metric v :: s.readings hostname) := by
  cases metric with
  | processorUtilisationPerc =>
    have h' : s.processorUtilisationPerc = none := h
    simp [GPUMetricSample.readings, GPUMetricSample.reading, GPUMetricSample.set,
      GPUMetricSample.get, h']
  | memoryUtilisationPerc =>
    have h' : s.memoryUtilisationPerc = none := h
    simp only [GPUMetricSample.readings, GPUMetricSample.reading, GPUMetricSample.set,
      GPUMetricSample.get, h', List.flatMap_cons, List.flatMap_nil, List.append_nil,
      Option.toList_none, Option.toList_some, List.map_nil, List.map_cons, List.nil_append]
    exact List.perm_middle
  | temperatureCel =>
    have h' : s.temperatureCel = none := h
    simp only [GPUMetricSample.readings, GPUMetricSample.reading, GPUMetricSample.set,
      GPUMetricSample.get, h', List.flatMap_cons, List.flatMap_nil, List.append_nil,
      Option.toList_none, Option.toList_some, List.map_nil, List.map_cons]
    rw [← List.append_assoc]
    exact List.perm_append_singleton _ _

/-! ## One group -/

/-- The sample that `get_sample` points to, which may be a new one. -/
structure Points (group : DeviceMetricSamples F) (name : Text) (time : BitVec 64)
    (before : List (GPUMetricSample F)) (s : GPUMetricSample F)
    (after : List (GPUMetricSample F)) : Prop where
  deviceName : s.deviceName = name
  seconds : s.seconds = time
  found : group.gpuSamples = before ++ s :: after ∨
    group.gpuSamples = before ∧ after = [] ∧ s = .new name time ∧
      ∀ other ∈ before, ¬ (other.deviceName = name ∧ other.seconds = time)

theorem exists_points (group : DeviceMetricSamples F) (name : Text) (time : BitVec 64)
    (change : GPUMetricSample F → GPUMetricSample F) :
    ∃ before s after, Points group name time before s after ∧
      (group.getSample name time).1.gpuSamples.modify (group.getSample name time).2 change =
        before ++ change s :: after ∧
      (group.getSample name time).1.hostname = group.hostname := by
  unfold DeviceMetricSamples.getSample
  split
  · rename_i i hfind
    obtain ⟨hi, hmatch, -⟩ := List.findIdx?_eq_some_iff_getElem.mp hfind
    have hmatch := of_decide_eq_true hmatch
    refine ⟨group.gpuSamples.take i, group.gpuSamples[i], group.gpuSamples.drop (i + 1),
      ⟨hmatch.1, hmatch.2, Or.inl ?_⟩, List.modify_eq_take_cons_drop hi, rfl⟩
    simp
  · rename_i hfind
    rw [List.findIdx?_eq_none_iff] at hfind
    refine ⟨group.gpuSamples, .new name time, [],
      ⟨rfl, rfl, Or.inr ⟨rfl, rfl, rfl, fun other hother hmatch => ?_⟩⟩, ?_, rfl⟩
    · simpa [hmatch] using hfind other hother
    · rw [List.modify_eq_take_cons_drop (by simp)]
      simp

namespace Points

variable {group : DeviceMetricSamples F} {name : Text} {time : BitVec 64}
  {before after : List (GPUMetricSample F)} {s : GPUMetricSample F}
  (h : Points group name time before s after)

include h

theorem readings_eq : readings (some group) =
    before.flatMap (·.readings group.hostname) ++
      (s.readings group.hostname ++ after.flatMap (·.readings group.hostname)) := by
  rw [readings]
  rcases h.found with heq | ⟨heq, rfl, rfl, -⟩
  · rw [heq, List.flatMap_append, List.flatMap_cons]
  · rw [heq, GPUMetricSample.readings_new]
    simp

/-- **A metric that was not set adds its reading to the group.** -/
theorem readings_perm {metric : Metric} (hfree : s.get metric = none) (v : F) :
    (readings (some ⟨group.hostname, before ++ s.set v metric :: after⟩)).Perm
      (⟨group.hostname, name, time, metric, v⟩ :: readings (some group)) := by
  have hset := GPUMetricSample.readings_set group.hostname hfree v
  rw [GPUMetricSample.reading, h.deviceName, h.seconds] at hset
  rw [h.readings_eq, readings, List.flatMap_append, List.flatMap_cons]
  exact ((hset.append_right _).append_left _).trans List.perm_middle

/-- A group keeps one sample for a device and a time. -/
theorem merged (hmerged : group.Merged) (v : F) (metric : Metric) (hostname : Text) :
    DeviceMetricSamples.Merged ⟨hostname, before ++ s.set v metric :: after⟩ := by
  rw [DeviceMetricSamples.Merged] at hmerged ⊢
  simp only [List.map_append, List.map_cons, GPUMetricSample.deviceName_set,
    GPUMetricSample.seconds_set, h.deviceName, h.seconds]
  rcases h.found with heq | ⟨rfl, rfl, -, hnew⟩
  · simpa only [heq, List.map_append, List.map_cons, h.deviceName, h.seconds] using hmerged
  · refine hmerged.append (List.nodup_singleton _) fun key hkey hnewKey => ?_
    obtain ⟨other, hother, rfl⟩ := List.mem_map.mp hkey
    exact hnew other hother (Prod.mk.inj (List.mem_singleton.mp hnewKey))

end Points

/-! ## The calls -/

/-- A chart of one of the contexts sets its metric, any other leaves the aggregator as it is. -/
theorem aggregator_receiveChartData (a : DeviceSampleAggregator F) (chart : Chart) :
    (a.receiveChartData perc cel chart).toOption.getD a =
      match chart.metric with
      | some metric =>
        a.withSample chart (·.set (metric.convert perc cel chart.value) metric)
      | none => a := by
  unfold DeviceSampleAggregator.receiveChartData Chart.metric
  split_ifs <;> rfl

/-- The calls that lose nothing: a chart's metric is not yet set in the sample that is held for it,
and a retrieval finds no null pointer. -/
def Aggregation.Safe (s : Aggregation F) : AggregatorCall → Bool
  | .receiveChartData chart => match chart.metric with
    | some metric => (s.aggregator.sampleGroup chart.hostname).gpuSamples.all fun sample =>
      decide (sample.deviceName = chart.chartFamily ∧ sample.seconds = chart.timestamp →
        (sample.get metric).isNone)
    | none => true
  | .retrieveDeviceMetrics hostname => (s.aggregator.deviceSamples.lookup hostname).all (·.isSome)

/-- What is held, with the group of one host first. -/
theorem readings_held (a : DeviceSampleAggregator F) (hostname : Text) :
    (a.deviceSamples.values.flatMap readings).Perm
      (readings (some (a.sampleGroup hostname)) ++
        (Table.values (a.deviceSamples.erase hostname)).flatMap readings) := by
  have hperm := (a.deviceSamples.values_perm_erase hostname).flatMap_right readings
  rw [List.flatMap_append] at hperm
  unfold DeviceSampleAggregator.sampleGroup
  cases hslot : a.deviceSamples.lookup hostname with
  | none => simpa [hslot, readings] using hperm
  | some slot => cases slot <;> simpa [hslot, readings] using hperm

/-- The groups that are held belong to their hosts and are merged. -/
def DeviceSampleAggregator.Sorted (a : DeviceSampleAggregator F) : Prop :=
  ∀ hostname group, a.deviceSamples.lookup hostname = some (some group) →
    group.Merged ∧ group.hostname = hostname

theorem DeviceSampleAggregator.Sorted.sampleGroup {a : DeviceSampleAggregator F} (h : a.Sorted)
    (hostname : Text) :
    (a.sampleGroup hostname).Merged ∧ (a.sampleGroup hostname).hostname = hostname := by
  unfold DeviceSampleAggregator.sampleGroup
  split
  · rename_i group hslot
    exact h hostname group hslot
  · exact ⟨List.nodup_nil, rfl⟩

theorem DeviceSampleAggregator.Sorted.insert {a : DeviceSampleAggregator F} (h : a.Sorted)
    {hostname : Text} {slot : Option (DeviceMetricSamples F)}
    (hslot : ∀ group, slot = some group → group.Merged ∧ group.hostname = hostname) :
    DeviceSampleAggregator.Sorted ⟨a.deviceSamples.insert hostname slot⟩ := by
  intro hostname' group hlookup
  rw [Table.lookup_insert] at hlookup
  split at hlookup
  · rename_i heq
    subst heq
    exact hslot group (Option.some.inj hlookup)
  · exact h hostname' group hlookup

/-- **A chart of a free metric** adds its reading to what is held. -/
theorem withSample_spec {a : DeviceSampleAggregator F} (h : a.Sorted) {chart : Chart}
    {metric : Metric} (hfree : ∀ sample ∈ (a.sampleGroup chart.hostname).gpuSamples,
      sample.deviceName = chart.chartFamily ∧ sample.seconds = chart.timestamp →
        sample.get metric = none) (v : F) :
    (a.withSample chart (·.set v metric)).Sorted ∧
      ((a.withSample chart (·.set v metric)).deviceSamples.values.flatMap readings).Perm
        (⟨chart.hostname, chart.chartFamily, chart.timestamp, metric, v⟩ ::
          a.deviceSamples.values.flatMap readings) := by
  obtain ⟨before, s, after, hpoints, hmodify, hname⟩ :=
    exists_points (a.sampleGroup chart.hostname) chart.chartFamily chart.timestamp
      (·.set v metric)
  obtain ⟨hmerged, hhost⟩ := h.sampleGroup chart.hostname
  have heq : a.withSample chart (·.set v metric) = ⟨a.deviceSamples.insert chart.hostname
      (some ⟨(a.sampleGroup chart.hostname).hostname, before ++ s.set v metric :: after⟩)⟩ := by
    simp only [DeviceSampleAggregator.withSample, hmodify, hname]
  have hs : s.get metric = none := by
    rcases hpoints.found with hfound | ⟨-, -, rfl, -⟩
    · exact hfree s (by simp [hfound]) ⟨hpoints.deviceName, hpoints.seconds⟩
    · exact GPUMetricSample.get_new _ _ _
  rw [heq]
  refine ⟨h.insert fun group hgroup => ?_, ?_⟩
  · obtain rfl := Option.some.inj hgroup
    exact ⟨hpoints.merged hmerged v metric _, hhost⟩
  · rw [Table.values_insert_erase, List.flatMap_cons]
    have hgroup := hpoints.readings_perm hs v
    rw [hhost] at hgroup ⊢
    have hheld := (readings_held a chart.hostname).symm
    exact (hgroup.append_right _).trans (hheld.cons _)

theorem conserved_inductive :
    (aggregatorSystem perc cel).InductiveBy (fun s call => s.Safe call) Aggregation.Conserved where
  init := by
    rintro s rfl
    exact ⟨List.Perm.refl _, nofun, nofun⟩
  step := by
    intro s call s' hs hsafe hstep
    cases call with
    | receiveChartData chart =>
      obtain rfl := Option.some.inj hstep
      rw [aggregator_receiveChartData]
      cases hmetric : chart.metric with
      | none => simpa using hs
      | some metric =>
        have hfree : ∀ sample ∈ (s.aggregator.sampleGroup chart.hostname).gpuSamples,
            sample.deviceName = chart.chartFamily ∧ sample.seconds = chart.timestamp →
              sample.get metric = none := by
          simpa [Aggregation.Safe, hmetric, or_iff_not_imp_left] using hsafe
        obtain ⟨hsorted, hheld⟩ := withSample_spec hs.held hfree
          (metric.convert perc cel chart.value)
        refine ⟨?_, hsorted, hs.valid⟩
        refine (List.perm_append_singleton _ _).trans ?_
        refine ((hs.readings.cons _).trans List.perm_middle.symm).trans ?_
        exact hheld.symm.append_left _
    | retrieveDeviceMetrics hostname =>
      obtain rfl := Option.some.inj hstep
      unfold DeviceSampleAggregator.retrieveDeviceMetrics
      have hheld := readings_held s.aggregator hostname
      cases hslot : s.aggregator.deviceSamples.lookup hostname with
      | none =>
        refine ⟨?_, hs.held, ?_⟩
        · simpa [readings] using hs.readings
        · refine List.forall_mem_append.mpr ⟨hs.valid, List.forall_mem_singleton.mpr ?_⟩
          exact ⟨_, rfl, List.nodup_nil, Or.inl rfl⟩
      | some slot =>
        cases slot with
        | none => simp [Aggregation.Safe, hslot] at hsafe
        | some group =>
          obtain ⟨hmerged, hhost⟩ := hs.held hostname group hslot
          refine ⟨?_, DeviceSampleAggregator.Sorted.insert hs.held nofun, ?_⟩
          · rw [DeviceSampleAggregator.sampleGroup, hslot] at hheld
            simp only [List.flatMap_append, List.append_assoc,
              Table.values_insert_erase, List.flatMap_cons]
            exact hs.readings.trans (hheld.append_left _)
          · refine List.forall_mem_append.mpr ⟨hs.valid, List.forall_mem_singleton.mpr ?_⟩
            exact ⟨group, rfl, hmerged, Or.inr hhost⟩

/-- **In a run of safe calls nothing is lost or repeated.** -/
theorem conserved_of_safe (perc cel : Int → F) (s : Aggregation F)
    (h : (aggregatorSystem perc cel).ReachBy (fun s call => s.Safe call) s) : s.Conserved :=
  conserved_inductive.reach h

/-- A chart of a device "0" of a host "h". -/
def chartAt (context : String) (value : Int) (timestamp : BitVec 64) : Chart :=
  ⟨['h'], ['0'], context.toList, .nvidiaSmi, value, timestamp⟩

theorem conserved_of_safe_run : ∃ s : Aggregation Int, s.Conserved ∧
    s.received.length = 4 ∧ s.retrieved.length = 1 := by
  have hrun : Lts.runBy (aggregatorStep id id) (fun s call => s.Safe call) ⟨⟨∅⟩, [], []⟩
      [.receiveChartData (chartAt "nvidia_smi.gpu_utilization" 50 7),
        .receiveChartData (chartAt "nvidia_smi.temperature" 40 7),
        .receiveChartData (chartAt "nvidia_smi.gpu_utilization" 60 8),
        .retrieveDeviceMetrics ['h'],
        .receiveChartData (chartAt "nvidia_smi.mem_utilization" 30 7)] = some _ := rfl
  exact ⟨_, conserved_of_safe id id _ (Lts.reachBy_of_runBy hrun), rfl, rfl⟩

/-- A second retrieval gives a null pointer, and a second temperature of a device at a time replaces
the first. -/
theorem not_conserved : (¬ ∀ s : Aggregation Int, (aggregatorSystem id id).Reach s →
      ∀ r ∈ s.retrieved, r.2.isSome) ∧
    ¬ ∀ s : Aggregation Int, (aggregatorSystem id id).Reach s →
      s.received.Perm (s.retrieved.flatMap (fun r => readings r.2) ++
        s.aggregator.deviceSamples.values.flatMap readings) := by
  constructor
  · intro h
    have hrun : Lts.run (aggregatorStep id id) ⟨⟨∅⟩, [], []⟩
        [.receiveChartData (chartAt "nvidia_smi.temperature" 40 7),
          .retrieveDeviceMetrics ['h'], .retrieveDeviceMetrics ['h']] = some _ := rfl
    exact absurd (h _ (Lts.reach_of_run hrun)) (by decide +kernel)
  · intro h
    have hrun : Lts.run (aggregatorStep id id) ⟨⟨∅⟩, [], []⟩
        [.receiveChartData (chartAt "nvidia_smi.temperature" 40 7),
          .receiveChartData (chartAt "nvidia_smi.temperature" 41 7)] = some _ := rfl
    exact absurd (h _ (Lts.reach_of_run hrun)).length_eq (by decide +kernel)

end Sem.Netdata
