import Sem.Re.ReplicatedConnections
import Mathlib.Data.List.TakeWhile

/-!
# Replicas for all indices

* `replicationLaw`: a component has one replica for every choice of an index at each of the
  assemblies around it, and the replicas have different ids.
* `stoi_decimal`, `stoi_negative`: a count is read as an `int`; a larger number counts as 1.
-/

namespace Sem.Re

open Xml (Text)
open Lib

/-- `GetUniqueId`: the id with the indices of the replica. -/
def ComponentReplication.getUniqueId (r : ComponentReplication) : Text :=
  r.component.id ++ Model.getUniqueSuffix r.getReplicationIndices

variable {model : Model}

/-! ## Numbers -/

theorem strtol_decimal (n : Nat) : strtol (decimal n) = some (n : Int) := by
  have hdigits : ∀ c ∈ decimal n, c.isDigit = true := fun _ hc =>
    Nat.isDigit_of_mem_toDigits (by decide) (by decide) hc
  have hvalue : Nat.ofDigitChars 10 (decimal n) 0 = n := Nat.ofDigitChars_ten_toDigits
  have hne : decimal n ≠ [] := Nat.toDigits_ne_nil
  rw [strtol_digits hne hdigits, hvalue]

theorem strtol_negative (n : Nat) : strtol ('-' :: decimal n) = some (-(n : Int)) := by
  have hvalue : Nat.ofDigitChars 10 (decimal n) 0 = n := Nat.ofDigitChars_ten_toDigits
  have hdigits : (decimal n).takeWhile Char.isDigit = decimal n :=
    List.takeWhile_eq_self_iff.2 fun _ hd =>
      Nat.isDigit_of_mem_toDigits (by decide) (by decide) hd
  have hne : decimal n ≠ [] := Nat.toDigits_ne_nil
  have hdrop : ('-' :: decimal n).dropWhile isSpace = '-' :: decimal n :=
    List.dropWhile_cons_of_neg (by decide)
  simp [strtol, hdrop, readSign, hdigits, hvalue, hne]

/-- `std::stoi` of a numeral. -/
theorem stoi_decimal (n : Nat) :
    stoi (decimal n) = if n ≤ 2147483647 then .ok (n : Int) else .error .outOfRange := by
  have hfits : FitsInt n ↔ n ≤ 2147483647 := by
    unfold FitsInt
    omega
  simp only [stoi, strtol_decimal, hfits]

/-- `std::stoi` of a numeral with a minus sign. -/
theorem stoi_negative (n : Nat) : stoi ('-' :: decimal n) =
    if n ≤ 2147483648 then .ok (-(n : Int)) else .error .outOfRange := by
  have hfits : FitsInt (-(n : Int)) ↔ n ≤ 2147483648 := by
    unfold FitsInt
    omega
  simp only [stoi, strtol_negative, hfits]

/-! ## The law -/

/-- The component instance `c` is below the assemblies `p`, the first of them one of `ns`. -/
structure Enclosed (ns p : List Node) (c : Node) : Prop where
  isPath : IsPath ns (p ++ [c])
  assemblies : ∀ a ∈ p, a.kind = .componentAssembly
  isInstance : c.kind = .componentInstance

/-- An index for each of the assemblies. -/
def Indices (count : Node → Nat) : List Nat → List Node → Prop :=
  List.Forall₂ fun i a => i < count a

/-- The replicas of the components below the assembly definitions, where the assemblies have these
counts. -/
structure ReplicationLaw (model : Model) (definitions : Node) (count : Node → Nat) : Prop where
  once : ∀ p c, Enclosed definitions.children p c → ∀ t, Indices count t p →
    model.componentInstances.countP (fun r => r.key = (c.id, t)) = 1
  none : ∀ p c, Enclosed definitions.children p c → ∀ t, ¬ Indices count t p →
    model.componentInstances.countP (fun r => r.key = (c.id, t)) = 0
  only : ∀ r ∈ model.componentInstances, ∃ p, Enclosed definitions.children p r.component
  distinct : (∀ r ∈ model.componentInstances, '_' ∉ r.component.id) →
    (model.componentInstances.map (·.getUniqueId)).Nodup

/-- How the value of a variable is read as a count. -/
structure CountLaw (model : Model) : Prop where
  missing : ∀ n : Node, n.findImmediateChildren .variable = [] → model.getReplicationId n = 1
  unread : ∀ (n v : Node) (vs : List Node) (e : ConversionError),
    n.findImmediateChildren .variable = v :: vs →
    stoi (model.attributeValue v.id) = .error e → model.getReplicationId n = 1
  read : ∀ (n v : Node) (vs : List Node) (count : Int),
    n.findImmediateChildren .variable = v :: vs →
    stoi (model.attributeValue v.id) = .ok count → model.getReplicationId n = count.toNat
  numeral : ∀ (n v : Node) (vs : List Node) (count : Nat),
    n.findImmediateChildren .variable = v :: vs → model.attributeValue v.id = decimal count →
    model.getReplicationId n = if count ≤ 2147483647 then count else 1
  negative : ∀ (n v : Node) (vs : List Node) (count : Nat),
    n.findImmediateChildren .variable = v :: vs →
    model.attributeValue v.id = '-' :: decimal count →
    model.getReplicationId n = if count ≤ 2147483648 then 0 else 1

theorem countLaw (model : Model) : CountLaw model where
  missing n h := by rw [Model.getReplicationId, h]
  unread n v vs e h hread := by simp only [Model.getReplicationId, h, hread]
  read n v vs count h hread := by simp only [Model.getReplicationId, h, hread]
  numeral n v vs count h hvalue := by
    simp only [Model.getReplicationId, h, hvalue, stoi_decimal]
    split_ifs <;> simp
  negative n v vs count h hvalue := by
    simp only [Model.getReplicationId, h, hvalue, stoi_negative]
    split_ifs <;> simp

/-! ## The members of the expansion -/

theorem mem_generateReplications {parent : Option Assembly} {n : Node}
    {r : ComponentReplication} : r ∈ model.generateReplications parent n ↔
      ∃ i < model.getReplicationId n,
        r ∈ model.generateChildAssemblies (.mk n.id i parent) n.children ∨
          r ∈ Model.generateComponentReplications (.mk n.id i parent) n.children := by
  cases n
  simp [Model.generateReplications, Node.id, Node.children]

theorem mem_generateChildAssemblies {assembly : Assembly} {ns : List Node}
    {r : ComponentReplication} : r ∈ model.generateChildAssemblies assembly ns ↔
      ∃ n ∈ ns, n.kind = .componentAssembly ∧
        r ∈ model.generateReplications (some assembly) n := by
  induction ns with
  | nil => simp [Model.generateChildAssemblies]
  | cons n ns ih =>
    rw [Model.generateChildAssemblies, List.mem_append, ih]
    by_cases hkind : n.kind = .componentAssembly <;> simp [hkind]

/-- **Every choice of indices has its replica.** -/
theorem exists_replica {p : List Node} {c : Node} {t : List Nat} {ns : List Node}
    (assembly : Assembly) (h : Enclosed ns p c) (ht : Indices model.getReplicationId t p) :
    ∃ r, (r ∈ model.generateChildAssemblies assembly ns ∨
        r ∈ Model.generateComponentReplications assembly ns) ∧
      r.component = c ∧ r.getReplicationIndices = assembly.getReplicationIndices ++ t := by
  induction p generalizing ns assembly t with
  | nil =>
    cases ht
    refine ⟨⟨c, assembly⟩, Or.inr (List.mem_map.mpr ⟨c, ?_, rfl⟩), rfl, (List.append_nil _).symm⟩
    exact List.mem_filter.mpr ⟨h.isPath.1, by simpa using h.isInstance⟩
  | cons a p ih =>
    cases ht with
    | @cons i _ t _ hi ht =>
      have hrest : Enclosed a.children p c :=
        ⟨h.isPath.2, fun b hb => h.assemblies b (List.mem_cons_of_mem a hb), h.isInstance⟩
      obtain ⟨r, hr, hc, hidx⟩ := ih (.mk a.id i (some assembly)) hrest ht
      refine ⟨r, Or.inl ?_, hc, ?_⟩
      · have ha := h.assemblies a List.mem_cons_self
        exact mem_generateChildAssemblies.mpr
          ⟨a, h.isPath.1, ha, mem_generateReplications.mpr ⟨i, hi, hr⟩⟩
      · rw [hidx, Assembly.getReplicationIndices, List.append_assoc]
        rfl

/-- The replica's component is below assemblies, and it has an index for each of them behind
`base`. -/
def Indexed (model : Model) (ns : List Node) (base : List Nat) (r : ComponentReplication) : Prop :=
  ∃ p t, Enclosed ns p r.component ∧ r.getReplicationIndices = base ++ t ∧
    Indices model.getReplicationId t p

mutual

theorem indexed_of_mem_generateReplications {parent : Option Assembly}
    {r : ComponentReplication} : ∀ n : Node, r ∈ model.generateReplications parent n →
      ∃ i < model.getReplicationId n,
        Indexed model n.children (Assembly.mk n.id i parent).getReplicationIndices r
  | .mk id kind children, h => by
    obtain ⟨i, hi, hr⟩ := mem_generateReplications.mp h
    refine ⟨i, hi, ?_⟩
    rcases hr with hr | hr
    · exact indexed_of_mem_generateChildAssemblies children hr
    · have hb := replicaBelow_component hr
      exact ⟨[], [], ⟨hb.isPath, hb.assemblies, hb.isInstance⟩, hb.getReplicationIndices, .nil⟩

/-- **A replica's indices are below the counts of the assemblies around its component.** -/
theorem indexed_of_mem_generateChildAssemblies {assembly : Assembly}
    {r : ComponentReplication} : ∀ ns : List Node, r ∈ model.generateChildAssemblies assembly ns →
      Indexed model ns assembly.getReplicationIndices r
  | [], h => by
    rw [Model.generateChildAssemblies] at h
    cases h
  | n :: ns, h => by
    rw [Model.generateChildAssemblies] at h
    rcases List.mem_append.mp h with h | h
    · split at h
      · rename_i hkind
        obtain ⟨i, hi, p, t, hp, hidx, ht⟩ := indexed_of_mem_generateReplications n h
        refine ⟨n :: p, i :: t, ⟨⟨by simp, hp.isPath⟩, ?_, hp.isInstance⟩, ?_, .cons hi ht⟩
        · exact List.forall_mem_cons.mpr ⟨hkind, hp.assemblies⟩
        · rw [hidx, Assembly.getReplicationIndices, List.append_assoc]
          rfl
      · cases h
    · obtain ⟨p, t, hp, hidx, ht⟩ := indexed_of_mem_generateChildAssemblies ns h
      exact ⟨p, t, { hp with isPath := hp.isPath.mono (List.subset_cons_self _ _) }, hidx, ht⟩

end

/-- Paths below the same nodes with the same ids are the same. -/
theorem path_eq_of_ids {ns p q : List Node} {ancestors : List Text}
    (hnd : ((Node.entriesOf ancestors ns).map (·.node.id)).Nodup) (hp : IsPath ns p)
    (hq : IsPath ns q) (hids : idsOf p = idsOf q) : p = q := by
  induction p generalizing ns q ancestors with
  | nil => exact (List.map_eq_nil_iff.mp hids.symm).symm
  | cons a p ih =>
    cases q with
    | nil => cases hids
    | cons b q =>
      obtain ⟨hab, hrest⟩ := List.cons.inj hids
      have hns := (ids_sublist_entriesOf ancestors ns).nodup hnd
      obtain rfl := List.inj_on_of_nodup_map hns hp.1 hq.1 hab
      have ha : (⟨a, ancestors⟩ : Entry) ∈ Node.entriesOf ancestors ns := by
        refine entries_subset_entriesOf hp.1 ?_
        rw [entries_eq]
        exact List.mem_cons_self
      have hsub := ((entries_sublist_entriesOf ns ha).map (·.node.id)).nodup hnd
      rw [entries_eq, List.map_cons, List.nodup_cons] at hsub
      rw [ih hsub.2 hp.2 hq.2 hrest]

/-! ## The replicas of the model -/

section

variable {definitions : Node} (hid : model.Identified)
  (hdef : model.assemblyDefinitions = some definitions)
  (hcount : model.getReplicationId definitions = 1)

include hdef

section

include hcount

theorem mem_componentInstances {r : ComponentReplication} : r ∈ model.componentInstances ↔
    r ∈ model.generateChildAssemblies (.mk definitions.id 0 none) definitions.children ∨
      r ∈ Model.generateComponentReplications (.mk definitions.id 0 none) definitions.children := by
  rw [Model.componentInstances, hdef]
  simp only [mem_generateReplications, hcount]
  constructor
  · rintro ⟨i, hi, hr⟩
    obtain rfl : i = 0 := by omega
    exact hr
  · exact fun hr => ⟨0, by omega, hr⟩

theorem indexed_of_mem_componentInstances {r : ComponentReplication}
    (h : r ∈ model.componentInstances) : Indexed model definitions.children [] r := by
  rcases (mem_componentInstances hdef hcount).mp h with h | h
  · exact indexed_of_mem_generateChildAssemblies definitions.children h
  · have hb := replicaBelow_component h
    exact ⟨[], [], ⟨hb.isPath, hb.assemblies, hb.isInstance⟩, hb.getReplicationIndices, .nil⟩

end

include hid

theorem definitions_nodup :
    ∃ ancestors, ((Node.entriesOf ancestors definitions.children).map (·.node.id)).Nodup := by
  obtain ⟨e, he, rfl, -⟩ := mem_entries_of_assemblyDefinitions hdef
  have hnd := ((entries_sublist_entriesOf model.nodes he).map (·.node.id)).nodup hid.nodup
  rw [entries_eq, List.map_cons, List.nodup_cons] at hnd
  exact ⟨_, hnd.2⟩

include hcount

theorem keys_nodup : (model.componentInstances.map (·.key)).Nodup := by
  obtain ⟨e, he, rfl, -⟩ := mem_entries_of_assemblyDefinitions hdef
  have hnd := ((entries_sublist_entriesOf model.nodes he).map (·.node.id)).nodup hid.nodup
  rw [Model.componentInstances, hdef]
  exact generateReplications_nodup e.node hnd fun _ => hcount.le

theorem indices_of_key {r : ComponentReplication} (hr : r ∈ model.componentInstances)
    {p : List Node} {c : Node} {t : List Nat} (hp : Enclosed definitions.children p c)
    (hkey : r.key = (c.id, t)) : Indices model.getReplicationId t p := by
  obtain ⟨ancestors, hnd⟩ := definitions_nodup hid hdef
  obtain ⟨p', t', hp', hidx, ht⟩ := indexed_of_mem_componentInstances hdef hcount hr
  obtain ⟨hc, rfl⟩ := Prod.mk.inj hkey
  obtain ⟨-, hids⟩ := eq_of_id_eq hnd hp'.isPath hp.isPath hc
  obtain rfl := path_eq_of_ids hnd hp'.isPath.left hp.isPath.left hids
  rw [hidx]
  exact ht

/-- **Different replicas have different ids**, where no component's id has an underscore. -/
theorem getUniqueId_nodup
    (hsep : ∀ r ∈ model.componentInstances, '_' ∉ r.component.id) :
    (model.componentInstances.map (·.getUniqueId)).Nodup := by
  have hkeys := keys_nodup hid hdef hcount
  refine List.Nodup.map_on (fun r hr r' hr' heq => ?_) (List.Nodup.of_map _ hkeys)
  obtain ⟨hc, hidx⟩ := append_numerals_inj (by decide) (hsep r hr) (hsep r' hr') heq
  exact List.inj_on_of_nodup_map hkeys hr hr' (Prod.ext hc hidx)

/-- **A component has one replica for every choice of an index at each of the assemblies around
it.** -/
theorem replicationLaw :
    ReplicationLaw model definitions model.getReplicationId ∧ CountLaw model := by
  refine ⟨⟨fun p c hp t ht => ?_, fun p c hp t ht => ?_, fun r hr => ?_,
    getUniqueId_nodup hid hdef hcount⟩, countLaw model⟩
  · obtain ⟨r, hr, rfl, hidx⟩ := exists_replica (.mk definitions.id 0 none) hp ht
    have hmem := (mem_componentInstances hdef hcount).mpr hr
    have hone := List.count_eq_one_of_mem (keys_nodup hid hdef hcount)
      (List.mem_map_of_mem (f := ComponentReplication.key) hmem)
    rw [List.count, List.countP_map] at hone
    have hkey : r.key = (r.component.id, t) := Prod.ext rfl hidx
    rw [← hkey, ← hone]
    refine List.countP_congr fun r' _ => ?_
    simp
  · refine List.countP_eq_zero.mpr fun r hr hkey => ht ?_
    exact indices_of_key hid hdef hcount hr hp (of_decide_eq_true hkey)
  · obtain ⟨p, t, hp, -⟩ := indexed_of_mem_componentInstances hdef hcount hr
    exact ⟨p, hp⟩

end

theorem replicationLaw_unevenModel :
    unevenModel.componentInstances.countP
      (fun r => r.key = (['8'], [1, 0])) = 1 := by
  have h := replicationLaw unevenModel_wellFormed.identified rfl rfl
  let inner : Node := .mk ['6'] .componentAssembly [.mk ['7'] .variable [],
    .mk ['8'] .componentInstance [.mk ['9'] .subscriberPortInstance []]]
  let outer : Node := .mk ['2'] .componentAssembly [.mk ['3'] .variable [],
    .mk ['4'] .componentInstance [.mk ['5'] .publisherPortInstance []], inner]
  refine h.1.once [outer, inner] (.mk ['8'] .componentInstance
    [.mk ['9'] .subscriberPortInstance []]) ⟨?_, by decide, rfl⟩ [1, 0] ?_
  · simp [IsPath, Node.children, outer, inner]
  · exact .cons (by decide) (.cons (by decide) .nil)

/-! ## Numbers that are no `int` -/

/-- The count of an assembly whose variable may have any number: 0 for a negative one, and 1 without
a number. -/
def Model.givenCount (model : Model) (n : Node) : Nat :=
  match n.findImmediateChildren .variable with
  | [] => 1
  | variableNode :: _ => match model.attributeValue variableNode.id with
    | '-' :: digits => if digits ≠ [] ∧ digits.all Char.isDigit then 0 else 1
    | digits =>
      if digits ≠ [] ∧ digits.all Char.isDigit then Nat.ofDigitChars 10 digits 0 else 1

/-- An assembly with a component, and a count that is one above the greatest `int`. -/
def overlongModel : Model where
  nodes := [.mk ['1'] .assemblyDefinitions [.mk ['2'] .componentAssembly
    [.mk ['3'] .variable [], .mk ['4'] .componentInstance []]]]
  edges := []
  attributeValue _ := "2147483648".toList
  hasContainer _ := true

theorem not_replicationLaw_givenCount :
    ¬ ∀ (model : Model) (definitions : Node), model.Identified →
      model.assemblyDefinitions = some definitions →
      definitions.findImmediateChildren .variable = [] →
      ReplicationLaw model definitions model.givenCount := by
  intro h
  have hlaw := h overlongModel _ ⟨by decide, by decide⟩ rfl rfl
  let assembly : Node := .mk ['2'] .componentAssembly
    [.mk ['3'] .variable [], .mk ['4'] .componentInstance []]
  have honce := hlaw.once [assembly] (.mk ['4'] .componentInstance [])
    ⟨by simp [IsPath, Node.children, assembly], by decide, rfl⟩ [1]
    (.cons (by decide +kernel) .nil)
  exact absurd honce (by decide +kernel)

end Sem.Re
