import Sem.Lib.IncludeGuards
import Sem.ReGen.Datatypes

/-!
# Typedefs of vectors in IDL (`datatype_functions.xsl`)

The IDL file of a structure has a typedef for each of its vectors, in the modules of the structure
and inside a guard that is made of the name of the typedef.

* `expandIdl_of_le`: a file is expanded to the end.
* `typedefLaw_iff`: the types of vectors are their own typedefs exactly if the first vector that is
  read with a guard is in an enclosing namespace and has the same elements, kind and bound.
* `not_typedefLaw`: a vector of integers in each of two namespaces.
-/

namespace Sem.ReGen

open Xml (Text)

/-- Text of an IDL file. A member of a structure comes with its node. -/
inductive IdlText
  | typedef (modules : List Text) (type name : Text) (isArray : Bool) (size : Text)
  | struct (modules : List Text) (label : Text) (members : List (ℕ × Text))
  | union (modules : List Text) (label : Text)
  | enum (modules : List Text) (label : Text)
  deriving DecidableEq

/-- A part of the file of an aggregate, or of an enum. -/
inductive IdlPart
  | typedef (aggregate vector : ℕ)
  | struct (aggregate : ℕ)
  | descriminator (aggregate : ℕ)
  | union (aggregate : ℕ)
  | enum (enum : ℕ)
  deriving DecidableEq

/-- What is read for a file. -/
abbrev IdlEntry := GuardedFile.Entry Text IdlPart

namespace Document

variable (cases : Cases) (doc : Document)

/-! ## Files -/

/-- The guard that `cpp:define_guard_start` makes of a name. -/
def guardMacro (name : Text) : Text := cases.upper (name ++ lit "_h")

/-- The `is_array` of a vector. -/
def isArray (vector : ℕ) : Bool := doc.evaluateAsBoolean cases vector (·.isArray)

/-- The bound of a vector. -/
def vectorSize (vector : ℕ) : Text :=
  doc.getDataValue vector (if doc.isArray cases vector then (·.arraySize) else (·.sequenceSize))

/-- The name of the `kind` of the child of a vector. -/
def vectorChildKind (child : ℕ) : Text :=
  match doc.kind child with
  | some .aggregateInstance => lit "AggregateInstance"
  | some .enumInstance => lit "EnumInstance"
  | some .member => lit "Member"
  | _ => []

/-- `cdit:get_idl_type_def_name`. -/
def getIdlTypeDefName (vector : ℕ) : Text :=
  match doc.getVectorChild vector with
  | none => cases.lower (joinList [if doc.isArray cases vector then lit "array" else lit "sequence",
      doc.vectorSize cases vector] '_')
  | some child =>
    let type := match doc.kind child with
      | some .aggregateInstance | some .enumInstance =>
        joinList (doc.getNamespace child ++ [cases.titleCase (doc.getLabel child)]) '_'
      | some .member => idlType (cppPrimitiveType (doc.getType child))
      | _ => []
    cases.lower (joinList [if doc.isArray cases vector then lit "array" else lit "sequence",
      doc.vectorChildKind child, type, doc.vectorSize cases vector] '_')

/-- `cdit:get_vector_inner_idl_type`. -/
def getVectorInnerIdlType (vector : ℕ) : Text :=
  match doc.getVectorChild vector with
  | none => []
  | some child =>
    match doc.kind child with
    | some .aggregateInstance | some .enumInstance =>
      (doc.getDefinition child).elim [] (doc.idlQualifiedType cases)
    | some .member => idlType (cppPrimitiveType (doc.getType child))
    | _ => []

/-- The children of an aggregate that are vectors. -/
def getVectors (aggregate : ℕ) : List ℕ :=
  (doc.getChildNodes aggregate).filter (doc.kind · = some .vector)

/-- The guard of a typedef. -/
def typedefGuard (name : Text) : Text :=
  guardMacro cases (cases.upper (joinList [lit "TYPEDEF", name] '_'))

/-- The type of a member of a structure. -/
def idlMemberType (child : ℕ) : Option Text :=
  match doc.kind child with
  | some .member =>
    let primitiveType := doc.getDataValue child (·.primitiveType)
    some (if primitiveType ≠ [] then primitiveType
      else idlType (cppPrimitiveType (doc.getType child)))
  | some .enumInstance | some .aggregateInstance =>
    some ((doc.getDefinition child).elim [] (doc.idlQualifiedType cases))
  | some .vector => some (doc.getIdlTypeDefName cases child)
  | _ => none

/-- The text of a part. -/
def idlText : IdlPart → IdlText
  | .typedef aggregate vector =>
    .typedef (doc.getNamespace aggregate) (doc.getVectorInnerIdlType cases vector)
      (doc.getIdlTypeDefName cases vector) (doc.isArray cases vector) (doc.vectorSize cases vector)
  | .struct aggregate =>
    .struct (doc.getNamespace aggregate) (cases.titleCase (doc.getLabel aggregate))
      ((doc.getChildNodes aggregate).filterMap fun child =>
        (doc.idlMemberType cases child).map fun type => (child, type))
  | .descriminator aggregate =>
    .enum (doc.getNamespace aggregate)
      (joinList (doc.getNamespace aggregate ++ [cases.titleCase (doc.getLabel aggregate),
        lit "Descriminator"]) '_')
  | .union aggregate => .union (doc.getNamespace aggregate) (cases.titleCase (doc.getLabel aggregate))
  | .enum enum => .enum (doc.getNamespace enum) (cases.titleCase (doc.getLabel enum))

/-- The guard of `idl:get_enum`. -/
def idlEnumGuard (namespaces : List Text) (label : Text) : Text :=
  guardMacro cases (cases.upper (joinList (trimList namespaces ++ [label, lit "DATATYPE", lit "IDL"])
    '_'))

/-- The guard that a part is inside of. -/
def idlUnder : IdlPart → Option Text
  | .typedef _ vector => some (typedefGuard cases (doc.getIdlTypeDefName cases vector))
  | .descriminator aggregate =>
    some (idlEnumGuard cases [] (joinList (doc.getNamespace aggregate ++
      [cases.titleCase (doc.getLabel aggregate), lit "Descriminator"]) '_'))
  | .struct _ | .union _ | .enum _ => none

/-- `cdit:get_idl_datatype` and, of an enum, `cdit:get_idl_enum_file`. -/
def idlFile (i : ℕ) : GuardedFile ℕ Text IdlPart :=
  if doc.kind i = some .enum then
    { guard := idlEnumGuard cases (doc.getNamespace i) (cases.titleCase (doc.getLabel i))
      includes := []
      parts := [.enum i] }
  else
    { guard := guardMacro cases (cases.upper (joinList (doc.getNamespace i ++
        [doc.getLabel i, lit "DATATYPE_IDL"]) '_'))
      includes := doc.getRequiredAggregates i false ++ doc.getRequiredEnums i
      parts :=
        if doc.evaluateAsBoolean cases i (·.isUnion) then [.descriminator i, .union i]
        else (doc.getVectors i).map (.typedef i) ++ [.struct i] }

/-- The parts of the expanded file of an aggregate. -/
def expandIdl (aggregate : ℕ) : List IdlPart :=
  (GuardedFile.expand (doc.idlUnder cases) (doc.idlFile cases) doc.nodes.length ([], [])
    aggregate).1

/-- All that is read for the file of an aggregate. -/
def readIdl (aggregate : ℕ) : List IdlEntry :=
  GuardedFile.reading (doc.idlUnder cases) (doc.idlFile cases) doc.nodes.length [] aggregate

/-! ## What is promised -/

/-- A typedef of a name that is visible in modules: it is in the same or in enclosing ones. -/
def Visible (modules : List Text) (name : Text) : IdlText → Bool
  | .typedef modules' _ name' _ _ => name' = name ∧ modules' <+: modules
  | _ => false

/-- A typedef has the elements, the kind and the bound of a vector. -/
def IsOf (vector : ℕ) : IdlText → Prop
  | .typedef _ type _ isArray size => type = doc.getVectorInnerIdlType cases vector ∧
    isArray = doc.isArray cases vector ∧ size = doc.vectorSize cases vector
  | _ => False

/-- The type of every vector in a structure is a typedef that is declared before, once, and is that of
the vector. -/
def TypedefLaw : Prop :=
  ∀ root ∈ doc.getNodesOfKind .aggregate, ∀ pre post modules label members,
    (doc.expandIdl cases root).map (doc.idlText cases) = pre ++ .struct modules label members :: post →
      ∀ m ∈ members, doc.kind m.1 = some .vector →
        ∃ d ∈ pre, ((doc.expandIdl cases root).map (doc.idlText cases)).filter (Visible modules m.2) =
          [d] ∧ doc.IsOf cases m.1 d

/-- The first that is read with the guard of a vector is a vector with the same name, in the same
namespaces or in the first of them, and with the same elements, kind and bound. -/
def VectorsAgree : Prop :=
  ∀ root ∈ doc.getNodesOfKind .aggregate, ∀ aggregate,
    .part (.struct aggregate) ∈ doc.readIdl cases root → ∀ vector ∈ doc.getVectors aggregate,
      ∃ aggregate' vector',
        (doc.readIdl cases root).find? (fun e => e.guard (doc.idlUnder cases) =
          some (typedefGuard cases (doc.getIdlTypeDefName cases vector))) =
            some (.part (.typedef aggregate' vector')) ∧
        doc.getIdlTypeDefName cases vector' = doc.getIdlTypeDefName cases vector ∧
        doc.getNamespace aggregate' <+: doc.getNamespace aggregate ∧
        doc.getVectorInnerIdlType cases vector' = doc.getVectorInnerIdlType cases vector ∧
        doc.isArray cases vector' = doc.isArray cases vector ∧
        doc.vectorSize cases vector' = doc.vectorSize cases vector

/-! ## Expansion -/

variable {cases} {doc}

theorem lt_of_mem_includes {i j : ℕ} (h : j ∈ (doc.idlFile cases i).includes) :
    j < doc.nodes.length := by
  unfold idlFile at h
  split at h
  · cases h
  · rcases List.mem_append.mp h with h | h
    · exact lt_of_mem_getRequiredAggregates h
    · exact lt_of_mem_getDefinitions h

/-- Files that are nested deeper are not read again. -/
theorem expandIdl_of_le {n root : ℕ} (hroot : root < doc.nodes.length) (hn : doc.nodes.length ≤ n) :
    (GuardedFile.expand (doc.idlUnder cases) (doc.idlFile cases) n ([], []) root).1 =
      doc.expandIdl cases root := by
  have hcard : (GuardedFile.undefinedGuards (doc.idlFile cases) (List.range doc.nodes.length)
      []).card ≤ doc.nodes.length :=
    (GuardedFile.card_undefinedGuards_le []).trans_eq List.length_range
  exact congrArg Prod.fst (GuardedFile.expand_of_le
    (fun i _ j hj => List.mem_range.mpr (lt_of_mem_includes hj)) (List.mem_range.mpr hroot)
    (hcard.trans hn) hcard)

/-- The expanded file is a run over what is read. -/
theorem expandIdl_eq (root : ℕ) :
    doc.expandIdl cases root = (GuardedFile.run (doc.idlUnder cases) (doc.readIdl cases root)).1 :=
  congrArg Prod.fst (GuardedFile.expand_eq_run doc.nodes.length [] root)

/-! ## Visibility -/

theorem mem_vectors_of_mem_members {aggregate : ℕ} {modules : List Text} {label : Text}
    {members : List (ℕ × Text)}
    (h : doc.idlText cases (.struct aggregate) = .struct modules label members) :
    modules = doc.getNamespace aggregate ∧
      ∀ vector type, ((vector, type) ∈ members ∧ doc.kind vector = some .vector) ↔
        vector ∈ doc.getVectors aggregate ∧ type = doc.getIdlTypeDefName cases vector := by
  obtain ⟨hmodules, -, hmembers⟩ := IdlText.struct.inj h
  refine ⟨hmodules.symm, fun vector type => ?_⟩
  subst hmembers
  simp only [getVectors, List.mem_filterMap, List.mem_filter, decide_eq_true_eq]
  constructor
  · rintro ⟨⟨child, hchild, hsome⟩, hkind⟩
    obtain ⟨type', htype, hpair⟩ := Option.map_eq_some_iff.mp hsome
    obtain ⟨rfl, rfl⟩ := Prod.mk.inj hpair
    refine ⟨⟨hchild, hkind⟩, ?_⟩
    simp only [idlMemberType, hkind] at htype
    exact (Option.some.inj htype).symm
  · rintro ⟨⟨hchild, hkind⟩, rfl⟩
    exact ⟨⟨vector, hchild, by simp only [idlMemberType, hkind, Option.map_some]⟩, hkind⟩

/-- In a file, typedefs come before the structure. -/
theorem typedef_mem_of_parts_eq {i aggregate vector : ℕ}
    {r₁ r₂ : List IdlEntry}
    (h : (doc.idlFile cases i).parts.map GuardedFile.Entry.part =
      r₁ ++ .part (.struct aggregate) :: r₂) (hvector : vector ∈ doc.getVectors aggregate) :
    .part (.typedef aggregate vector) ∈ r₁ := by
  have hmem : .struct aggregate ∈ (doc.idlFile cases i).parts := by
    have hentry : (.part (.struct aggregate) : IdlEntry) ∈
        (doc.idlFile cases i).parts.map GuardedFile.Entry.part := by simp [h]
    obtain ⟨p, hp, hpart⟩ := List.mem_map.mp hentry
    cases hpart
    exact hp
  unfold idlFile at h hmem
  by_cases henum : doc.kind i = some .enum
  · simp [henum] at hmem
  · by_cases hunion : doc.evaluateAsBoolean cases i (·.isUnion) = true
    · simp [henum, hunion] at hmem
    · simp only [if_neg henum] at h
      simp only [hunion, Bool.false_eq_true, if_false, List.map_append, List.map_map, List.map_cons,
        List.map_nil] at h
      rcases List.eq_nil_or_concat r₂ with rfl | ⟨r₂, e, rfl⟩
      · obtain ⟨rfl, hlast⟩ := List.append_inj' h rfl
        cases hlast
        exact List.mem_map_of_mem hvector
      · rw [List.concat_eq_append, ← List.cons_append, ← List.append_assoc] at h
        have htypedefs := (List.append_inj' h rfl).1
        have hstruct : (.part (.struct aggregate) : IdlEntry) ∈
            (doc.getVectors i).map (GuardedFile.Entry.part ∘ IdlPart.typedef i) := by
          simp [htypedefs]
        obtain ⟨v, -, hv⟩ := List.mem_map.mp hstruct
        cases hv

/-- The vectors of a structure are read before it. -/
def VectorsRead (doc : Document) (r : List IdlEntry) : Prop :=
  ∀ r₁ r₂ aggregate, r = r₁ ++ .part (.struct aggregate) :: r₂ →
    ∀ vector ∈ doc.getVectors aggregate, .part (.typedef aggregate vector) ∈ r₁

theorem vectorsRead (root : ℕ) : doc.VectorsRead (doc.readIdl cases root) := by
  refine GuardedFile.reading_induction (motive := doc.VectorsRead) ?_ ?_ ?_
  · intro r i ih r₁ r₂ aggregate h
    rcases List.eq_nil_or_concat r₂ with rfl | ⟨r₂, e, rfl⟩
    · cases (List.append_inj' h rfl).2
    · rw [List.concat_eq_append, ← List.cons_append, ← List.append_assoc] at h
      exact ih r₁ r₂ aggregate (List.append_inj' h rfl).1
  · intro r i ih r₁ r₂ aggregate h vector hvector
    rcases List.append_eq_append_iff.mp h with ⟨c, rfl, hparts⟩ | ⟨c, hr, hparts⟩
    · exact List.mem_append_right r (typedef_mem_of_parts_eq hparts hvector)
    · cases c with
      | nil =>
        have hnil : (.part (.typedef aggregate vector) : IdlEntry) ∈ [] :=
          typedef_mem_of_parts_eq hparts.symm hvector
        cases hnil
      | cons e c =>
        obtain ⟨rfl, -⟩ := List.cons.inj hparts
        exact ih r₁ c aggregate hr vector hvector
  · intro r₁ r₂ aggregate h
    simp at h

/-- Typedefs with one name have one guard. -/
theorem eq_typedef_of_visible {modules : List Text} {name : Text} {p : IdlPart}
    (h : Visible modules name (doc.idlText cases p) = true) :
    ∃ aggregate vector, p = .typedef aggregate vector ∧
      doc.getIdlTypeDefName cases vector = name ∧ doc.getNamespace aggregate <+: modules ∧
      doc.idlUnder cases p = some (typedefGuard cases name) := by
  cases p with
  | typedef aggregate vector =>
    obtain ⟨rfl, hprefix⟩ := of_decide_eq_true h
    exact ⟨aggregate, vector, rfl, rfl, hprefix, rfl⟩
  | _ => cases h

/-- The typedefs of a name that are visible in an expanded file. -/
theorem filter_visible (root : ℕ) (modules : List Text) (name : Text) :
    ((doc.expandIdl cases root).map (doc.idlText cases)).filter (Visible modules name) =
      match (doc.readIdl cases root).find? fun e =>
          e.guard (doc.idlUnder cases) = some (typedefGuard cases name) with
      | some (.part p) => [doc.idlText cases p].filter (Visible modules name)
      | _ => [] := by
  have hfilter : (doc.expandIdl cases root).filter (Visible modules name ∘ doc.idlText cases) =
      ((doc.expandIdl cases root).filter fun p =>
        doc.idlUnder cases p = some (typedefGuard cases name)).filter
          (Visible modules name ∘ doc.idlText cases) := by
    rw [List.filter_filter]
    refine List.filter_congr fun p _ => ?_
    cases hvisible : (Visible modules name ∘ doc.idlText cases) p with
    | false => rfl
    | true =>
      obtain ⟨_, _, _, _, _, hunder⟩ := eq_typedef_of_visible hvisible
      simp [hunder]
  rw [List.filter_map, hfilter, expandIdl_eq, GuardedFile.filter_run]
  cases (doc.readIdl cases root).find? fun e =>
      e.guard (doc.idlUnder cases) = some (typedefGuard cases name) with
  | none => rfl
  | some e =>
    cases e with
    | file m => rfl
    | part p => exact List.filter_map.symm

theorem typedefLaw_iff (cases : Cases) (doc : Document) :
    doc.TypedefLaw cases ↔ doc.VectorsAgree cases := by
  constructor
  · intro hlaw root hroot aggregate hread vector hvector
    have hstruct : .struct aggregate ∈ doc.expandIdl cases root := by
      rw [expandIdl_eq]
      exact GuardedFile.mem_run_of_part hread rfl
    obtain ⟨pre, post, hsplit⟩ := List.append_of_mem (List.mem_map_of_mem (f := doc.idlText cases)
      hstruct)
    obtain ⟨modules, label, members, htext⟩ : ∃ modules label members,
        doc.idlText cases (.struct aggregate) = .struct modules label members := ⟨_, _, _, rfl⟩
    obtain ⟨rfl, hmembers⟩ := mem_vectors_of_mem_members htext
    obtain ⟨hmem, hkind⟩ := (hmembers vector _).mpr ⟨hvector, rfl⟩
    rw [htext] at hsplit
    obtain ⟨d, -, hone, hof⟩ := hlaw root hroot pre post _ label members hsplit _ hmem hkind
    rw [filter_visible] at hone
    split at hone
    · next p hfind =>
      have hd : d ∈ [doc.idlText cases p].filter (Visible (doc.getNamespace aggregate)
          (doc.getIdlTypeDefName cases vector)) := by simp [hone]
      obtain ⟨hd, hvisible⟩ := List.mem_filter.mp hd
      obtain rfl := List.mem_singleton.mp hd
      obtain ⟨aggregate', vector', rfl, hname, hprefix, -⟩ := eq_typedef_of_visible hvisible
      exact ⟨aggregate', vector', hfind, hname, hprefix, hof⟩
    · cases hone
  · intro hagree root hroot pre post modules label members hsplit ⟨vector, type⟩ hmem hkind
    obtain ⟨pre, rest, hparts, rfl, hrest⟩ := List.map_eq_append_iff.mp hsplit
    obtain ⟨p, post, rfl, htext, rfl⟩ := List.map_eq_cons_iff.mp hrest
    obtain ⟨aggregate, rfl⟩ : ∃ aggregate, p = .struct aggregate := by
      cases p with
      | struct aggregate => exact ⟨aggregate, rfl⟩
      | _ => cases htext
    obtain ⟨rfl, hmembers⟩ := mem_vectors_of_mem_members htext
    obtain ⟨hvector, rfl⟩ := (hmembers vector type).mp ⟨hmem, hkind⟩
    rw [expandIdl_eq] at hparts
    obtain ⟨r₁, r₂, hr, hpre⟩ := GuardedFile.exists_of_run_eq hparts
    obtain ⟨aggregate', vector', hfind, hname, hprefix, hof⟩ :=
      hagree root hroot aggregate (by simp [hr]) vector hvector
    -- The vector itself is read before, so the first with its guard is, too.
    have hbefore : r₁.find? (fun e => e.guard (doc.idlUnder cases) =
        some (typedefGuard cases (doc.getIdlTypeDefName cases vector))) =
          some (.part (.typedef aggregate' vector')) := by
      have hown : .part (.typedef aggregate vector) ∈ r₁ :=
        vectorsRead root r₁ r₂ aggregate hr vector hvector
      cases hfirst : r₁.find? fun e => e.guard (doc.idlUnder cases) =
          some (typedefGuard cases (doc.getIdlTypeDefName cases vector)) with
      | none =>
        have hnot := List.find?_eq_none.mp hfirst _ hown
        exact absurd (decide_eq_true rfl) hnot
      | some e =>
        rw [hr, List.find?_append, hfirst, Option.some_or] at hfind
        exact hfind
    have hvisible : Visible (doc.getNamespace aggregate) (doc.getIdlTypeDefName cases vector)
        (doc.idlText cases (.typedef aggregate' vector')) = true := decide_eq_true ⟨hname, hprefix⟩
    refine ⟨doc.idlText cases (.typedef aggregate' vector'), List.mem_map_of_mem ?_, ?_, hof⟩
    · have hkept : (GuardedFile.run (doc.idlUnder cases) r₁).1.filter (fun p =>
          doc.idlUnder cases p = some (typedefGuard cases (doc.getIdlTypeDefName cases vector))) =
            [.typedef aggregate' vector'] := by
        rw [GuardedFile.filter_run, hbefore]
      rw [← hpre]
      exact (List.mem_filter.mp (by rw [hkept]; exact List.mem_singleton_self _)).1
    · rw [filter_visible, hfind]
      exact List.filter_eq_self.mpr fun d hd => by
        rw [List.mem_singleton.mp hd]
        exact hvisible

/-- An aggregate in the namespace `A` has a vector of integers and an instance of another, in `B`, that
has one, too. -/
def twoNamespaces : Document where
  nodes := [
    { kind := .model },
    { kind := .namespace_, parent := some 0, label := lit "A" },
    { kind := .aggregate, parent := some 1, label := lit "Outer" },
    { kind := .aggregateInstance, parent := some 2, label := lit "inner" },
    { kind := .vector, parent := some 2, index := 1, label := lit "numbers" },
    { kind := .member, parent := some 4, label := lit "number", type := lit "Integer" },
    { kind := .namespace_, parent := some 0, label := lit "B" },
    { kind := .aggregate, parent := some 6, label := lit "Inner" },
    { kind := .vector, parent := some 7, label := lit "numbers" },
    { kind := .member, parent := some 8, label := lit "number", type := lit "Integer" }]
  edges := [{ kind := .definition, source := 3, target := 7 }]
  parent_lt := by decide

/-- The only typedef is in `B`, and used in `A`. -/
theorem not_typedefLaw : ¬ twoNamespaces.TypedefLaw asciiCases := by
  intro hlaw
  have hexpanded : (twoNamespaces.expandIdl asciiCases 2).map (twoNamespaces.idlText asciiCases) =
      [.typedef [lit "B"] (lit "long") (lit "sequence_member_long") false [],
        .struct [lit "B"] (lit "Inner") [(8, lit "sequence_member_long")]] ++
      .struct [lit "A"] (lit "Outer")
        [(3, lit "B::Inner"), (4, lit "sequence_member_long")] :: [] := by
    decide +kernel
  obtain ⟨d, -, hone, -⟩ := hlaw 2 (by decide +kernel) _ _ _ _ _ hexpanded
    (4, lit "sequence_member_long") (by decide) (by decide +kernel)
  rw [hexpanded] at hone
  have hnone : List.length (List.filter (Visible [lit "A"] (lit "sequence_member_long"))
      [.typedef [lit "B"] (lit "long") (lit "sequence_member_long") false [],
        .struct [lit "B"] (lit "Inner") [(8, lit "sequence_member_long")],
        .struct [lit "A"] (lit "Outer")
          [(3, lit "B::Inner"), (4, lit "sequence_member_long")]]) = 0 := by
    decide +kernel
  exact absurd (hnone.symm.trans (congrArg List.length hone)) (by simp)

end Document

end Sem.ReGen
