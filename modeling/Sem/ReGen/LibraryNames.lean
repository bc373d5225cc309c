import Sem.ReGen.Validation

/-!
# The libraries of ports

The code generator names the library of a port by the namespaces and the label of its aggregate or
server interface. The node manager loads a library by the name that it makes of the port's message.

* `libraryLaw_iff`: ports load their own libraries, and different aggregates have different ones,
  exactly if labels are in the case of ASCII, none is empty, and aggregates differ in the words
  between their underscores.
* `not_libraryLaw`: `B_C` in `A` and `C` in `A_B`.
-/

namespace Sem.ReGen

open Xml (Text)

/-! ## Names of the code generator (`cdit_cmake_functions.xsl`) -/

namespace Document

variable (lc : LowerCase) (doc : Document)

/-- `graphml:get_middleware`. -/
def getMiddleware (i : ℕ) : Text := lc.lower (doc.getMiddlewareData i)

/-- `cmake:combine_project_library_name`. -/
def combineProjectLibraryName (libraryPrefix libraryName : Text) : Text :=
  joinList [libraryPrefix, lc.lower libraryName] '_'

/-- `cdit:middleware_uses_protobuf`. -/
def middlewareUsesProtobuf (middleware : Text) : Bool :=
  middleware = lit "qpid" ∨ middleware = lit "zmq" ∨ middleware = lit "proto"

/-- `cmake:get_aggregate_shared_library_name`. -/
def getAggregateSharedLibraryName (libraryPrefix : Text) (aggregate : ℕ) (middleware : Text) :
    Text :=
  let sharedMiddleware := if middlewareUsesProtobuf middleware then lit "proto" else middleware
  combineProjectLibraryName lc libraryPrefix
    (joinList (lit "datatype" :: sharedMiddleware :: (doc.getNamespace aggregate ++
      [doc.getLabel aggregate])) '_')

/-- `cmake:get_pubsub_module_library_name`. -/
def getPubsubModuleLibraryName (libraryPrefix : Text) (aggregate : ℕ) (middleware : Text) : Text :=
  combineProjectLibraryName lc libraryPrefix
    (joinList (lit "port" :: lit "pubsub" :: middleware :: (doc.getNamespace aggregate ++
      [doc.getLabel aggregate])) '_')

/-- `cmake:get_requestreply_module_library_name`. -/
def getRequestreplyModuleLibraryName (libraryPrefix : Text) (serverInterface : ℕ)
    (middleware : Text) : Text :=
  combineProjectLibraryName lc libraryPrefix
    (joinList (lit "port" :: lit "requestreply" :: middleware ::
      (doc.getNamespace serverInterface ++ [doc.getLabel serverInterface])) '_')

/-- The name of the library that is generated for a port. -/
def generatedLibrary (port : ℕ) : Option Text :=
  match doc.kind port with
  | some .publisherPortInstance | some .subscriberPortInstance =>
    (doc.getPortAggregate port).map fun a =>
      doc.getPubsubModuleLibraryName lc [] a (doc.getMiddleware lc port)
  | some .requesterPortInstance | some .replierPortInstance =>
    (doc.getPortAggregate port).map fun a =>
      doc.getRequestreplyModuleLibraryName lc [] a (doc.getMiddleware lc port)
  | _ => none

end Document

/-! ## Messages of ports (`protobufmodelparser.cpp`) -/

/-- `NodeManager::Middleware`. -/
inductive Middleware
  | noMiddleware
  | zmq
  | rti
  | ospl
  | qpid
  | tao
  deriving DecidableEq, Repr

/-- `Middleware_Name`. -/
def Middleware.name : Middleware → Text
  | .noMiddleware => lit "NO_MIDDLEWARE"
  | .zmq => lit "ZMQ"
  | .rti => lit "RTI"
  | .ospl => lit "OSPL"
  | .qpid => lit "QPID"
  | .tao => lit "TAO"

/-- `ParseMiddleware`. -/
def parseMiddleware (s : Text) : Middleware :=
  ([.zmq, .rti, .ospl, .qpid, .tao].find? fun m => m.name = s).getD .noMiddleware

/-- `NodeManager::Port::Kind`. -/
inductive PortKind
  | publisher
  | subscriber
  | requester
  | replier
  deriving DecidableEq, Repr

/-- A `NodeManager::Port`. -/
structure PortMessage where
  kind : PortKind
  type : Text
  namespaces : List Text
  middleware : Middleware
  deriving DecidableEq, Repr

namespace Document

variable (doc : Document)

/-- The target of the first edge of a kind from a node. -/
def firstTarget (kind : EdgeKind) (i : ℕ) : Option ℕ :=
  (doc.edges.find? fun e => e.kind = kind ∧ e.source = i).map (·.target)

/-- `GetDefinitionId`. -/
def getDefinitionId (i : ℕ) : Option ℕ := doc.firstTarget .definition i

/-- `GetAggregateId`. -/
def getAggregateId (i : ℕ) : Option ℕ := doc.firstTarget .aggregate i

/-- The loop of `GetNamespaceList`. -/
def namespaceLoop : ℕ → Option ℕ → List Text → List Text
  | n + 1, some i, namespaceList =>
    namespaceLoop n (doc.getParentNode i)
      (if doc.kind i = some .namespace_ then doc.getLabel i :: namespaceList else namespaceList)
  | _, _, namespaceList => namespaceList

/-- `GetNamespaceList`; there are no more nodes above a node than before it. -/
def getNamespaceList (i : Option ℕ) : List Text :=
  doc.namespaceLoop (i.getD 0 + 1) i []

/-- `GetPortKind`. -/
def getPortKind (i : ℕ) : Option PortKind :=
  match doc.kind i with
  | some .publisherPortInstance => some .publisher
  | some .subscriberPortInstance => some .subscriber
  | some .requesterPortInstance => some .requester
  | some .replierPortInstance => some .replier
  | _ => none

/-- `ConstructPubSubPortPb` and `ConstructReqRepPortPb`. -/
def constructPortPb (portId : ℕ) : Option PortMessage :=
  let aggregateId := (doc.getDefinitionId portId).bind doc.getAggregateId
  (doc.getPortKind portId).map fun kind =>
    { kind
      type := (aggregateId.map doc.getLabel).getD []
      namespaces := doc.getNamespaceList aggregateId
      middleware := parseMiddleware (doc.getMiddlewareData portId) }

end Document

/-! ## Names of the node manager (`deploymentcontainer.cpp`) -/

/-- `to_lower`, in the "C" locale. -/
def toLower (s : Text) : Text := s.map Char.toLower

/-- `GetNamespaceString`. -/
def getNamespaceString (namespaces : List Text) : Text := ['_'].intercalate namespaces

/-- `get_port_library_name`, of its parts. -/
def getPortLibraryName (portType middleware namespaceStr datatype : Text) : Text :=
  toLower (lit "port_" ++ (portType ++ lit "_") ++ (middleware ++ lit "_") ++
    (if namespaceStr ≠ [] then namespaceStr ++ lit "_" else []) ++ datatype)

/-- The type of the port that `GetConfiguredPort` constructs. -/
def PortKind.portType : PortKind → Text
  | .publisher | .subscriber => lit "pubsub"
  | .requester | .replier => lit "requestreply"

/-- The library that `GetConfiguredPort` loads. -/
def PortMessage.libraryName (port : PortMessage) : Text :=
  getPortLibraryName port.kind.portType port.middleware.name
    (getNamespaceString port.namespaces) port.type

/-- The library that is loaded for a port of a document. -/
def Document.loadedLibrary (doc : Document) (port : ℕ) : Option Text :=
  (doc.constructPortPb port).map (·.libraryName)

/-! ## What is promised -/

/-- The nodes that a port can be of. -/
def PortKind.datatypeKind : PortKind → NodeKind
  | .publisher | .subscriber => .aggregate
  | .requester | .replier => .serverInterface

/-- The values of `middleware` that a model can have. -/
def PortKind.middlewares : PortKind → List Text
  | .publisher | .subscriber => [lit "ZMQ", lit "RTI", lit "OSPL", lit "QPID"]
  | .requester | .replier => [lit "TAO", lit "ZMQ", lit "QPID"]

/-- The values are ASCII, and one word each. -/
theorem PortKind.middlewares_plain (kind : PortKind) : ∀ middleware ∈ kind.middlewares,
    (∀ c ∈ middleware, c.toNat < 128) ∧ (∀ c ∈ toLower middleware, c.toNat < 128) ∧
      toLower (toLower middleware) = toLower middleware ∧ toLower middleware ≠ [] ∧
        '_' ∉ toLower middleware := by
  cases kind <;> decide

theorem PortKind.middlewares_inj {kind kind' : PortKind} {middleware middleware' : Text}
    (h : middleware ∈ kind.middlewares) (h' : middleware' ∈ kind'.middlewares)
    (heq : toLower middleware = toLower middleware') : middleware = middleware' := by
  have hall : ∀ m ∈ kind.middlewares, ∀ m' ∈ kind'.middlewares, toLower m = toLower m' → m = m' := by
    cases kind <;> cases kind' <;> decide
  exact hall middleware h middleware' h' heq

namespace Document

variable (lc : LowerCase) (doc : Document)

/-- A port has a definition, which has an aggregate, or a server interface. -/
structure PortLinked (kind : PortKind) (port d a : ℕ) : Prop where
  definition : doc.getTargets port .definition = [d]
  definitionTop : doc.getTargets d .definition = []
  aggregate : doc.getTargets d .aggregate = [a]
  aggregateTop : doc.getTargets a .definition = []
  datatype : doc.kind a = some kind.datatypeKind
  middleware : doc.getMiddlewareData port ∈ kind.middlewares

/-- Every port has its aggregate. -/
def PortsLinked : Prop :=
  ∀ port kind, doc.getPortKind port = some kind → ∃ d a, doc.PortLinked kind port d a

/-- What is promised of the libraries. -/
structure LibraryLaw : Prop where
  /-- The library that is loaded for a port is the one that is generated for it. -/
  own : ∀ port, (doc.getPortKind port).isSome →
    doc.loadedLibrary port = doc.generatedLibrary lc port
  /-- Ports with one library have one middleware and one aggregate. -/
  apart : ∀ port port', (doc.getPortKind port).isSome → (doc.getPortKind port').isSome →
    doc.loadedLibrary port = doc.loadedLibrary port' →
      doc.getMiddlewareData port = doc.getMiddlewareData port' ∧
        doc.getPortAggregate port = doc.getPortAggregate port'
  /-- Different aggregates have different targets. -/
  aggregates : ∀ a ∈ doc.getNodesOfKind .aggregate, ∀ b ∈ doc.getNodesOfKind .aggregate, a ≠ b →
    ∀ middleware,
      doc.getAggregateSharedLibraryName lc [] a middleware ≠
        doc.getAggregateSharedLibraryName lc [] b middleware ∧
      doc.getPubsubModuleLibraryName lc [] a middleware ≠
        doc.getPubsubModuleLibraryName lc [] b middleware
  serverInterfaces : ∀ a ∈ doc.getNodesOfKind .serverInterface,
    ∀ b ∈ doc.getNodesOfKind .serverInterface, a ≠ b → ∀ middleware,
      doc.getRequestreplyModuleLibraryName lc [] a middleware ≠
        doc.getRequestreplyModuleLibraryName lc [] b middleware

/-- The labels around a node and its own. -/
def labels (i : ℕ) : List Text := doc.getNamespace i ++ [doc.getLabel i]

/-- The labels that the node manager joins: it has no namespaces if all it has is an empty one. -/
def loadedLabels (i : ℕ) : List Text :=
  if doc.getNamespace i = [[]] then [doc.getLabel i] else doc.labels i

/-- The words of a node: its labels in lower case, cut at the underscores. -/
def words (i : ℕ) : List Text :=
  (trimList (doc.labels i)).flatMap fun s => (lc.lower s).splitOn '_'

/-- The labels of ports' aggregates are not empty and in the case of ASCII, and aggregates differ
in their words. -/
structure WellLabelled : Prop where
  plain : ∀ port a, (doc.getPortKind port).isSome → doc.getPortAggregate port = some a →
    ∀ s ∈ doc.loadedLabels a, s ≠ [] ∧ lc.lower s = toLower s
  aggregates : ∀ a ∈ doc.getNodesOfKind .aggregate, ∀ b ∈ doc.getNodesOfKind .aggregate,
    doc.words lc a = doc.words lc b → a = b
  serverInterfaces : ∀ a ∈ doc.getNodesOfKind .serverInterface,
    ∀ b ∈ doc.getNodesOfKind .serverInterface, doc.words lc a = doc.words lc b → a = b

end Document

/-! ## Names and their words -/

section Names

variable (lc : LowerCase)

theorem joinList_nil_cons (s : Text) (token : Char) : joinList [[], s] token = s := by
  cases s <;> simp [joinList, trimList]

theorem trimList_append (l l' : List Text) : trimList (l ++ l') = trimList l ++ trimList l' :=
  List.filter_append l l'

theorem trimList_cons {s : Text} (h : s ≠ []) (l : List Text) :
    trimList (s :: l) = s :: trimList l := List.filter_cons_of_pos (by simpa using h)

theorem combineProjectLibraryName_nil (s : Text) :
    Document.combineProjectLibraryName lc [] s = lc.lower s := joinList_nil_cons _ _

/-- Names that begin alike are told apart by their words. -/
theorem lower_joinList_eq_iff {heads l l' : List Text} (hne : trimList heads ≠ []) :
    lc.lower (joinList (heads ++ l) '_') = lc.lower (joinList (heads ++ l') '_') ↔
      (trimList l).flatMap (fun s => (lc.lower s).splitOn '_') =
        (trimList l').flatMap fun s => (lc.lower s).splitOn '_' := by
  have hne' : ∀ l, trimList heads ++ trimList l ≠ [] := fun l h =>
    hne (List.append_eq_nil_iff.mp h).1
  rw [joinList, joinList, trimList_append, trimList_append, lc.lower_intercalate (hne' l),
    lc.lower_intercalate (hne' l'),
    intercalate_eq_iff (by simpa using hne' l) (by simpa using hne' l')]
  simp only [List.map_append, List.flatMap_append, List.flatMap_map, List.append_cancel_left_eq]

/-- **The node manager's name**, as a joined list. -/
theorem getPortLibraryName_eq (portType middleware datatype : Text) (namespaces : List Text) :
    getPortLibraryName portType middleware (getNamespaceString namespaces) datatype =
      ['_'].intercalate ((lit "port" :: portType :: middleware ::
        (if namespaces = [[]] then [datatype] else namespaces ++ [datatype])).map toLower) := by
  have hlower : ∀ l : List Text, l ≠ [] →
      toLower (['_'].intercalate l) = ['_'].intercalate (l.map toLower) :=
    fun l => asciiLower.lower_intercalate
  rw [← hlower _ (List.cons_ne_nil _ _), getPortLibraryName]
  congr 1
  by_cases hempty : namespaces = [[]]
  · subst hempty
    simp [getNamespaceString, lit]
  · rw [if_neg hempty]
    cases namespaces with
    | nil => simp [getNamespaceString, lit]
    | cons n ns =>
      have hne : getNamespaceString (n :: ns) ≠ [] := by
        cases ns with
        | nil => simpa [getNamespaceString] using hempty
        | cons n' ns => simp [getNamespaceString]
      rw [if_pos hne, List.intercalate_cons_of_ne_nil (by simp),
        List.intercalate_cons_of_ne_nil (by simp), List.intercalate_cons_of_ne_nil (by simp),
        intercalate_concat (List.cons_ne_nil n ns)]
      simp [getNamespaceString, lit]

end Names

/-! ## Ports and their aggregates -/

namespace Document

variable {doc : Document} {kind : PortKind} {port d a : ℕ}

theorem firstTarget_eq (kind : EdgeKind) (i : ℕ) :
    doc.firstTarget kind i = (doc.getTargets i kind).head? := by
  rw [firstTarget, getTargets, List.head?_map, List.head?_filter]

theorem namespaceLoop_eq {n i : ℕ} (h : i ≤ n) (namespaceList : List Text) :
    doc.namespaceLoop (n + 1) (some i) namespaceList =
      ((doc.getAncestorNodes i ++ [i]).filter (doc.kind · = some .namespace_)).map doc.getLabel ++
        namespaceList := by
  induction n generalizing i namespaceList with
  | zero =>
    obtain rfl : i = 0 := by omega
    rw [getAncestorNodes_eq, namespaceLoop]
    cases hp : doc.getParentNode 0 with
    | some p => exact absurd (lt_of_getParentNode hp) (by omega)
    | none => by_cases hk : doc.kind 0 = some .namespace_ <;> simp [namespaceLoop, hk]
  | succ n ih =>
    rw [getAncestorNodes_eq, namespaceLoop]
    cases hp : doc.getParentNode i with
    | none => by_cases hk : doc.kind i = some .namespace_ <;> simp [namespaceLoop, hk]
    | some p =>
      have hlt := lt_of_getParentNode hp
      rw [ih (by omega)]
      dsimp only
      rw [List.filter_append (doc.getAncestorNodes p ++ [p]) [i], List.map_append,
        List.append_assoc]
      by_cases hk : doc.kind i = some .namespace_ <;> simp [hk]

/-- The two programs agree on namespaces. -/
theorem getNamespaceList_eq (htop : doc.getTargets a .definition = [])
    (hkind : doc.kind a ≠ some .namespace_) :
    doc.getNamespaceList (some a) = doc.getNamespace a := by
  rw [getNamespaceList, Option.getD_some, namespaceLoop_eq (Nat.le_refl a), getNamespace,
    getDefinition_of_getTargets_nil htop, List.filter_append]
  simp [hkind]

theorem trimList_labels (a : ℕ) : trimList (doc.labels a) = trimList (doc.loadedLabels a) := by
  unfold loadedLabels
  split
  · rename_i hempty
    rw [labels, hempty, trimList_append]
    rfl
  · rfl

/-- A port's library is that of its aggregate, by the type of the port. -/
theorem generatedLibrary_of_getPortKind (lc : LowerCase)
    (hkind : doc.getPortKind port = some kind) :
    doc.generatedLibrary lc port = (doc.getPortAggregate port).map fun a =>
      combineProjectLibraryName lc [] (joinList (lit "port" :: kind.portType ::
        doc.getMiddleware lc port :: doc.labels a) '_') := by
  unfold getPortKind at hkind
  unfold generatedLibrary
  split at hkind <;> cases hkind <;> rfl

/-- Two joined lists that begin with the same parts of a port. -/
theorem intercalate_port_eq_iff {kind : PortKind} {middleware : Text} {l l' : List Text} :
    ['_'].intercalate ((lit "port" :: kind.portType :: middleware :: []).map toLower ++ l) =
        ['_'].intercalate ((lit "port" :: kind.portType :: middleware :: []).map toLower ++ l') ↔
      l.flatMap (List.splitOn '_') = l'.flatMap (List.splitOn '_') := by
  rw [intercalate_eq_iff (by simp) (by simp), List.flatMap_append, List.flatMap_append,
    List.append_cancel_left_eq]

namespace PortLinked

variable (h : doc.PortLinked kind port d a)

include h

/-- The two programs agree on the aggregate of a port. -/
theorem getPortAggregate_eq : doc.getPortAggregate port = some a := by
  rw [getPortAggregate, getDefinition_of_getTargets h.definition h.definitionTop]
  simp only [h.aggregate]

theorem constructPortPb_eq (hkind : doc.getPortKind port = some kind) :
    doc.constructPortPb port = some
      { kind, type := doc.getLabel a, namespaces := doc.getNamespace a,
        middleware := parseMiddleware (doc.getMiddlewareData port) } := by
  have hne : doc.kind a ≠ some .namespace_ := by
    rw [h.datatype]
    cases kind <;> decide
  simp [constructPortPb, getDefinitionId, getAggregateId, firstTarget_eq, h.definition,
    h.aggregate, hkind, getNamespaceList_eq h.aggregateTop hne]

/-- The values that a model can have are names of middlewares. -/
theorem name_parseMiddleware :
    (parseMiddleware (doc.getMiddlewareData port)).name = doc.getMiddlewareData port := by
  have hmem := h.middleware
  generalize doc.getMiddlewareData port = middleware at hmem
  revert middleware
  cases kind <;> decide

/-- **The library that is loaded.** -/
theorem loadedLibrary_eq (hkind : doc.getPortKind port = some kind) :
    doc.loadedLibrary port = some (['_'].intercalate
      ((lit "port" :: kind.portType :: doc.getMiddlewareData port :: doc.loadedLabels a).map
        toLower)) := by
  rw [loadedLibrary, h.constructPortPb_eq hkind, Option.map_some, PortMessage.libraryName,
    getPortLibraryName_eq, h.name_parseMiddleware]
  rfl

/-- **The library that is generated.** -/
theorem generatedLibrary_eq (lc : LowerCase) (hkind : doc.getPortKind port = some kind) :
    doc.generatedLibrary lc port = some (['_'].intercalate
      ((lit "port" :: kind.portType :: doc.getMiddlewareData port :: []).map toLower ++
        (trimList (doc.labels a)).map lc.lower)) := by
  obtain ⟨hascii, hascii', htwice, hne, -⟩ := kind.middlewares_plain _ h.middleware
  rw [generatedLibrary_of_getPortKind lc hkind, h.getPortAggregate_eq, Option.map_some,
    combineProjectLibraryName_nil]
  have hlower : ∀ s : Text, (∀ c ∈ s, c.toNat < 128) → lc.lower s = toLower s := lc.lower_ascii
  have htype : kind.portType ≠ [] ∧ ∀ c ∈ kind.portType, c.toNat < 128 := by
    cases kind <;> decide
  rw [joinList, trimList_cons (by decide), trimList_cons htype.1, getMiddleware, hlower _ hascii,
    trimList_cons hne, lc.lower_intercalate (List.cons_ne_nil _ _), List.map_cons, List.map_cons,
    List.map_cons, hlower (lit "port") (by decide), hlower _ htype.2, hlower _ hascii', htwice]
  rfl

/-- **A port's own library.** -/
theorem own_iff (lc : LowerCase) (hkind : doc.getPortKind port = some kind) :
    doc.loadedLibrary port = doc.generatedLibrary lc port ↔
      ∀ s ∈ doc.loadedLabels a, s ≠ [] ∧ lc.lower s = toLower s := by
  rw [h.loadedLibrary_eq hkind, h.generatedLibrary_eq lc hkind, Option.some.injEq]
  have hsplit : (lit "port" :: kind.portType :: doc.getMiddlewareData port ::
      doc.loadedLabels a).map toLower = (lit "port" :: kind.portType ::
        doc.getMiddlewareData port :: []).map toLower ++ (doc.loadedLabels a).map toLower := rfl
  rw [hsplit, intercalate_port_eq_iff, List.flatMap_map, List.flatMap_map, trimList_labels]
  -- lower case leaves the number of words as it is, so that no label is left out
  have hlength : ∀ s, ((toLower s).splitOn '_').length = ((lc.lower s).splitOn '_').length := by
    intro s
    rw [lc.length_splitOn_lower]
    exact asciiLower.length_splitOn_lower s
  constructor
  · intro heq
    have hkept : ∀ s ∈ doc.loadedLabels a, decide (s ≠ []) = true :=
      forall_of_length_flatMap_filter (fun s => length_splitOn_pos _) hlength
        (congrArg List.length heq)
    rw [trimList, List.filter_eq_self.mpr hkept, flatMap_eq_iff fun s _ => hlength s] at heq
    exact fun s hs => ⟨by simpa using hkept s hs, (splitOn_inj.mp (heq s hs)).symm⟩
  · intro hplain
    rw [trimList, List.filter_eq_self.mpr fun s hs => by simpa using (hplain s hs).1,
      flatMap_eq_iff fun s _ => hlength s]
    exact fun s hs => by rw [(hplain s hs).2]

end PortLinked

/-! ## The law -/

variable {lc : LowerCase}

/-- Two nodes have the same name exactly if they have the same words. -/
theorem name_eq_iff {head : Text} (hne : head ≠ []) (heads : List Text) (b : ℕ) :
    combineProjectLibraryName lc [] (joinList (head :: heads ++ doc.labels a) '_') =
        combineProjectLibraryName lc [] (joinList (head :: heads ++ doc.labels b) '_') ↔
      doc.words lc a = doc.words lc b := by
  rw [combineProjectLibraryName_nil, combineProjectLibraryName_nil, lower_joinList_eq_iff]
  · rfl
  · rw [trimList_cons hne]
    exact List.cons_ne_nil _ _

theorem getAggregateSharedLibraryName_eq_iff (middleware : Text) (b : ℕ) :
    doc.getAggregateSharedLibraryName lc [] a middleware =
        doc.getAggregateSharedLibraryName lc [] b middleware ↔
      doc.words lc a = doc.words lc b :=
  name_eq_iff (by decide) [_] b

theorem getPubsubModuleLibraryName_eq_iff (middleware : Text) (b : ℕ) :
    doc.getPubsubModuleLibraryName lc [] a middleware =
        doc.getPubsubModuleLibraryName lc [] b middleware ↔
      doc.words lc a = doc.words lc b :=
  name_eq_iff (by decide) [_, _] b

theorem getRequestreplyModuleLibraryName_eq_iff (middleware : Text) (b : ℕ) :
    doc.getRequestreplyModuleLibraryName lc [] a middleware =
        doc.getRequestreplyModuleLibraryName lc [] b middleware ↔
      doc.words lc a = doc.words lc b :=
  name_eq_iff (by decide) [_, _] b

theorem words_of_plain
    (hplain : ∀ s ∈ doc.loadedLabels a, s ≠ [] ∧ lc.lower s = toLower s) :
    doc.words lc a = (doc.loadedLabels a).flatMap fun s => (toLower s).splitOn '_' := by
  rw [words, trimList_labels, trimList,
    List.filter_eq_self.mpr fun s hs => by simpa using (hplain s hs).1,
    flatMap_eq_iff fun s hs => by rw [(hplain s hs).2]]
  exact fun s hs => by rw [(hplain s hs).2]

/-- What is told by the library of a port. -/
theorem loadedLibrary_inj {kind' : PortKind} {port' d' a' : ℕ}
    (h : doc.PortLinked kind port d a) (h' : doc.PortLinked kind' port' d' a')
    (hkind : doc.getPortKind port = some kind) (hkind' : doc.getPortKind port' = some kind')
    (heq : doc.loadedLibrary port = doc.loadedLibrary port') :
    kind.datatypeKind = kind'.datatypeKind ∧
      doc.getMiddlewareData port = doc.getMiddlewareData port' ∧
      ((doc.loadedLabels a).flatMap fun s => (toLower s).splitOn '_') =
        (doc.loadedLabels a').flatMap fun s => (toLower s).splitOn '_' := by
  rw [h.loadedLibrary_eq hkind, h'.loadedLibrary_eq hkind', Option.some.injEq,
    intercalate_eq_iff (by simp) (by simp)] at heq
  -- the first three parts are words
  have hwords : ∀ (kind : PortKind) (middleware : Text) (l : List Text),
      middleware ∈ kind.middlewares →
        ((lit "port" :: kind.portType :: middleware :: l).map toLower).flatMap
            (List.splitOn '_') =
          lit "port" :: kind.portType :: toLower middleware ::
            l.flatMap fun s => (toLower s).splitOn '_' := by
    intro kind middleware l hmem
    have htype : toLower kind.portType = kind.portType ∧ '_' ∉ kind.portType := by
      cases kind <;> decide
    have hport : toLower (lit "port") = lit "port" := by decide
    rw [List.map_cons, List.map_cons, List.map_cons, List.flatMap_cons, List.flatMap_cons,
      List.flatMap_cons, List.flatMap_map, hport, htype.1,
      List.splitOn_eq_singleton (by decide : '_' ∉ lit "port"),
      List.splitOn_eq_singleton htype.2,
      List.splitOn_eq_singleton (kind.middlewares_plain _ hmem).2.2.2.2]
    rfl
  rw [hwords kind _ _ h.middleware, hwords kind' _ _ h'.middleware] at heq
  simp only [List.cons.injEq, true_and] at heq
  obtain ⟨htype, hmiddleware, hlabels⟩ := heq
  refine ⟨?_, ?_, hlabels⟩
  · cases kind <;> cases kind' <;> first | rfl | exact absurd htype (by decide)
  · exact PortKind.middlewares_inj h.middleware h'.middleware hmiddleware

/-- **The libraries of ports**: what is promised holds exactly of the documents in which the labels
around the aggregates of ports are not empty and in the case of ASCII, and no two aggregates and no
two server interfaces have the same words between their underscores. -/
theorem libraryLaw_iff (lc : LowerCase) (doc : Document) (hports : doc.PortsLinked) :
    doc.LibraryLaw lc ↔ doc.WellLabelled lc := by
  constructor
  · intro h
    refine ⟨fun port a hport ha => ?_, fun a ha b hb hwords => ?_, fun a ha b hb hwords => ?_⟩
    · obtain ⟨kind, hkind⟩ := Option.isSome_iff_exists.mp hport
      obtain ⟨d, a', hlinked⟩ := hports port kind hkind
      obtain rfl := Option.some.inj (hlinked.getPortAggregate_eq.symm.trans ha)
      exact (hlinked.own_iff lc hkind).mp (h.own port hport)
    · by_contra hne
      exact (h.aggregates a ha b hb hne []).1 ((getAggregateSharedLibraryName_eq_iff [] b).mpr hwords)
    · by_contra hne
      exact h.serverInterfaces a ha b hb hne []
        ((getRequestreplyModuleLibraryName_eq_iff [] b).mpr hwords)
  · intro h
    refine ⟨fun port hport => ?_, fun port port' hport hport' heq => ?_,
      fun a ha b hb hne middleware => ⟨fun heq => ?_, fun heq => ?_⟩,
      fun a ha b hb hne middleware heq => ?_⟩
    · obtain ⟨kind, hkind⟩ := Option.isSome_iff_exists.mp hport
      obtain ⟨d, a, hlinked⟩ := hports port kind hkind
      exact (hlinked.own_iff lc hkind).mpr (h.plain port a hport hlinked.getPortAggregate_eq)
    · obtain ⟨kind, hkind⟩ := Option.isSome_iff_exists.mp hport
      obtain ⟨kind', hkind'⟩ := Option.isSome_iff_exists.mp hport'
      obtain ⟨d, a, hlinked⟩ := hports port kind hkind
      obtain ⟨d', a', hlinked'⟩ := hports port' kind' hkind'
      obtain ⟨hdatatype, hmiddleware, hlabels⟩ :=
        loadedLibrary_inj hlinked hlinked' hkind hkind' heq
      have hwords : doc.words lc a = doc.words lc a' := by
        rw [words_of_plain (h.plain port a hport hlinked.getPortAggregate_eq),
          words_of_plain (h.plain port' a' hport' hlinked'.getPortAggregate_eq), hlabels]
      refine ⟨hmiddleware, ?_⟩
      rw [hlinked.getPortAggregate_eq, hlinked'.getPortAggregate_eq]
      have ha := mem_getNodesOfKind hlinked.datatype
      have ha' := mem_getNodesOfKind hlinked'.datatype
      rw [← hdatatype] at ha'
      cases kind with
      | publisher | subscriber => exact congrArg some (h.aggregates a ha a' ha' hwords)
      | requester | replier => exact congrArg some (h.serverInterfaces a ha a' ha' hwords)
    · exact hne (h.aggregates a ha b hb ((getAggregateSharedLibraryName_eq_iff _ b).mp heq))
    · exact hne (h.aggregates a ha b hb ((getPubsubModuleLibraryName_eq_iff _ b).mp heq))
    · exact hne
        (h.serverInterfaces a ha b hb ((getRequestreplyModuleLibraryName_eq_iff _ b).mp heq))

/-! ## Documents with two ports -/

instance (kind : PortKind) (port d a : ℕ) : Decidable (doc.PortLinked kind port d a) :=
  decidable_of_iff (doc.getTargets port .definition = [d] ∧ doc.getTargets d .definition = [] ∧
      doc.getTargets d .aggregate = [a] ∧ doc.getTargets a .definition = [] ∧
      doc.kind a = some kind.datatypeKind ∧ doc.getMiddlewareData port ∈ kind.middlewares)
    ⟨fun ⟨h1, h2, h3, h4, h5, h6⟩ => ⟨h1, h2, h3, h4, h5, h6⟩,
      fun ⟨h1, h2, h3, h4, h5, h6⟩ => ⟨h1, h2, h3, h4, h5, h6⟩⟩

theorem lt_of_getPortKind (h : (doc.getPortKind port).isSome) : port < doc.nodes.length := by
  by_contra hge
  have hnone : doc.kind port = none := by
    rw [kind, List.getElem?_eq_none (by omega)]
    rfl
  simp [getPortKind, hnone] at h

theorem portsLinked_of_forall (h : ∀ port < doc.nodes.length, ∀ kind ∈ doc.getPortKind port,
    ∃ d < doc.nodes.length, ∃ a < doc.nodes.length, doc.PortLinked kind port d a) :
    doc.PortsLinked := by
  intro port kind hkind
  obtain ⟨d, -, a, -, hlinked⟩ :=
    h port (lt_of_getPortKind (by rw [hkind]; rfl)) kind hkind
  exact ⟨d, a, hlinked⟩

/-- Publishers of two aggregates, each in a namespace; aggregates of the same labels are outside. -/
def twoPorts (namespace₁ label₁ namespace₂ label₂ : String) : Document where
  nodes := [
    { kind := .model },
    { kind := .namespace_, parent := some 0, label := lit namespace₁ },
    { kind := .aggregate, parent := some 1, label := lit label₁,
      type := lit namespace₁ ++ lit "::" ++ lit label₁ },
    { kind := .member, parent := some 2, label := lit "value" },
    { kind := .namespace_, parent := some 0, label := lit namespace₂ },
    { kind := .aggregate, parent := some 4, label := lit label₂,
      type := lit namespace₂ ++ lit "::" ++ lit label₂ },
    { kind := .member, parent := some 5, label := lit "value" },
    { kind := .aggregate, parent := some 0, label := lit label₁, type := lit label₁ },
    { kind := .member, parent := some 7, label := lit "value" },
    { kind := .aggregate, parent := some 0, label := lit label₂, type := lit label₂ },
    { kind := .member, parent := some 9, label := lit "value" },
    { kind := .component, parent := some 0, label := lit "Sender", type := lit "Sender" },
    { kind := .publisherPort, parent := some 11, label := lit "first" },
    { kind := .publisherPort, parent := some 11, label := lit "second" },
    { kind := .componentInstance, parent := some 0, label := lit "sender" },
    { kind := .publisherPortInstance, parent := some 14, label := lit "first",
      middleware := lit "ZMQ" },
    { kind := .publisherPortInstance, parent := some 14, label := lit "second",
      middleware := lit "ZMQ" }]
  edges := [⟨.aggregate, 12, 2⟩, ⟨.aggregate, 13, 5⟩, ⟨.definition, 14, 11⟩, ⟨.definition, 15, 12⟩,
    ⟨.definition, 16, 13⟩]
  parent_lt := by simp [List.zipIdx]

/-- Namespaces without underscores. -/
theorem libraryLaw_iff_apart : (twoPorts "A" "B_C" "D" "C").PortsLinked ∧
    (twoPorts "A" "B_C" "D" "C").LibraryLaw asciiLower := by
  have hports : (twoPorts "A" "B_C" "D" "C").PortsLinked :=
    portsLinked_of_forall (by decide +kernel)
  have hlabels : ∀ port < (twoPorts "A" "B_C" "D" "C").nodes.length,
      ∀ a ∈ (twoPorts "A" "B_C" "D" "C").getPortAggregate port,
        ((twoPorts "A" "B_C" "D" "C").getPortKind port).isSome →
          ∀ s ∈ (twoPorts "A" "B_C" "D" "C").loadedLabels a, s ≠ [] := by decide +kernel
  exact ⟨hports, (libraryLaw_iff asciiLower _ hports).mpr
    ⟨fun port a hport ha s hs => ⟨hlabels port (lt_of_getPortKind hport) a ha hport s hs, rfl⟩,
      by decide +kernel, by decide +kernel⟩⟩

/-- `B_C` in `A` and `C` in `A_B` have the same library. -/
theorem not_libraryLaw : (twoPorts "A" "B_C" "A_B" "C").labelTests asciiLower = true ∧
    (twoPorts "A" "B_C" "A_B" "C").PortsLinked ∧
    (twoPorts "A" "B_C" "A_B" "C").loadedLibrary 15 = some (lit "port_pubsub_zmq_a_b_c") ∧
    (twoPorts "A" "B_C" "A_B" "C").loadedLibrary 16 = some (lit "port_pubsub_zmq_a_b_c") ∧
    ¬ (twoPorts "A" "B_C" "A_B" "C").LibraryLaw asciiLower := by
  refine ⟨by decide +kernel, portsLinked_of_forall (by decide +kernel), by decide +kernel,
    by decide +kernel, fun h => ?_⟩
  have hsame := (h.apart 15 16 (by decide +kernel) (by decide +kernel) (by decide +kernel)).2
  revert hsame
  decide +kernel

end Document

end Sem.ReGen
