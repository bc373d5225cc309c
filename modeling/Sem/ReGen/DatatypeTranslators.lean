import Sem.Lib.Decimal
import Sem.Lib.Filling
import Sem.ReGen.GeneralFunctions
import Mathlib.Data.Rat.Defs
import Mathlib.Algebra.Order.Ring.Unbundled.Rat
import Mathlib.Data.List.FinRange

/-!
# Generated translators (`datatype_functions.xsl`, `cdit_functions.xsl`)

For each aggregate the code generator writes a translator from the class of the component to that of
a middleware, and one back. The members of an aggregate that the text of a translator depends on are
an `Element`. What is in a message of a middleware is a `Message`.

The functions of the generator that choose between statements return the statement (`Getter`,
`Setter`, `AddStatement`), and `getTranslateFunctionCpp` runs what they return.
-/

namespace Sem.ReGen

open Xml (Text)

/-! ## Definitions -/

/-- The middlewares that have datatypes of their own. -/
inductive DatatypeMiddleware
  | base
  | proto
  | rti
  | ospl
  | tao
  deriving DecidableEq, Repr

/-- The types of a `Member`. -/
inductive PrimitiveType
  | string
  | boolean
  | character
  | integer
  | float
  | double
  deriving DecidableEq, Repr

/-- The `primitive_type` of a `Member`, which CORBA has more of. -/
inductive CorbaType
  | short
  | unsignedShort
  | long
  | longLong
  | unsignedLong
  | unsignedLongLong
  | float
  | double
  | char
  | string
  | boolean
  | octet
  deriving DecidableEq, Repr

/-- A `Vector`, without its child. -/
structure Vector where
  isArray : Bool := false
  arraySize : Option ℕ := none
  sequenceSize : Option ℕ := none
  /-- An array has a size. -/
  sized : isArray = true → arraySize.isSome = true := by decide
  deriving DecidableEq

/-- What a child of an aggregate is, or a child of a `Vector`. An `AggregateInstance` has the children
of its definition: `child i` is the `i`-th, or the child of the `Vector` there. -/
inductive Element
  | member (type : PrimitiveType) (primitiveType : Option CorbaType)
  | enumInstance
  | aggregateInstance (isUnion : Bool) (n : ℕ) (label : Fin n → Text)
      (vector : Fin n → Option Vector) (child : Fin n → Element)

/-- The `kind` of a child, as far as the functions ask for it. -/
inductive ChildKind
  | member
  | enumInstance
  | aggregateInstance
  | vector
  deriving DecidableEq, Repr

/-- The kind of a child that is no vector. -/
def Element.kind : Element → ChildKind
  | member _ _ => .member
  | enumInstance => .enumInstance
  | aggregateInstance .. => .aggregateInstance

/-- The types of C++ that members have. -/
inductive CppType
  | string
  | bool
  | char
  | int
  | float
  | double
  | int16
  | uint16
  | int32
  | int64
  | uint32
  | uint64
  | uint8
  deriving DecidableEq, Repr

/-- `cpp:get_primitive_type`. -/
def getPrimitiveType : PrimitiveType → CppType
  | .string => .string
  | .boolean => .bool
  | .character => .char
  | .integer => .int
  | .float => .float
  | .double => .double

/-- `cpp:get_corba_primitive_type`. -/
def getCorbaPrimitiveType : CorbaType → CppType
  | .short => .int16
  | .unsignedShort => .uint16
  | .long => .int32
  | .longLong => .int64
  | .unsignedLong => .uint32
  | .unsignedLongLong => .uint64
  | .float => .float
  | .double => .double
  | .char => .char
  | .string => .string
  | .boolean => .bool
  | .octet => .uint8

/-- What is in a `Member`. -/
inductive Datum
  | text (t : Text)
  | number (q : ℚ)
  deriving DecidableEq

/-- A string of C ends at its first null character. -/
def Datum.cString : Datum → Datum
  | text t => text (t.takeWhile (· ≠ '\x00'))
  | number q => number q

namespace CppType

/-- The least and the greatest value of an integer type. -/
def range : CppType → Option (ℤ × ℤ)
  | bool => some (0, 1)
  | char => some (-2 ^ 7, 2 ^ 7 - 1)
  | int | int32 => some (-2 ^ 31, 2 ^ 31 - 1)
  | int16 => some (-2 ^ 15, 2 ^ 15 - 1)
  | uint16 => some (0, 2 ^ 16 - 1)
  | int64 => some (-2 ^ 63, 2 ^ 63 - 1)
  | uint32 => some (0, 2 ^ 32 - 1)
  | uint64 => some (0, 2 ^ 64 - 1)
  | uint8 => some (0, 2 ^ 8 - 1)
  | string | float | double => none

/-- The digits of the significand, and the least and the greatest exponent of a digit. -/
def format : CppType → Option (ℕ × ℕ × ℕ)
  | float => some (24, 149, 104)
  | double => some (53, 1074, 971)
  | _ => none

/-- The significand has these digits, and the exponent is one of the type. -/
def Binary (digits least greatest : ℕ) (q : ℚ) : Prop :=
  (q * 2 ^ least).den = 1 ∧ ∃ e ≤ least + greatest,
    2 ^ e ∣ (q * 2 ^ least).num.natAbs ∧ (q * 2 ^ least).num.natAbs / 2 ^ e < 2 ^ digits

instance (digits least greatest : ℕ) (q : ℚ) : Decidable (Binary digits least greatest q) :=
  inferInstanceAs (Decidable (_ ∧ ∃ e ≤ _, _))

/-- A number of the type. -/
def HoldsNumber (type : CppType) (q : ℚ) : Prop :=
  match type.range, type.format with
  | some (least, greatest), _ => q.den = 1 ∧ least ≤ q.num ∧ q.num ≤ greatest
  | none, some (digits, least, greatest) => Binary digits least greatest q
  | none, none => False

instance (type : CppType) (q : ℚ) : Decidable (type.HoldsNumber q) := by
  unfold HoldsNumber
  split <;> infer_instance

/-- A value of the type. -/
def Holds (type : CppType) : Datum → Prop
  | .text _ => type = string
  | .number q => type.HoldsNumber q

instance (type : CppType) (d : Datum) : Decidable (type.Holds d) := by
  cases d <;> unfold Holds <;> infer_instance

/-- `std::is_unsigned`. -/
def isUnsigned : CppType → Bool
  | bool | uint16 | uint32 | uint64 | uint8 => true
  | _ => false

/-- `std::is_signed`. -/
def isSigned : CppType → Bool
  | char | int | int16 | int32 | int64 | float | double => true
  | _ => false

/-- `std::numeric_limits::max`. -/
def max (type : CppType) : ℚ :=
  match type.range, type.format with
  | some (_, greatest), _ => greatest
  | none, some (digits, _, greatest) => (2 ^ digits - 1) * 2 ^ greatest
  | none, none => 0

/-- The type in which the language compares two numbers. -/
def common (a b : CppType) : CppType :=
  if a = double ∨ b = double then double
  else if a = float ∨ b = float then float
  else if a = uint64 ∨ b = uint64 then uint64
  else if a = int64 ∨ b = int64 then int64
  else if a = uint32 ∨ b = uint32 then uint32
  else int

/-- `typeid(T).name()`, with the names of the Itanium ABI. -/
def typeidName : CppType → Text
  | string => lit "NSt7__cxx1112basic_stringIcSt11char_traitsIcESaIcEEE"
  | bool => lit "b"
  | char => lit "c"
  | int | int32 => lit "i"
  | float => lit "f"
  | double => lit "d"
  | int16 => lit "s"
  | uint16 => lit "t"
  | int64 => lit "l"
  | uint32 => lit "j"
  | uint64 => lit "m"
  | uint8 => lit "h"

end CppType

section Primitives

-- `narrow` is what the language makes of a number that is none of the type: it wraps, it is rounded,
-- or this is not defined.
variable (narrow : CppType → ℚ → ℚ)

/-- An implicit conversion. -/
def convert (type : CppType) (q : ℚ) : ℚ := if type.HoldsNumber q then q else narrow type q

/-- `TranslatePrimitive`. -/
def translatePrimitive (source target : CppType) (value : ℚ) : Except Text ℚ :=
  let translated := convert narrow target value
  let compared := convert narrow (source.common target)
  if source.isSigned ∧ target.isUnsigned ∧ value < 0 then
    .error (lit "Can't convert from negative to Unsigned")
  else if source.isUnsigned ∧ target.max < value then
    .error (lit "Can't convert from large unsigned to other type")
  else if compared translated ≠ compared value then
    .error (lit "Can't convert from type: '" ++ source.typeidName ++ lit "' TO '" ++
      target.typeidName ++ lit "'")
  else .ok translated

/-- `cdit:translate_primitive_member`. -/
def translatePrimitiveMember (type : PrimitiveType) (primitiveType : Option CorbaType)
    (source : DatatypeMiddleware) (value : Datum) : Except Text Datum :=
  let baseType := getPrimitiveType type
  match primitiveType.map getCorbaPrimitiveType, value with
  | some otherType, .number q =>
    if baseType ≠ otherType then
      (if source = .base then translatePrimitive narrow baseType otherType q
        else translatePrimitive narrow otherType baseType q).map .number
    else .ok value
  | _, _ => .ok value

end Primitives

/-! ## Statements for the middlewares -/

/-- `cdit:middleware_requires_idl_file`. -/
def middlewareRequiresIdlFile : DatatypeMiddleware → Bool
  | .rti | .ospl | .tao => true
  | .base | .proto => false

/-- `cdit:middleware_handles_union`. -/
def middlewareHandlesUnion : DatatypeMiddleware → Bool
  | .tao | .rti | .ospl | .base => true
  | .proto => false

/-- What a middleware has of the value of a `Member`. A `String` of `tao` is a `char *`: it is set with
`.c_str()` (`resolved_value` of `cdit:invoke_middleware_set_function`, `set_value` of
`cdit:invoke_middleware_add_vector_function`) and read as `std::string(...)`
(`cdit:invoke_middleware_get_function`). -/
def stringWrapped (middleware : DatatypeMiddleware) (type : PrimitiveType) (value : Datum) : Datum :=
  if middleware = .tao ∧ type = .string then value.cString else value

/-- How the `i`-th element of a `Vector` is stored. -/
inductive AddStatement
  /-- `out->x[i] = v` or `out->x()[i] = v`. -/
  | store
  /-- `if(i == 0) out->x.length(size); out->x[i] = v`. -/
  | lengthStore
  /-- `out->x().resize(i, v)`. -/
  | resize
  /-- `out->mutable_x()->AddAllocated(v)`. -/
  | addAllocated
  /-- `out->add_x(v)`. -/
  | add
  /-- `out->x().emplace_back(v)`. -/
  | emplaceBack
  deriving DecidableEq, Repr

/-- `cdit:invoke_middleware_add_vector_function`. -/
def invokeMiddlewareAddVectorFunction (vector : Vector) (vectorKind : ChildKind)
    (middleware : DatatypeMiddleware) : AddStatement :=
  if vector.isArray ∧ middlewareRequiresIdlFile middleware then .store
  else match middleware with
    | .tao => .lengthStore
    | .rti | .ospl => .resize
    | .proto => if vectorKind = .aggregateInstance then .addAllocated else .add
    | .base => .emplaceBack

/-- What is in the field of a child, if that is in it of which there are many in a `Vector`. -/
abbrev Slot (vector : Option Vector) (α : Type) : Type :=
  match vector with
  | none => α
  | some _ => List α

/-- The values of an element. The tag is the discriminator of a union. -/
def Message (middleware : DatatypeMiddleware) : Element → Type
  | .member _ _ => Datum
  | .enumInstance => ℕ
  | .aggregateInstance _ n _ vector child =>
    TaggedRecord (Fin n) fun i => Slot (vector i) (Message middleware (child i))

/-- The default of a type. -/
def PrimitiveType.fresh : PrimitiveType → Datum
  | .string => .text []
  | _ => .number 0

/-- The elements of a vector at first: the arrays of IDL have their size. -/
def freshList (middleware : DatatypeMiddleware) {α : Type} (fresh : α) (vector : Vector) : List α :=
  if vector.isArray ∧ middlewareRequiresIdlFile middleware then
    List.replicate (vector.arraySize.getD 0) fresh
  else []

/-- What is in a field at first. -/
def freshSlot (middleware : DatatypeMiddleware) {α : Type} (fresh : α) :
    (vector : Option Vector) → Slot vector α
  | none => fresh
  | some vector => freshList middleware fresh vector

/-- A value that nothing was set in. -/
def fresh (middleware : DatatypeMiddleware) : (e : Element) → Message middleware e
  | .member type _ => type.fresh
  | .enumInstance => (0 : ℕ)
  | .aggregateInstance _ _ _ vector child =>
    { tag := none
      field := fun i => freshSlot middleware (fresh middleware (child i)) (vector i) }

/-! ## Translators -/

section Translators

variable (narrow : CppType → ℚ → ℚ) (source target : DatatypeMiddleware)

/-- Run the statement of `cdit:invoke_middleware_add_vector_function`. -/
def AddStatement.run {α : Type} (size i : ℕ) (fresh v : α) (xs : List α) : AddStatement → List α
  | store => xs.set i v
  | lengthStore => (if i = 0 then Sem.resize xs size fresh else xs).set i v
  | resize => Sem.resize xs i v
  | addAllocated | add | emplaceBack => xs ++ [v]

/-- The name of a `kind`. -/
def ChildKind.text : ChildKind → Text
  | member => lit "Member"
  | enumInstance => lit "EnumInstance"
  | aggregateInstance => lit "AggregateInstance"
  | vector => lit "Vector"

/-- The name of a `type`. -/
def PrimitiveType.text : PrimitiveType → Text
  | string => lit "String"
  | boolean => lit "Boolean"
  | character => lit "Character"
  | integer => lit "Integer"
  | float => lit "Float"
  | double => lit "Double"

/-- The namespace of a middleware. -/
def DatatypeMiddleware.text : DatatypeMiddleware → Text
  | base => lit "base"
  | proto => lit "proto"
  | rti => lit "rti"
  | ospl => lit "ospl"
  | tao => lit "tao"

/-- `cdit:translate_member`: what is set in the field. -/
def translateMember (label : Text) (type : PrimitiveType) (primitiveType : Option CorbaType)
    (value : Datum) : Except Text Datum :=
  ((translatePrimitiveMember narrow type primitiveType source (stringWrapped source type value)).map
    (stringWrapped target type)).mapError fun what =>
      lit "Translating Member '" ++ label ++ lit "' [" ++ type.text ++ lit "] Failed: " ++ what

/-- `size` of the loop in `cdit:translate_vector`. -/
def vectorSize (vector : Vector) {α : Type} (xs : List α) : ℕ :=
  if vector.isArray ∧ middlewareRequiresIdlFile source then vector.arraySize.getD 0 else xs.length

/-- `max_size` in `cdit:translate_vector`, where `test_size` holds. -/
def maxSize (vector : Vector) : Option ℕ :=
  if vector.isArray then vector.arraySize else vector.sequenceSize

/-- The elements that the loop in `cdit:translate_vector` reads. -/
def readElements (vector : Vector) {α : Type} (fresh : α) (xs : List α) : List α :=
  (List.range (vectorSize source vector xs)).map fun i => xs.getD i fresh

/-- What an exception in the loop becomes. -/
def elementFailed (vectorKind : ChildKind) (i : ℕ) (what : Text) : Text :=
  lit "Translating Vector " ++ vectorKind.text ++ lit " @ i = " ++ decimal i ++ lit "Failed: " ++ what

/-- What an exception for a vector becomes. -/
def vectorFailed (label what : Text) : Text :=
  lit "Translating Vector '" ++ label ++ lit "' From: [" ++ source.text ++ lit "] To: [" ++
    target.text ++ lit "]: Failed: " ++ what

/-- `cdit:translate_vector`, with the translator of its elements: `change` changes the field of the
message. -/
def translateVector {α β R : Type} (label : Text) (vector : Vector) (vectorKind : ChildKind)
    (freshSource : α) (freshTarget : β) (translate : α → Except Text β)
    (change : (List β → List β) → R → R) (value : List α) (out : R) : Except Text R :=
  let size := vectorSize source vector value
  if middlewareRequiresIdlFile target ∧ ∃ max ∈ maxSize vector, max < size then
    .error (vectorFailed source target label (lit "Trying to fit: " ++ decimal size ++
      lit " elements when max length is: " ++ decimal ((maxSize vector).getD 0)))
  else
    ((readElements source vector freshSource value).zipIdx.foldlM
      (fun out p => ((translate p.1).mapError (elementFailed vectorKind p.2)).map fun v =>
        change ((invokeMiddlewareAddVectorFunction vector vectorKind target).run size p.2 freshTarget
          v) out) out).mapError (vectorFailed source target label)

/-- What is set in the field of a child that is no `Vector`. -/
def translatePlain (label : Text) :
    (e : Element) → (Message source e → Except Text (Message target e)) → Message source e →
      Except Text (Message target e)
  | .member type primitiveType, _ => translateMember narrow source target label type primitiveType
  -- `cdit:translate_enum_instance` casts to the `int` and to the enum.
  | .enumInstance, _ => fun ordinal => .ok ordinal
  -- `cdit:translate_aggregate_instance`
  | .aggregateInstance .., translate => translate

/-- The statements for a child in `cdit:get_translate_function_cpp`. -/
def translateChild {R : Type} (label : Text) :
    (vector : Option Vector) → (e : Element) →
      (Message source e → Except Text (Message target e)) →
      ((Slot vector (Message target e) → Slot vector (Message target e)) → R → R) →
      Slot vector (Message source e) → R → Except Text R
  | none, e, translate, change => fun value out =>
    (translatePlain narrow source target label e translate value).map fun v =>
      change (fun _ => v) out
  | some vector, e, translate, change =>
    translateVector source target label vector e.kind (fresh source e) (fresh target e) translate
      change

/-- `cdit:get_translate_function_cpp`: the function that it writes for an aggregate. Of an element of
a vector that is no aggregate, it is what the loop adds: a `Member` is copied, and an enum cast. -/
def getTranslateFunctionCpp :
    (e : Element) → Message source e → Except Text (Message target e)
  | .member type _ => fun value => .ok (stringWrapped target type (stringWrapped source type value))
  | .enumInstance => fun ordinal => .ok ordinal
  | .aggregateInstance isUnion n label vector child => fun value =>
    let out := fresh target (.aggregateInstance isUnion n label vector child)
    let case (out : Message target (.aggregateInstance isUnion n label vector child)) (i : Fin n) :=
      translateChild narrow source target (label i) (vector i) (child i)
        (getTranslateFunctionCpp (child i))
        (fun f out => out.modify (isUnion && middlewareHandlesUnion target) i f) (value.field i) out
    if isUnion && middlewareHandlesUnion source then
      match value.tag with
      | some i => case out i
      | none => .ok out
    else (List.finRange n).foldlM case out

/-- `BaseToMiddleware`. -/
def baseToMiddleware (middleware : DatatypeMiddleware) (e : Element) :
    Message .base e → Except Text (Message middleware e) :=
  getTranslateFunctionCpp narrow .base middleware e

/-- `MiddlewareToBase`. -/
def middlewareToBase (middleware : DatatypeMiddleware) (e : Element) :
    Message middleware e → Except Text (Message .base e) :=
  getTranslateFunctionCpp narrow middleware .base e

end Translators

end Sem.ReGen
