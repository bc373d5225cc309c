import Sem.Lib.NumberTexts
import Sem.Lib.Throwing

/-!
# Attribute values

`ProtobufModelParser::SetAttributePb` fills the attribute of a deployment from the type and the
value a user has typed. Numbers are read by the conversions of the standard library; the handlers
know one of the two exceptions that these throw.

* `fills_iff`: a conversion behind its handler fills in the number or the fallback, unless the other
  exception leaves it.
* `setAttributePb_intended_iff`: when the attribute is as intended.

A character stands for a byte of a `std::string`.
-/

namespace Sem.Re

open Sem.Lib
open Xml (Text)

namespace Attribute

/-- The kinds of attributes. -/
inductive Kind
  | string
  | integer
  | character
  | boolean
  | double
  | float
  deriving DecidableEq, Repr

end Attribute

/-- `NodeManager::Attribute`, without its info. -/
structure Attribute where
  kind : Attribute.Kind
  s : List Text
  i : ℤ
  d : Double
  deriving DecidableEq, Repr

namespace Attribute

/-- The kind of a type's name; an unknown one is taken for a string. -/
def kindOf (type : Text) : Kind :=
  if type = "Integer".toList then .integer
  else if type = "Boolean".toList then .boolean
  else if type = "Character".toList then .character
  else if type = "String".toList then .string
  else if type = "Double".toList then .double
  else if type = "Float".toList then .float
  else .string

/-- The value of a `char`, which is signed. -/
def charValue (c : Char) : ℤ := (c.toNat : ℤ).bmod 256

/-- The value of a double attribute that has not been set. -/
def zero : Double := .finite false 0

end Attribute

/-- A conversion by the standard library, without a handler. -/
def convert {α : Type} (r : Except ConversionError α) : Throwing Attribute ConversionError α :=
  fun attr => some (r, attr)

/-- The handlers: `catch(const std::invalid_argument&)`. -/
def catchInvalidArgument {α : Type} (p handler : Throwing Attribute ConversionError α) :
    Throwing Attribute ConversionError α :=
  tryCatch p fun
    | .invalidArgument => handler
    | e => throw e

/-- `str2bool`: a number, or else a word on a stream. Where the stream stores nothing, the variable
that is returned has never been set. -/
def str2bool (str : Text) : Throwing Attribute ConversionError Bool :=
  catchInvalidArgument (do return (← convert (Lib.stoi str)) != 0)
    (match readBoolalpha (str.map Char.toLower) with
    | some b => return b
    | none => Throwing.undefined)

/-- `SetAttributePb`. -/
def setAttributePb (tooSmall : ℚ → Bool) (type value : Text) :
    Throwing Attribute ConversionError PUnit := do
  let kind := Attribute.kindOf type
  Throwing.update fun attr => { attr with kind := kind }
  match kind with
  | .float | .double => do
    let doubleVal ← catchInvalidArgument (convert (stod tooSmall value)) (return Attribute.zero)
    Throwing.update fun attr => { attr with d := doubleVal }
  | .character =>
    match value.filter (· ≠ '\'') with
    | [c] => Throwing.update fun attr => { attr with i := Attribute.charValue c }
    | _ => return
  | .boolean => do
    let val ← str2bool value
    Throwing.update fun attr => { attr with i := if val then 1 else 0 }
  | .integer => do
    let intVal ← catchInvalidArgument (convert (Lib.stoi value)) (return 0)
    Throwing.update fun attr => { attr with i := intVal }
  | .string => Throwing.update fun attr => { attr with s := attr.s ++ [value.filter (· ≠ '"')] }

/-! ## What is intended -/

/-- The attribute that is meant: a number that fits its type is the value, and without one the value
is the fallback. A truth value is one of two. -/
def Intended (tooSmall : ℚ → Bool) (type value : Text) (attr post : Attribute) : Prop :=
  match Attribute.kindOf type with
  | .float | .double => post = { attr with
      kind := Attribute.kindOf type
      d := (stod tooSmall value).toOption.getD Attribute.zero }
  | .character => post = { attr with
      kind := Attribute.kindOf type
      i := match value.filter (· ≠ '\'') with
        | [c] => Attribute.charValue c
        | _ => attr.i }
  | .boolean => ∃ b : Bool, (∀ n, Lib.stoi value = .ok n → b = (n != 0)) ∧
      post = { attr with kind := Attribute.kindOf type, i := if b then 1 else 0 }
  | .integer => post = { attr with
      kind := Attribute.kindOf type
      i := (Lib.stoi value).toOption.getD 0 }
  | .string => post = { attr with
      kind := Attribute.kindOf type
      s := attr.s ++ [value.filter (· ≠ '"')] }

/-- The texts that are converted: a number at the start is in the range of its type, and a truth
value that is no number is not blank. -/
def Convertible (tooSmall : ℚ → Bool) (type value : Text) : Prop :=
  match Attribute.kindOf type with
  | .float | .double => ∀ negative x, strtod value = some (negative, x) → x.FitsDouble tooSmall
  | .integer => ∀ n, strtol value = some n → FitsInt n
  | .boolean => (∀ n, strtol value = some n → FitsInt n) ∧
      (strtol value = none → ∃ c ∈ value, isSpace c = false)
  | .character | .string => True

/-! ## The handlers -/

section Handlers

variable {α : Type} {r : Except ConversionError α} {handler : Throwing Attribute ConversionError α}
  {attr : Attribute}

/-- A number that fits is the value, and where there is no number the value is the fallback. -/
theorem catchInvalidArgument_eq_getD {a : α} (hr : r ≠ .error .outOfRange) :
    catchInvalidArgument (convert r) (pure a) attr = some (.ok (r.toOption.getD a), attr) := by
  match r, hr with
  | .ok b, _ => rfl
  | .error .invalidArgument, _ => rfl

/-- The exception that the handlers do not know. -/
theorem catchInvalidArgument_outOfRange (hr : r = .error .outOfRange) :
    catchInvalidArgument (convert r) handler attr = some (.error .outOfRange, attr) := by
  subst hr
  rfl

/-- A number is filled in unless the exception escapes. -/
theorem fills_iff {a : α} (f : α → Attribute → Attribute) (attr : Attribute) :
    (∃ post, (catchInvalidArgument (convert r) (pure a) >>= fun v => Throwing.update (f v)) attr =
        some (.ok ⟨⟩, post) ∧ post = f (r.toOption.getD a) attr) ↔ r ≠ .error .outOfRange := by
  refine ⟨?_, fun hr => ⟨_, Throwing.bind_ok (catchInvalidArgument_eq_getD hr), rfl⟩⟩
  rintro ⟨post, hrun, -⟩ hr
  rw [Throwing.bind_error (catchInvalidArgument_outOfRange hr)] at hrun
  cases hrun

end Handlers

theorem str2bool_number {value : Text} {n : ℤ} (h : Lib.stoi value = .ok n) (attr : Attribute) :
    str2bool value attr = some (.ok (n != 0), attr) := by
  rw [str2bool, h]
  rfl

theorem str2bool_outOfRange {value : Text} (h : Lib.stoi value = .error .outOfRange)
    (attr : Attribute) : str2bool value attr = some (.error .outOfRange, attr) := by
  rw [str2bool, h]
  rfl

theorem str2bool_word {value : Text} (h : Lib.stoi value = .error .invalidArgument)
    (attr : Attribute) :
    str2bool value attr =
      (readBoolalpha (value.map Char.toLower)).map fun b => (.ok b, attr) := by
  rw [str2bool, h]
  cases readBoolalpha (value.map Char.toLower) <;> rfl

theorem readBoolalpha_toLower_eq_none_iff (value : Text) :
    readBoolalpha (value.map Char.toLower) = none ↔ ¬ ∃ c ∈ value, isSpace c = false := by
  simp [readBoolalpha_eq_none_iff, isSpace_toLower]

/-! ## What is filled in -/

section Fills

variable {tooSmall : ℚ → Bool} {type value : Text}

theorem stoi_ne_outOfRange_iff :
    Lib.stoi value ≠ .error .outOfRange ↔ ∀ n, strtol value = some n → FitsInt n := by
  rw [Ne, stoi_eq_outOfRange_iff]
  push Not
  rfl

theorem stod_ne_outOfRange_iff : stod tooSmall value ≠ .error .outOfRange ↔
    ∀ negative x, strtod value = some (negative, x) → x.FitsDouble tooSmall := by
  rw [Ne, stod_eq_outOfRange_iff]
  push Not
  rfl

/-- A truth value leaves the attribute alone, and is that of the number, if there is one. -/
theorem eq_of_str2bool {b : Bool} {attr attr' : Attribute}
    (h : str2bool value attr = some (.ok b, attr')) :
    attr' = attr ∧ ∀ n, Lib.stoi value = .ok n → b = (n != 0) := by
  cases hvalue : Lib.stoi value with
  | ok n =>
    rw [str2bool_number hvalue] at h
    cases h
    refine ⟨rfl, fun m hm => ?_⟩
    cases hm
    rfl
  | error e =>
    refine ⟨?_, nofun⟩
    cases e with
    | outOfRange =>
      rw [str2bool_outOfRange hvalue] at h
      cases h
    | invalidArgument =>
      rw [str2bool_word hvalue] at h
      obtain ⟨_, _, hread⟩ := Option.map_eq_some_iff.mp h
      cases hread
      rfl

/-- A truth value that is returned. -/
theorem str2bool_returns_iff (attr : Attribute) :
    (∃ b, str2bool value attr = some (.ok b, attr)) ↔
      (∀ n, strtol value = some n → FitsInt n) ∧
        (strtol value = none → ∃ c ∈ value, isSpace c = false) := by
  rw [← stoi_ne_outOfRange_iff, ← stoi_eq_invalidArgument_iff]
  cases hvalue : Lib.stoi value with
  | ok n => simp [str2bool_number hvalue]
  | error e =>
    cases e with
    | outOfRange => simp [str2bool_outOfRange hvalue]
    | invalidArgument =>
      have hword := readBoolalpha_toLower_eq_none_iff value
      rw [str2bool_word hvalue]
      cases hread : readBoolalpha (value.map Char.toLower) with
      | none => simpa [hread] using hword
      | some b => simpa [hread] using hword

/-- **The attribute is filled in as intended exactly where the text is converted.** -/
theorem setAttributePb_intended_iff (tooSmall : ℚ → Bool) (type value : Text) (attr : Attribute) :
    (∃ post, setAttributePb tooSmall type value attr = some (.ok ⟨⟩, post) ∧
      Intended tooSmall type value attr post) ↔ Convertible tooSmall type value := by
  unfold setAttributePb Intended Convertible
  cases hkind : Attribute.kindOf type with
  | string => exact ⟨fun _ => trivial, fun _ => ⟨_, rfl, rfl⟩⟩
  | character =>
    refine ⟨fun _ => trivial, fun _ => ?_⟩
    rcases value.filter (· ≠ '\'') with _ | ⟨c, _ | ⟨c', s⟩⟩
    · exact ⟨_, rfl, rfl⟩
    · exact ⟨_, rfl, rfl⟩
    · exact ⟨_, rfl, rfl⟩
  | integer =>
    rw [← stoi_ne_outOfRange_iff]
    exact fills_iff (fun n attr => { attr with i := n }) { attr with kind := .integer }
  | double =>
    rw [← stod_ne_outOfRange_iff]
    exact fills_iff (fun d attr => { attr with d := d }) { attr with kind := .double }
  | float =>
    rw [← stod_ne_outOfRange_iff]
    exact fills_iff (fun d attr => { attr with d := d }) { attr with kind := .float }
  | boolean =>
    rw [← str2bool_returns_iff { attr with kind := .boolean }]
    constructor
    · rintro ⟨post, hrun, -⟩
      rcases hval : str2bool value { attr with kind := .boolean } with _ | ⟨_ | b, attr'⟩
      · change (str2bool value { attr with kind := .boolean }).bind _ = _ at hrun
        rw [hval] at hrun
        cases hrun
      · change (str2bool value >>= _) { attr with kind := .boolean } = _ at hrun
        rw [Throwing.bind_error hval] at hrun
        cases hrun
      · obtain ⟨rfl, -⟩ := eq_of_str2bool hval
        exact ⟨b, rfl⟩
    · rintro ⟨b, hval⟩
      exact ⟨_, Throwing.bind_ok hval, b, (eq_of_str2bool hval).2, rfl⟩

end Fills

/-- An exception leaves the function. -/
theorem setAttributePb_not_total : ¬ ∀ tooSmall type value attr, ∃ post,
    setAttributePb tooSmall type value attr = some (.ok ⟨⟩, post) ∧
      Intended tooSmall type value attr post := by
  intro h
  obtain ⟨post, hrun, -⟩ := h (fun _ => false) "Integer".toList "99999999999".toList
    ⟨.string, [], 0, Attribute.zero⟩
  have hthrows : setAttributePb (fun _ => false) "Integer".toList "99999999999".toList
      ⟨.string, [], 0, Attribute.zero⟩ =
        some (.error .outOfRange, ⟨.integer, [], 0, Attribute.zero⟩) := by
    rfl
  rw [hthrows] at hrun
  cases hrun

end Sem.Re
