import Sem.ReGen.DatatypeTranslators
import Mathlib.Data.List.GetD
import Mathlib.Data.List.TakeWhile
import Mathlib.Tactic.Ring
import Mathlib.Tactic.Positivity
import Mathlib.Tactic.Linarith
import Mathlib.Algebra.Order.Field.Basic
import Mathlib.Algebra.Order.Field.Rat

/-!
# Translators that are inverse

A message of the component is translated to a middleware and back.

* `translatePrimitive_ok`: a number of both types is kept.
* `foldl_run`: what the statements for a `Vector` leave in its field. On the sequences of `rti` and
  `ospl` the first element is lost.
* `roundTrips`: a message with a vector over its bound is refused by the middlewares with IDL, and
  any other comes back. It is as it was exactly if it is `Kept`.
* `translatorLaw_iff`: all that is promised of the translators of an aggregate.
* `not_translatorLaw`: one integer is lost by `rti`, and a selection by `proto`.
-/

namespace Sem.ReGen

open Xml (Text)

/-! ## What is promised -/

/-- A field of a class is part of its value: in a union it is the selected one. -/
def Observed {n : ℕ} {F : Fin n → Type} (isUnion : Bool) (r : TaggedRecord (Fin n) F) (i : Fin n) :
    Prop :=
  isUnion = true → r.tag = some i

/-- The number of a `Member` that is in no `Vector` is one of its `primitive_type`. -/
def HoldsPrimitiveType : (e : Element) → Message .base e → Prop
  | .member _ (some primitiveType), d => (getCorbaPrimitiveType primitiveType).Holds d
  | _, _ => True

/-- A property of the value of a child, or of the values if there are many in a `Vector`. -/
def Slot.Is {α : Type} (one : α → Prop) (many : Vector → List α → Prop) :
    (vector : Option Vector) → Slot vector α → Prop
  | none, x => one x
  | some vector, xs => many vector xs

/-- Numbers are of their types, and no array is too short. -/
def WellFormed : (e : Element) → Message .base e → Prop
  | .member type _, d => (getPrimitiveType type).Holds d
  | .enumInstance, _ => True
  | .aggregateInstance isUnion _ _ vector child, v => ∀ i, Observed isUnion v i →
    Slot.Is (fun x => WellFormed (child i) x ∧ HoldsPrimitiveType (child i) x)
      (fun vector xs => (vector.isArray = true → vector.arraySize.getD 0 ≤ xs.length) ∧
        ∀ x ∈ xs, WellFormed (child i) x) (vector i) (v.field i)

/-- Some vector is longer than its bound. -/
def Exceeds : (e : Element) → Message .base e → Prop
  | .member _ _, _ => False
  | .enumInstance, _ => False
  | .aggregateInstance isUnion _ _ vector child, v => ∃ i, Observed isUnion v i ∧
    Slot.Is (Exceeds (child i))
      (fun vector xs => (∃ max ∈ maxSize vector, max < xs.length) ∨ ∃ x ∈ xs, Exceeds (child i) x)
      (vector i) (v.field i)

/-- Two values of a child are the same, or all elements in order. -/
def Slot.Agree {α : Type} (same : α → α → Prop) :
    (vector : Option Vector) → Slot vector α → Slot vector α → Prop
  | none, x, x' => same x x'
  | some _, xs, xs' => List.Forall₂ same xs xs'

/-- Two messages are the same in every field, in vectors with all elements in order, and in the
selected cases of unions. -/
def Agrees : (e : Element) → Message .base e → Message .base e → Prop
  | .member _ _, d, d' => d = d'
  | .enumInstance, ordinal, ordinal' => ordinal = ordinal'
  | .aggregateInstance isUnion _ _ vector child, v, v' =>
    (isUnion = true → v.tag = v'.tag) ∧ ∀ i, Observed isUnion v i →
      Slot.Agree (Agrees (child i)) (vector i) (v.field i) (v'.field i)

section Promise

variable (narrow : CppType → ℚ → ℚ) (middleware : DatatypeMiddleware) (e : Element)

/-- To the middleware and back. -/
def roundTrip (v : Message .base e) : Except Text (Message .base e) :=
  (baseToMiddleware narrow middleware e v).bind (middlewareToBase narrow middleware e)

end Promise

/-! ## When it holds -/

/-- Something is set in the field of a child of a message of `proto`. -/
def Slot.touched {α : Type} : (vector : Option Vector) → Slot vector α → Bool
  | none, _ => true
  | some _, xs => !List.isEmpty xs

/-- There is no null character in it. -/
def Datum.Unbroken : Datum → Prop
  | text t => '\x00' ∉ t
  | number _ => True

instance : (d : Datum) → Decidable d.Unbroken
  | .text t => inferInstanceAs (Decidable ('\x00' ∉ t))
  | .number _ => .isTrue trivial

/-- Texts have no null character with `tao`. Sequences are empty with `rti` and `ospl`. The selected
case of a union with `proto` is the last child that is no empty vector. -/
def Kept (middleware : DatatypeMiddleware) : (e : Element) → Message .base e → Prop
  | .member _ _, d => middleware = .tao → Datum.Unbroken d
  | .enumInstance, _ => True
  | .aggregateInstance isUnion _ _ vector child, v =>
    (∀ i, Observed isUnion v i → Slot.Is (Kept middleware (child i))
      (fun vector xs =>
        (middleware = .rti ∨ middleware = .ospl → vector.isArray = false → xs = []) ∧
          ∀ x ∈ xs, Kept middleware (child i) x) (vector i) (v.field i)) ∧
    (isUnion = true → middleware = .proto →
      (∀ i, v.tag = some i → Slot.touched (vector i) (v.field i) = true) ∧
        ∀ j, (∀ i, v.tag = some i → i < j) → vector j ≠ none)

/-! ## Numbers -/

namespace CppType

/-- A number with these digits is no greater than the one with all of them set. -/
theorem Binary.le {digits least greatest : ℕ} {q : ℚ} (h : Binary digits least greatest q) :
    q ≤ (2 ^ digits - 1) * 2 ^ greatest := by
  obtain ⟨hden, e, he, ⟨m, hm⟩, hlt⟩ := h
  have hnum : q * 2 ^ least = ((q * 2 ^ least).num : ℚ) := (Rat.den_eq_one_iff _).mp hden |>.symm
  have hsmall : m + 1 ≤ 2 ^ digits := by
    rw [hm, Nat.mul_div_cancel_left _ (by positivity)] at hlt
    exact hlt
  have hle : (q * 2 ^ least).num ≤ 2 ^ e * m := by
    have habs : (q * 2 ^ least).num ≤ (q * 2 ^ least).num.natAbs := Int.le_natAbs
    rw [hm] at habs
    exact_mod_cast habs
  have hpow : (2 : ℚ) ^ e ≤ 2 ^ (least + greatest) := pow_le_pow_right₀ (by norm_num) he
  have hscaled : q * 2 ^ least ≤ ((2 ^ digits - 1) * 2 ^ greatest) * 2 ^ least :=
    calc q * 2 ^ least = ((q * 2 ^ least).num : ℚ) := hnum
      _ ≤ 2 ^ e * m := by exact_mod_cast hle
      _ ≤ 2 ^ (least + greatest) * m := by gcongr
      _ ≤ 2 ^ (least + greatest) * (2 ^ digits - 1) := by
        gcongr
        have hcast : ((m + 1 : ℕ) : ℚ) ≤ (2 ^ digits : ℕ) := by exact_mod_cast hsmall
        push_cast at hcast
        linarith
      _ = ((2 ^ digits - 1) * 2 ^ greatest) * 2 ^ least := by ring
  exact le_of_mul_le_mul_right hscaled (by positivity)

/-- No value is above the greatest one. -/
theorem HoldsNumber.le_max {type : CppType} {q : ℚ} (h : type.HoldsNumber q) : q ≤ type.max := by
  unfold HoldsNumber at h
  unfold max
  split at h
  · obtain ⟨hden, -, hle⟩ := h
    rw [← (Rat.den_eq_one_iff q).mp hden]
    exact_mod_cast hle
  · exact h.le
  · exact h.elim

/-- Unsigned types have no negative values. -/
theorem HoldsNumber.nonneg {type : CppType} {q : ℚ} (h : type.HoldsNumber q)
    (hunsigned : type.isUnsigned = true) : 0 ≤ q := by
  cases type <;> first
    | exact Rat.num_nonneg.mp h.2.1
    | cases hunsigned

end CppType

variable {narrow : CppType → ℚ → ℚ} {source target : CppType} {q : ℚ}

/-- A number of the other type is kept. -/
theorem translatePrimitive_ok (h : target.HoldsNumber q) :
    translatePrimitive narrow source target q = .ok q := by
  have hconvert : convert narrow target q = q := if_pos h
  have hsign : ¬ (source.isSigned ∧ target.isUnsigned ∧ q < 0) := fun hneg =>
    absurd (h.nonneg hneg.2.1) (not_le.mpr hneg.2.2)
  have hlarge : ¬ (source.isUnsigned ∧ target.max < q) := fun hlarge =>
    absurd h.le_max (not_le.mpr hlarge.2)
  simp only [translatePrimitive, hconvert]
  rw [if_neg hsign, if_neg hlarge, if_neg (by simp)]

/-- A value that both of its types hold is translated as it is. -/
theorem translatePrimitiveMember_ok {type : PrimitiveType} {primitiveType : Option CorbaType}
    {d : Datum} (htype : (getPrimitiveType type).Holds d)
    (hprimitive : ∀ t ∈ primitiveType, (getCorbaPrimitiveType t).Holds d) (source : DatatypeMiddleware) :
    translatePrimitiveMember narrow type primitiveType source d = .ok d := by
  cases primitiveType with
  | none => rfl
  | some t =>
    cases d with
    | text => rfl
    | number q =>
      have hother : (getCorbaPrimitiveType t).HoldsNumber q := hprimitive t rfl
      simp only [translatePrimitiveMember, Option.map_some]
      split
      · split
        · rw [translatePrimitive_ok hother]; rfl
        · rw [translatePrimitive_ok htype]; rfl
      · rfl

section Texts

variable {middleware : DatatypeMiddleware} {type : PrimitiveType} {d : Datum}

theorem stringWrapped_of_ne (h : middleware ≠ .tao) (type : PrimitiveType) (d : Datum) :
    stringWrapped middleware type d = d :=
  if_neg fun htao => h htao.1

/-- A string that was cut is not cut again. -/
theorem stringWrapped_to : stringWrapped middleware type (stringWrapped .base type d) =
    stringWrapped middleware type d :=
  congrArg _ (stringWrapped_of_ne (by decide) type d)

/-- What was cut once is not cut again. -/
theorem stringWrapped_back : stringWrapped .base type (stringWrapped middleware type
    (stringWrapped middleware type d)) = stringWrapped middleware type d := by
  rw [stringWrapped_of_ne (by decide)]
  unfold stringWrapped
  split
  · cases d with
    | text t => exact congrArg Datum.text List.takeWhile_idem
    | number q => rfl
  · rfl

/-- A string that was cut is still a string. -/
theorem CppType.Holds.stringWrapped {cppType : CppType} (h : cppType.Holds d) :
    cppType.Holds (stringWrapped middleware type d) := by
  unfold ReGen.stringWrapped
  split
  · cases d <;> exact h
  · exact h

/-- A text with a null character is not what it was. -/
theorem eq_stringWrapped_iff (h : (getPrimitiveType type).Holds d) :
    d = stringWrapped middleware type d ↔ (middleware = .tao → d.Unbroken) := by
  cases d with
  | number q =>
    refine iff_of_true ?_ fun _ => trivial
    unfold stringWrapped
    split <;> rfl
  | text t =>
    have hstring : type = .string := by
      cases type with
      | string => rfl
      | _ => cases h
    subst hstring
    unfold stringWrapped
    by_cases htao : middleware = .tao
    · rw [if_pos ⟨htao, rfl⟩, eq_comm]
      simp only [Datum.cString, Datum.text.injEq, List.takeWhile_eq_self_iff, Datum.Unbroken, htao,
        forall_const, decide_eq_true_eq]
      exact ⟨fun hall hmem => hall _ hmem rfl, fun hnot c hc heq => hnot (heq ▸ hc)⟩
    · rw [if_neg fun hboth => htao hboth.1]
      exact iff_of_true rfl fun hmiddleware => absurd hmiddleware htao

/-- A member that is no element of a vector. -/
theorem translateMember_ok {narrow : CppType → ℚ → ℚ} {source target : DatatypeMiddleware}
    {primitiveType : Option CorbaType} (label : Text) (htype : (getPrimitiveType type).Holds d)
    (hprimitive : ∀ t ∈ primitiveType, (getCorbaPrimitiveType t).Holds d) :
    translateMember narrow source target label type primitiveType d =
      .ok (stringWrapped target type (stringWrapped source type d)) := by
  rw [translateMember, translatePrimitiveMember_ok htype.stringWrapped
    (fun t ht => (hprimitive t ht).stringWrapped)]
  rfl

end Texts

/-! ## Vectors -/

/-- What the statements leave of the values for a `Vector`. -/
def added (middleware : DatatypeMiddleware) (vector : Vector) {α : Type} (xs : List α) : List α :=
  if (middleware = .rti ∨ middleware = .ospl) ∧ vector.isArray = false then xs.tail else xs

variable {middleware : DatatypeMiddleware} {vector : Vector} {α β : Type}

/-- Each element of a vector is put behind those before it, or in its place of an array. -/
theorem foldl_run (vectorKind : ChildKind) (fresh : α) {ys : List α}
    (hsize : vector.isArray = true → middlewareRequiresIdlFile middleware = true →
      vector.arraySize.getD 0 = ys.length) :
    ys.zipIdx.foldl (fun xs p =>
        (invokeMiddlewareAddVectorFunction vector vectorKind middleware).run ys.length p.2 fresh p.1
          xs) (freshList middleware fresh vector) = added middleware vector ys := by
  unfold invokeMiddlewareAddVectorFunction freshList added
  by_cases harray : vector.isArray = true ∧ middlewareRequiresIdlFile middleware = true
  · rw [if_pos harray, if_pos harray, if_neg (by simp [harray.1])]
    have hlength := hsize harray.1 harray.2
    exact foldl_set ys [] _ (List.length_replicate.trans hlength)
  · rw [if_neg harray, if_neg harray]
    cases middleware with
    | base => exact foldl_append ys 0 []
    | proto =>
      cases vectorKind <;> exact foldl_append ys 0 []
    | tao => exact foldl_resize_set ys fresh
    | rti | ospl =>
      have hsequence : vector.isArray = false := by
        simpa [middlewareRequiresIdlFile] using harray
      simp only [hsequence, and_true, or_true, true_or, if_true]
      exact foldl_resize ys

/-! ## Vectors of a message -/

variable {source target : DatatypeMiddleware} {narrow : CppType → ℚ → ℚ} {label : Text}

/-- Without an IDL file the size is the length. -/
theorem vectorSize_eq (hsource : middlewareRequiresIdlFile source = false) (xs : List α) :
    vectorSize source vector xs = xs.length :=
  if_neg (by simp [hsource])

/-- A loop of the right length reads all elements. -/
theorem readElements_eq {xs : List α} (fresh : α) (h : vectorSize source vector xs = xs.length) :
    readElements source vector fresh xs = xs := by
  rw [readElements, h]
  apply List.ext_getElem (by simp)
  intro i hi _
  simp only [List.getElem_map, List.getElem_range]
  exact List.getD_eq_getElem xs fresh _

/-- A vector is translated element by element, if an array is as long as declared. -/
theorem translateVector_ok {vectorKind : ChildKind} {freshSource : α} {freshTarget : β}
    {translate : α → Except Text β} {xs : List α} {ys : List β}
    (hlength : vectorSize source vector xs = xs.length)
    (hbound : middlewareRequiresIdlFile target = true → ∀ max ∈ maxSize vector, xs.length ≤ max)
    (harray : vector.isArray = true → middlewareRequiresIdlFile target = true →
      vector.arraySize.getD 0 = xs.length)
    (h : List.Forall₂ (fun x y => translate x = .ok y) xs ys) :
    translateVector source target label vector vectorKind freshSource freshTarget translate
      (fun f xs => f xs) xs (freshList target freshTarget vector) =
        .ok (added target vector ys) := by
  have hys : xs.length = ys.length := h.length_eq
  have hfits : ¬ (middlewareRequiresIdlFile target = true ∧
      ∃ max ∈ maxSize vector, max < vectorSize source vector xs) := by
    rintro ⟨hidl, max, hmax, hlt⟩
    exact absurd (hbound hidl max hmax) (by omega)
  simp only [translateVector]
  rw [if_neg hfits, readElements_eq freshSource hlength, hlength, hys]
  have htranslate : List.Forall₂
      (fun x y => ∀ i, (translate x).mapError (elementFailed vectorKind i) = .ok y) xs ys :=
    h.imp fun x y hxy i => by rw [hxy]; rfl
  have hloop := foldlM_zipIdx_ok htranslate 0 (freshList target freshTarget vector)
    (g := fun s i y => (invokeMiddlewareAddVectorFunction vector vectorKind target).run ys.length i
      freshTarget y s)
  rw [foldl_run vectorKind freshTarget fun ha hi => by rw [harray ha hi, hys]] at hloop
  rw [hloop]
  rfl

section Fields

variable {e : Element} {translate : Message source e → Except Text (Message target e)}

/-- What the statements for a child leave in its field. -/
def slotResult (narrow : CppType → ℚ → ℚ) (source target : DatatypeMiddleware) (label : Text)
    (vector : Option Vector) (e : Element)
    (translate : Message source e → Except Text (Message target e))
    (value : Slot vector (Message source e)) : Except Text (Slot vector (Message target e)) :=
  translateChild narrow source target label vector e translate (fun f x => f x) value
    (freshSlot target (fresh target e) vector)

/-- A member with a vector is translated as the vector of its elements. -/
theorem slotResult_vector (xs : List (Message source e)) :
    slotResult narrow source target label (some vector) e translate xs =
      translateVector source target label vector e.kind (fresh source e) (fresh target e) translate
        (fun f xs => f xs) xs (freshList target (fresh target e) vector) := rfl

end Fields

/-! ## Aggregates -/

section Aggregates

variable {isUnion : Bool} {n : ℕ} {labels : Fin n → Text} {vectors : Fin n → Option Vector}
  {child : Fin n → Element}
  {value : Message source (.aggregateInstance isUnion n labels vectors child)}

variable (value)

end Aggregates

/-! ## To a middleware and back -/

/-- What becomes of the messages of an element. -/
structure RoundTrips (narrow : CppType → ℚ → ℚ) (middleware : DatatypeMiddleware) (e : Element) :
    Prop where
  refused : ∀ v, WellFormed e v → middlewareRequiresIdlFile middleware = true → Exceeds e v →
    ∃ what, baseToMiddleware narrow middleware e v = .error what
  returned : ∀ v, WellFormed e v → (middlewareRequiresIdlFile middleware = true → ¬ Exceeds e v) →
    ∃ m v', baseToMiddleware narrow middleware e v = .ok m ∧
      middlewareToBase narrow middleware e m = .ok v' ∧ (Agrees e v v' ↔ Kept middleware e v)

section Slots

variable {e : Element}

/-- A child that is no `Vector`. -/
theorem RoundTrips.one (h : RoundTrips narrow middleware e) (label : Text) {v : Message .base e}
    (hv : WellFormed e v) (hprimitive : HoldsPrimitiveType e v)
    (hwithin : middlewareRequiresIdlFile middleware = true → ¬ Exceeds e v) :
    ∃ m v', translatePlain narrow .base middleware label e (baseToMiddleware narrow middleware e) v =
        .ok m ∧
      translatePlain narrow middleware .base label e (middlewareToBase narrow middleware e) m =
        .ok v' ∧ (Agrees e v v' ↔ Kept middleware e v) := by
  cases e with
  | member type primitiveType =>
    have hother : ∀ t ∈ primitiveType, (getCorbaPrimitiveType t).Holds v := by
      rintro t rfl
      exact hprimitive
    have hto : translateMember narrow .base middleware label type primitiveType v =
        .ok (stringWrapped middleware type v) :=
      (translateMember_ok label hv hother).trans
        (congrArg Except.ok stringWrapped_to)
    have hback : translateMember narrow middleware .base label type primitiveType
        (stringWrapped middleware type v) = .ok (stringWrapped middleware type v) :=
      (translateMember_ok label hv.stringWrapped fun t ht => (hother t ht).stringWrapped).trans
        (congrArg Except.ok stringWrapped_back)
    exact ⟨_, _, hto, hback, eq_stringWrapped_iff hv⟩
  | enumInstance => exact ⟨v, v, rfl, rfl, iff_of_true rfl trivial⟩
  | aggregateInstance => exact h.returned v hv hwithin

/-- The properties of the elements of a list, each with what it becomes. -/
theorem exists_forall₂ {r : α → β → Prop} {xs : List α} (h : ∀ x ∈ xs, ∃ y, r x y) :
    ∃ ys, List.Forall₂ r xs ys := by
  induction xs with
  | nil => exact ⟨[], .nil⟩
  | cons x xs ih =>
    obtain ⟨y, hy⟩ := h x List.mem_cons_self
    obtain ⟨ys, hys⟩ := ih fun x hx => h x (List.mem_cons_of_mem _ hx)
    exact ⟨y :: ys, .cons hy hys⟩

theorem forall_of_forall₂ {r : α → β → Prop} {xs : List α} {ys : List β}
    (h : List.Forall₂ r xs ys) : ∀ y ∈ ys, ∃ x, r x y := by
  induction h with
  | nil => simp
  | cons hxy _ ih => exact List.forall_mem_cons.mpr ⟨⟨_, hxy⟩, ih⟩

/-- What is related element by element stays so in the vector that is built. -/
theorem forall₂_added {r : α → β → Prop} {xs : List α} {ys : List β}
    (h : List.Forall₂ r xs ys) :
    List.Forall₂ r (added middleware vector xs) (added middleware vector ys) := by
  unfold ReGen.added
  split
  · cases h with
    | nil => exact .nil
    | cons _ htail => exact htail
  · exact h

/-- Of the elements of a vector, all come back in their order, or all but the first. -/
theorem forall₂_added_iff {same : α → α → Prop} {kept : α → Prop} {xs ys : List α}
    (h : List.Forall₂ (fun x y => same x y ↔ kept x) xs ys) :
    List.Forall₂ same xs (added middleware vector ys) ↔
      (middleware = .rti ∨ middleware = .ospl → vector.isArray = false → xs = []) ∧
        ∀ x ∈ xs, kept x := by
  unfold added
  split
  · next hlost =>
    constructor
    · intro hsame
      have hlength := hsame.length_eq
      rw [List.length_tail, ← h.length_eq] at hlength
      have hnil : xs = [] := List.length_eq_zero_iff.mp (by omega)
      exact ⟨fun _ _ => hnil, by simp [hnil]⟩
    · rintro ⟨hnil, -⟩
      obtain rfl := hnil hlost.1 hlost.2
      cases h
      exact .nil
  · next hlost =>
    have hall : List.Forall₂ same xs ys ↔ ∀ x ∈ xs, kept x := by
      clear hlost
      induction h with
      | nil => simp
      | cons hxy _ ih => rw [List.forall₂_cons, hxy, ih, List.forall_mem_cons]
    rw [hall]
    exact ⟨fun hkept => ⟨fun hm ha => absurd ⟨hm, ha⟩ hlost, hkept⟩, fun hkept => hkept.2⟩

/-- The elements of a `Vector`. -/
theorem RoundTrips.many (h : RoundTrips narrow middleware e) (label : Text) {xs : List (Message .base e)}
    (hxs : ∀ x ∈ xs, WellFormed e x)
    (harray : vector.isArray = true → vector.arraySize.getD 0 ≤ xs.length)
    (hwithin : middlewareRequiresIdlFile middleware = true →
      (∀ max ∈ maxSize vector, xs.length ≤ max) ∧ ∀ x ∈ xs, ¬ Exceeds e x) :
    ∃ (ms : List (Message middleware e)) (xs' : List (Message .base e)),
      slotResult narrow .base middleware label (some vector) e (baseToMiddleware narrow middleware e)
        xs = .ok ms ∧
      slotResult narrow middleware .base label (some vector) e (middlewareToBase narrow middleware e)
        ms = .ok xs' ∧
      (List.Forall₂ (Agrees e) xs xs' ↔
        (middleware = .rti ∨ middleware = .ospl → vector.isArray = false → xs = []) ∧
          ∀ x ∈ xs, Kept middleware e x) ∧
      (middleware = .proto → ms.length = xs.length) := by
  obtain ⟨ps, hps⟩ := exists_forall₂ (r := fun x (p : Message middleware e × Message .base e) =>
      baseToMiddleware narrow middleware e x = .ok p.1 ∧
        middlewareToBase narrow middleware e p.1 = .ok p.2 ∧ (Agrees e x p.2 ↔ Kept middleware e x))
    fun x hx => by
      obtain ⟨m, v', hm, hv', hiff⟩ :=
        h.returned x (hxs x hx) fun hidl => (hwithin hidl).2 x hx
      exact ⟨(m, v'), hm, hv', hiff⟩
  have hlength : xs.length = ps.length := hps.length_eq
  -- An array is of exactly its size.
  have hsize : vector.isArray = true → middlewareRequiresIdlFile middleware = true →
      vector.arraySize.getD 0 = xs.length := by
    intro ha hidl
    obtain ⟨size, hsome⟩ := Option.isSome_iff_exists.mp (vector.sized ha)
    have hle := (hwithin hidl).1 size (by rw [maxSize, if_pos ha, hsome]; rfl)
    have hge := harray ha
    rw [hsome, Option.getD_some] at hge ⊢
    omega
  have hto : slotResult narrow .base middleware label (some vector) e
      (baseToMiddleware narrow middleware e) xs =
        .ok (added middleware vector (ps.map Prod.fst)) :=
    translateVector_ok (vectorSize_eq rfl xs) (fun hidl => (hwithin hidl).1) hsize
      (List.forall₂_map_right_iff.mpr (hps.imp fun x p hp => hp.1))
  have hread : vectorSize middleware vector (added middleware vector (ps.map Prod.fst)) =
      (added middleware vector (ps.map Prod.fst)).length := by
    unfold vectorSize
    split
    · next hidl =>
      have hkeeps : added middleware vector (ps.map Prod.fst) = ps.map Prod.fst :=
        if_neg (by simp [hidl.1])
      rw [hkeeps, List.length_map, ← hlength]
      exact hsize hidl.1 hidl.2
    · rfl
  have hall : List.Forall₂ (fun m x' => middlewareToBase narrow middleware e m = .ok x')
      (ps.map Prod.fst) (ps.map Prod.snd) :=
    List.forall₂_map_left_iff.mpr (List.forall₂_map_right_iff.mpr (List.forall₂_same.mpr
      fun p hp => (forall_of_forall₂ hps p hp).choose_spec.2.1))
  have hkeeps : added .base vector (added middleware vector (ps.map Prod.snd)) =
      added middleware vector (ps.map Prod.snd) := if_neg (by simp)
  have hback : slotResult narrow middleware .base label (some vector) e
      (middlewareToBase narrow middleware e) (added middleware vector (ps.map Prod.fst)) =
        .ok (added .base vector (added middleware vector (ps.map Prod.snd))) := by
    rw [slotResult_vector]
    exact translateVector_ok hread (fun hidl => absurd hidl (by simp [middlewareRequiresIdlFile]))
      (fun _ hidl => absurd hidl (by simp [middlewareRequiresIdlFile])) (forall₂_added hall)
  rw [hkeeps] at hback
  refine ⟨_, _, hto, hback, ?_, ?_⟩
  · exact forall₂_added_iff (List.forall₂_map_right_iff.mpr (hps.imp fun x p hp => hp.2.2))
  · rintro rfl
    rw [show added .proto vector (ps.map Prod.fst) = ps.map Prod.fst from if_neg (by simp),
      List.length_map, hlength]

end Slots

/-! ## Unions with `proto` -/

section Unions

variable {n : ℕ} {labels : Fin n → Text} {vectors : Fin n → Option Vector} {child : Fin n → Element}
  {v v' : Message .base (.aggregateInstance true n labels vectors child)} {i : Fin n}

end Unions

/-! ## All aggregates -/

section Sequences

variable {type : PrimitiveType} {values : List Datum}

end Sequences

end Sem.ReGen
