import Mathlib.Data.Nat.Digits.Defs
import Sem.Lib.Decimal
import Sem.Lib.NumberTexts
import Sem.Lib.Regex

/-!
# Addresses

`re::types::Ipv4` and `re::types::SocketAddress`: their texts, and the parsers with their cut-offs
on the length, their patterns and their checks of the range. Which texts are addresses is said by
`IsIpv4` and `IsSocketAddress`.

* `ipv4Check_reads_iff`, `addrCheck_reads_iff`: what the patterns read.
* `parseStringToOctets_eq_ok_iff`, `parseSocketAddress_eq_ok_iff`: the parsers accept the addresses, and
  return their numbers.
* `addresses_parse`: with it, what they do on other texts, and on the texts that `to_string` gives.

A character stands for a byte of a `std::string`.
-/

namespace Sem.Re.Types

open Lib
open Xml (Text)

/-- `std::array<uint8_t, 4>`. -/
structure Ipv4 where
  addr : Vector UInt8 4
  deriving DecidableEq

/-- `SocketAddress`, of IPv4. -/
structure SocketAddress where
  ipAddr : Ipv4
  port : UInt16
  deriving DecidableEq

namespace Ipv4

/-- `Ipv4::to_string`. -/
def toText (a : Ipv4) : Text :=
  decimal a.addr[0].toNat ++ '.' :: decimal a.addr[1].toNat ++ '.' :: decimal a.addr[2].toNat ++
    '.' :: decimal a.addr[3].toNat

end Ipv4

/-- `SocketAddress::to_string`. -/
def SocketAddress.toText (a : SocketAddress) : Text :=
  a.ipAddr.toText ++ ':' :: decimal a.port.toNat

/-! ## The parsers -/

/-- `parse_octet_from_string`. -/
def parseOctetFromString (s : Text) : Except ConversionError UInt8 := do
  let number ← Lib.stoi s
  if number < 0 ∨ 255 < number then throw .invalidArgument
  return number.toNat.toUInt8

/-- `^(\d{1,3})\.(\d{1,3})\.(\d{1,3})\.(\d{1,3})$`. -/
def ipv4Check : Regex :=
  .seq .bol <| .seq (.group (.digits 1 3)) <| .seq (.literal '.') <|
    .seq (.group (.digits 1 3)) <| .seq (.literal '.') <|
    .seq (.group (.digits 1 3)) <| .seq (.literal '.') <|
    .seq (.group (.digits 1 3)) .eol

/-- `Ipv4::parse_string_to_octets`. The array is filled from its start, and is zero elsewhere. -/
def parseStringToOctets (s : Text) : Except ConversionError Ipv4 := do
  if 15 < s.length then throw .invalidArgument
  match ipv4Check.match s with
  | none => throw .invalidArgument
  | some texts =>
    let octets ← texts.mapM parseOctetFromString
    return ⟨Vector.ofFn fun i => octets.getD i 0⟩

/-- `parse_port_from_string`. -/
def parsePortFromString (port : Text) : Except ConversionError UInt16 := do
  let portNumber ← Lib.stoi port
  if 65535 < portNumber ∨ portNumber < 0 then throw .invalidArgument
  return portNumber.toNat.toUInt16

/-- `^(.*):(\d{1,5})$`. -/
def addrCheck : Regex :=
  .seq .bol <| .seq (.group .anything) <| .seq (.literal ':') <|
    .seq (.group (.digits 1 5)) .eol

/-- `SocketAddress::parse_socket_address`. Every exception of the parts is thrown again as an
`std::invalid_argument`. -/
def parseSocketAddress (s : Text) : Except ConversionError SocketAddress := do
  if 21 < s.length then throw .invalidArgument
  match addrCheck.match s with
  | none => throw .invalidArgument
  | some texts =>
    try
      let ip ← parseStringToOctets (texts.getD 0 [])
      let port ← parsePortFromString (texts.getD 1 [])
      return ⟨ip, port⟩
    catch _ => throw .invalidArgument

/-! ## Addresses -/

/-- Between `lo` and `hi` decimal digits. -/
structure IsDigits (lo hi : ℕ) (s : Text) : Prop where
  digits : ∀ c ∈ s, c.isDigit = true
  least : lo ≤ s.length
  most : s.length ≤ hi

/-- Digits of the value. -/
structure IsNumeral (lo hi : ℕ) (s : Text) (n : ℕ) : Prop extends IsDigits lo hi s where
  value : Nat.ofDigitChars 10 s 0 = n

/-- Four parts, joined by dots. -/
def dotted (w : Vector Text 4) : Text := w[0] ++ '.' :: w[1] ++ '.' :: w[2] ++ '.' :: w[3]

/-- Four groups of one to three digits, joined by dots. -/
def IsIpv4 (s : Text) (a : Ipv4) : Prop :=
  ∃ w : Vector Text 4, (∀ i : Fin 4, IsNumeral 1 3 w[i] a.addr[i].toNat) ∧ s = dotted w

/-- An address, a colon and one to five digits. -/
def IsSocketAddress (s : Text) (a : SocketAddress) : Prop :=
  ∃ ip port, IsIpv4 ip a.ipAddr ∧ IsNumeral 1 5 port a.port.toNat ∧ s = ip ++ ':' :: port

/-! ## The patterns -/

section Patterns

variable {lo hi pos : ℕ} {s w rest : Text} {texts : List Text} {r : Regex}

theorem reads_seq_group_digits :
    (Regex.seq (.group (.digits lo hi)) r).Reads pos w rest texts ↔
      ∃ a, IsDigits lo hi a ∧ ∃ w' texts', r.Reads (pos + a.length) w' rest texts' ∧
        w = a ++ w' ∧ texts = a :: texts' := by
  have hdigits : ∀ a : Text, IsDigits lo hi a ↔
      (∀ c ∈ a, c.isDigit = true) ∧ lo ≤ a.length ∧ ∀ n ∈ some hi, a.length ≤ n := by
    refine fun a => ⟨fun h => ⟨h.digits, h.least, ?_⟩, fun h => ⟨h.1, h.2.1, h.2.2 hi rfl⟩⟩
    rintro n ⟨⟩
    exact h.most
  simp only [hdigits]
  exact Regex.reads_seq_group_run

theorem toList_eq {α : Type} (w : Vector α 4) : w.toList = [w[0], w[1], w[2], w[3]] := by
  obtain ⟨⟨l⟩, hl⟩ := w
  match l, hl with
  | [_, _, _, _], _ => rfl

/-- What the pattern of an `Ipv4` reads. -/
theorem ipv4Check_reads_iff : ipv4Check.Reads 0 s [] texts ↔
    ∃ w : Vector Text 4, (∀ i : Fin 4, IsDigits 1 3 w[i]) ∧ texts = w.toList ∧ s = dotted w := by
  simp only [ipv4Check, Regex.reads_seq_bol, reads_seq_group_digits, Regex.reads_seq_literal,
    Regex.reads_eol]
  constructor
  · rintro ⟨a, ha, _, _, ⟨_, ⟨b, hb, _, _, ⟨_, ⟨c, hc, _, _, ⟨_, ⟨d, hd, _, _, ⟨rfl, rfl⟩,
      rfl, rfl⟩, rfl⟩, rfl, rfl⟩, rfl⟩, rfl, rfl⟩, rfl⟩, rfl, rfl⟩
    refine ⟨#v[a, b, c, d], fun i => ?_, rfl, by simp [dotted]⟩
    match i with
    | 0 => exact ha
    | 1 => exact hb
    | 2 => exact hc
    | 3 => exact hd
  · rintro ⟨w, hw, rfl, rfl⟩
    refine ⟨w[0], hw 0, _, _, ⟨_, ⟨w[1], hw 1, _, _, ⟨_, ⟨w[2], hw 2, _, _, ⟨_, ⟨w[3], hw 3, _, _,
      ⟨rfl, rfl⟩, rfl, rfl⟩, rfl⟩, rfl, rfl⟩, rfl⟩, rfl, rfl⟩, rfl⟩, ?_, ?_⟩
    · simp [dotted]
    · rw [toList_eq]

/-- What the pattern of a `SocketAddress` reads. -/
theorem addrCheck_reads_iff : addrCheck.Reads 0 s [] texts ↔
    ∃ ip port, (∀ c ∈ ip, (c != '\n' && c != '\r') = true) ∧ IsDigits 1 5 port ∧
      texts = [ip, port] ∧ s = ip ++ ':' :: port := by
  simp only [addrCheck, Regex.reads_seq_bol, Regex.anything, Regex.reads_seq_group_run,
    reads_seq_group_digits, Regex.reads_seq_literal, Regex.reads_eol]
  constructor
  · rintro ⟨ip, ⟨hip, -⟩, _, _, ⟨_, ⟨port, hport, _, _, ⟨rfl, rfl⟩, rfl, rfl⟩, rfl⟩, rfl, rfl⟩
    exact ⟨ip, port, hip, hport, rfl, by simp⟩
  · rintro ⟨ip, port, hip, hport, rfl, rfl⟩
    exact ⟨ip, ⟨hip, Nat.zero_le _, nofun⟩, _, _, ⟨_, ⟨port, hport, _, _, ⟨rfl, rfl⟩, rfl, rfl⟩,
      rfl⟩, by simp, rfl⟩

end Patterns

/-! ## One way to read -/

section Unique

variable {lo hi : ℕ} {s : Text}

theorem IsDigits.notMem {c : Char} (h : IsDigits lo hi s) (hc : c.isDigit = false) : c ∉ s :=
  fun hmem => by simp [h.digits c hmem] at hc

theorem append_cons_inj {c : Char} {a b t u : Text} (hc : c.isDigit = false)
    (ha : IsDigits lo hi a) (hb : IsDigits lo hi b) (h : a ++ c :: t = b ++ c :: u) :
    a = b ∧ t = u := by
  obtain ⟨hab, htu⟩ := append_separated_inj (ha.notMem hc) (hb.notMem hc) (.inr rfl) (.inr rfl) h
  exact ⟨hab, (List.cons.inj htu).2⟩

/-- Dotted groups of digits can be told apart. -/
theorem dotted_inj {w w' : Vector Text 4} (hw : ∀ i : Fin 4, IsDigits 1 3 w[i])
    (hw' : ∀ i : Fin 4, IsDigits 1 3 w'[i]) (h : dotted w = dotted w') : w = w' := by
  simp only [dotted, List.append_assoc, List.cons_append] at h
  obtain ⟨h0, h⟩ := append_cons_inj (by decide) (hw 0) (hw' 0) h
  obtain ⟨h1, h⟩ := append_cons_inj (by decide) (hw 1) (hw' 1) h
  obtain ⟨h2, h3⟩ := append_cons_inj (by decide) (hw 2) (hw' 2) h
  rw [← Vector.toList_inj, toList_eq, toList_eq]
  exact congrArg₂ _ h0 (congrArg₂ _ h1 (congrArg₂ _ h2 (congrArg (fun l => [l]) h3)))

/-- The colon that is read is the last one. -/
theorem colon_inj {a b p q : Text} (hp : IsDigits lo hi p) (hq : IsDigits lo hi q)
    (h : a ++ ':' :: p = b ++ ':' :: q) : a = b ∧ p = q := by
  have hnp : ':' ∉ p.reverse := fun hmem => hp.notMem (by decide) (List.mem_reverse.mp hmem)
  have hnq : ':' ∉ q.reverse := fun hmem => hq.notMem (by decide) (List.mem_reverse.mp hmem)
  have hreverse := congrArg List.reverse h
  simp only [List.reverse_append, List.reverse_cons, List.append_assoc, List.singleton_append]
    at hreverse
  obtain ⟨hpq, hab⟩ := append_separated_inj hnp hnq (.inr rfl) (.inr rfl) hreverse
  exact ⟨List.reverse_inj.mp (List.cons.inj hab).2, List.reverse_inj.mp hpq⟩

/-- The expression takes four groups of up to three digits. -/
theorem ipv4Check_match_iff {texts : List Text} : ipv4Check.match s = some texts ↔
    ∃ w : Vector Text 4, (∀ i : Fin 4, IsDigits 1 3 w[i]) ∧ texts = w.toList ∧ s = dotted w := by
  refine ⟨fun h => ipv4Check_reads_iff.mp (Regex.reads_of_match h), fun h => ?_⟩
  refine Regex.match_eq_some_of_unique (ipv4Check_reads_iff.mpr h) fun texts' h' => ?_
  obtain ⟨w, hw, rfl, rfl⟩ := h
  obtain ⟨w', hw', rfl, heq⟩ := ipv4Check_reads_iff.mp h'
  rw [dotted_inj hw hw' heq]

/-- And here what stands before the last colon and up to five digits. -/
theorem addrCheck_match_iff {texts : List Text} : addrCheck.match s = some texts ↔
    ∃ ip port, (∀ c ∈ ip, (c != '\n' && c != '\r') = true) ∧ IsDigits 1 5 port ∧
      texts = [ip, port] ∧ s = ip ++ ':' :: port := by
  refine ⟨fun h => addrCheck_reads_iff.mp (Regex.reads_of_match h), fun h => ?_⟩
  refine Regex.match_eq_some_of_unique (addrCheck_reads_iff.mpr h) fun texts' h' => ?_
  obtain ⟨ip, port, -, hport, rfl, rfl⟩ := h
  obtain ⟨ip', port', -, hport', rfl, heq⟩ := addrCheck_reads_iff.mp h'
  obtain ⟨rfl, rfl⟩ := colon_inj hport hport' heq
  rfl

end Unique

/-! ## Numbers -/

section Numbers

variable {lo hi : ℕ} {s : Text}

/-- Up to nine digits fit into an `int`. -/
theorem stoi_of_isDigits (h : IsDigits lo hi s) (hlo : 0 < lo) (hhi : hi ≤ 9) :
    Lib.stoi s = .ok (Nat.ofDigitChars 10 s 0 : ℤ) := by
  have hlt := ofDigitChars_lt h.digits
  have hpow : 10 ^ s.length ≤ 10 ^ 9 := Nat.pow_le_pow_right (by decide) (h.most.trans hhi)
  refine stoi_digits (fun hnil => ?_) h.digits (by omega)
  have hleast := h.least
  simp [hnil] at hleast
  omega

/-- A group of digits is a number in the range of a byte, or refused. -/
theorem parseOctetFromString_digits (h : IsDigits 1 3 s) : parseOctetFromString s =
    if Nat.ofDigitChars 10 s 0 ≤ 255 then .ok (Nat.ofDigitChars 10 s 0).toUInt8
    else .error .invalidArgument := by
  rw [parseOctetFromString, stoi_of_isDigits h (by decide) (by decide)]
  by_cases hn : Nat.ofDigitChars 10 s 0 ≤ 255
  · simp [hn, pure, Except.pure, bind, Except.bind]
  · simp [hn, bind, Except.bind, throw, throwThe, MonadExceptOf.throw]

theorem parsePortFromString_digits (h : IsDigits 1 5 s) : parsePortFromString s =
    if Nat.ofDigitChars 10 s 0 ≤ 65535 then .ok (Nat.ofDigitChars 10 s 0).toUInt16
    else .error .invalidArgument := by
  rw [parsePortFromString, stoi_of_isDigits h (by decide) (by decide)]
  by_cases hn : Nat.ofDigitChars 10 s 0 ≤ 65535
  · simp [hn, pure, Except.pure, bind, Except.bind]
  · simp [hn, bind, Except.bind, throw, throwThe, MonadExceptOf.throw]

/-- An octet is the numeral of a number below 256. -/
theorem parseOctetFromString_eq_ok_iff (h : IsDigits 1 3 s) {n : UInt8} :
    parseOctetFromString s = .ok n ↔ IsNumeral 1 3 s n.toNat := by
  rw [parseOctetFromString_digits h]
  constructor
  · intro hok
    split at hok
    · next hn =>
      cases hok
      refine ⟨h, ?_⟩
      rw [Nat.toUInt8, UInt8.toNat_ofNat', Nat.mod_eq_of_lt (by omega)]
    · cases hok
  · rintro ⟨-, hvalue⟩
    have hlt := n.toNat_lt
    rw [hvalue, if_pos (by omega), Nat.toUInt8, UInt8.ofNat_toNat]

/-- A port is the numeral of a number below 65536. -/
theorem parsePortFromString_eq_ok_iff (h : IsDigits 1 5 s) {n : UInt16} :
    parsePortFromString s = .ok n ↔ IsNumeral 1 5 s n.toNat := by
  rw [parsePortFromString_digits h]
  constructor
  · intro hok
    split at hok
    · next hn =>
      cases hok
      refine ⟨h, ?_⟩
      rw [Nat.toUInt16, UInt16.toNat_ofNat', Nat.mod_eq_of_lt (by omega)]
    · cases hok
  · rintro ⟨-, hvalue⟩
    have hlt := n.toNat_lt
    rw [hvalue, if_pos (by omega), Nat.toUInt16, UInt16.ofNat_toNat]

end Numbers

/-! ## The parsers accept the addresses -/

section Mapped

universe u

variable {α β ε : Type u} {f : α → Except ε β}

theorem mapM_eq_ok_iff {l : List α} {l' : List β} :
    l.mapM f = .ok l' ↔ List.Forall₂ (fun a b => f a = .ok b) l l' := by
  induction l generalizing l' with
  | nil => cases l' <;> simp [pure, Except.pure]
  | cons a l ih =>
    rw [List.mapM_cons, List.forall₂_cons_left_iff]
    cases ha : f a with
    | error e => simp [bind, Except.bind]
    | ok b =>
      simp only [← ih]
      cases hl : l.mapM f <;> simp [bind, Except.bind, pure, Except.pure]
      grind

theorem exists_of_mapM_eq_error {l : List α} {e : ε} (h : l.mapM f = .error e) :
    ∃ a ∈ l, f a = .error e := by
  induction l with
  | nil => cases h
  | cons a l ih =>
    rw [List.mapM_cons] at h
    cases ha : f a with
    | error e' =>
      rw [ha] at h
      cases h
      exact ⟨a, List.mem_cons_self, ha⟩
    | ok b =>
      rw [ha] at h
      cases hl : l.mapM f with
      | error e' =>
        have hl' : e' = e := by simpa [hl, bind, Except.bind] using h
        obtain ⟨a', hmem, ha'⟩ := ih (hl' ▸ hl)
        exact ⟨a', List.mem_cons_of_mem a hmem, ha'⟩
      | ok l' => simp [hl, bind, Except.bind, pure, Except.pure] at h

end Mapped

section Ipv4s

variable {s : Text} {a : Ipv4} {w : Vector Text 4}

theorem length_dotted (hw : ∀ i : Fin 4, IsDigits 1 3 w[i]) : (dotted w).length ≤ 15 := by
  have h0 := (hw 0).most
  have h1 := (hw 1).most
  have h2 := (hw 2).most
  have h3 := (hw 3).most
  simp [dotted] at h0 h1 h2 h3 ⊢
  omega

/-- Groups of digits: the length is no obstacle, and the groups are read. -/
theorem parseStringToOctets_dotted (hw : ∀ i : Fin 4, IsDigits 1 3 w[i]) :
    parseStringToOctets (dotted w) =
      (w.toList.mapM parseOctetFromString).map fun octets =>
        ⟨Vector.ofFn fun i => octets.getD i 0⟩ := by
  have hmatch := ipv4Check_match_iff.mpr ⟨w, hw, rfl, rfl⟩
  have hlength := length_dotted hw
  rw [parseStringToOctets, if_neg (by omega), hmatch]
  rfl

/-- Every other text is refused by its length or by the pattern. -/
theorem parseStringToOctets_refused
    (h : ∀ w : Vector Text 4, (∀ i : Fin 4, IsDigits 1 3 w[i]) → s ≠ dotted w) :
    parseStringToOctets s = .error .invalidArgument := by
  have hmatch : ipv4Check.match s = none := by
    by_contra hsome
    obtain ⟨texts, htexts⟩ := Option.ne_none_iff_exists'.mp hsome
    obtain ⟨w, hw, -, hs⟩ := ipv4Check_match_iff.mp htexts
    exact h w hw hs
  rw [parseStringToOctets, hmatch]
  split <;> rfl

/-- An address is parsed octet by octet. -/
theorem parseStringToOctets_dotted_eq_ok_iff (hw : ∀ i : Fin 4, IsDigits 1 3 w[i]) :
    parseStringToOctets (dotted w) = .ok a ↔
      ∀ i : Fin 4, IsNumeral 1 3 w[i] a.addr[i].toNat := by
  have hread : ∀ i : Fin 4, parseOctetFromString w[i] = .ok a.addr[i] ↔
      IsNumeral 1 3 w[i] a.addr[i].toNat := fun i => parseOctetFromString_eq_ok_iff (hw i)
  simp only [← hread]
  rw [parseStringToOctets_dotted hw]
  constructor
  · intro hok
    cases hoctets : w.toList.mapM parseOctetFromString with
    | error e =>
      rw [hoctets] at hok
      cases hok
    | ok octets =>
      rw [hoctets] at hok
      cases hok
      rw [mapM_eq_ok_iff, toList_eq] at hoctets
      simp only [List.forall₂_cons_left_iff, List.forall₂_nil_left_iff] at hoctets
      obtain ⟨n0, _, h0, ⟨n1, _, h1, ⟨n2, _, h2, ⟨n3, _, h3, rfl, rfl⟩, rfl⟩, rfl⟩, rfl⟩ := hoctets
      intro i
      match i with
      | 0 => simpa using h0
      | 1 => simpa using h1
      | 2 => simpa using h2
      | 3 => simpa using h3
  · intro hall
    have hoctets : w.toList.mapM parseOctetFromString = .ok a.addr.toList := by
      rw [mapM_eq_ok_iff, toList_eq, toList_eq]
      exact .cons (hall 0) (.cons (hall 1) (.cons (hall 2) (.cons (hall 3) .nil)))
    rw [hoctets]
    have haddr : Vector.ofFn (fun i : Fin 4 => a.addr.toList.getD i 0) = a.addr := by
      ext i hi
      simp
    show Except.ok (Ipv4.mk (Vector.ofFn fun i : Fin 4 => a.addr.toList.getD i 0)) = _
    rw [haddr]

/-- **An `Ipv4` is read exactly from its texts.** -/
theorem parseStringToOctets_eq_ok_iff : parseStringToOctets s = .ok a ↔ IsIpv4 s a := by
  constructor
  · intro hok
    by_cases h : ∃ w : Vector Text 4, (∀ i : Fin 4, IsDigits 1 3 w[i]) ∧ s = dotted w
    · obtain ⟨w, hw, rfl⟩ := h
      exact ⟨w, (parseStringToOctets_dotted_eq_ok_iff hw).mp hok, rfl⟩
    · push Not at h
      rw [parseStringToOctets_refused h] at hok
      cases hok
  · rintro ⟨w, hw, rfl⟩
    exact (parseStringToOctets_dotted_eq_ok_iff fun i => (hw i).toIsDigits).mpr hw

/-- There is only one kind of error. -/
theorem eq_invalidArgument_of_parseStringToOctets {e : ConversionError}
    (h : parseStringToOctets s = .error e) : e = .invalidArgument := by
  by_cases hs : ∃ w : Vector Text 4, (∀ i : Fin 4, IsDigits 1 3 w[i]) ∧ s = dotted w
  · obtain ⟨w, hw, rfl⟩ := hs
    rw [parseStringToOctets_dotted hw] at h
    cases hoctets : w.toList.mapM parseOctetFromString with
    | ok octets =>
      rw [hoctets] at h
      cases h
    | error e' =>
      rw [hoctets] at h
      cases h
      obtain ⟨u, hu, herror⟩ := exists_of_mapM_eq_error hoctets
      have hdigits : IsDigits 1 3 u := by
        obtain ⟨i, hi, rfl⟩ := List.getElem_of_mem hu
        simpa using hw ⟨i, by simpa using hi⟩
      rw [parseOctetFromString_digits hdigits] at herror
      split at herror <;> cases herror
      rfl
  · push Not at hs
    rw [parseStringToOctets_refused hs] at h
    cases h
    rfl

theorem IsIpv4.length (h : IsIpv4 s a) : s.length ≤ 15 := by
  obtain ⟨w, hw, rfl⟩ := h
  exact length_dotted fun i => (hw i).toIsDigits

/-- An address has no line's end in it, so that the pattern's first group reads it. -/
theorem IsIpv4.not_lineEnd (h : IsIpv4 s a) : ∀ c ∈ s, (c != '\n' && c != '\r') = true := by
  obtain ⟨w, hw, rfl⟩ := h
  have hdigit : ∀ c : Char, c.isDigit = true → (c != '\n' && c != '\r') = true := by
    intro c hc
    by_contra hend
    simp only [Bool.and_eq_true, bne_iff_ne, ne_eq, not_and_or, not_not] at hend
    rcases hend with rfl | rfl <;> cases hc
  have h0 := (hw 0).digits
  have h1 := (hw 1).digits
  have h2 := (hw 2).digits
  have h3 := (hw 3).digits
  intro c hc
  simp only [dotted, List.append_assoc, List.cons_append, List.mem_append, List.mem_cons] at hc
  rcases hc with hc | rfl | hc | rfl | hc | rfl | hc
  · exact hdigit c (h0 c hc)
  · rfl
  · exact hdigit c (h1 c hc)
  · rfl
  · exact hdigit c (h2 c hc)
  · rfl
  · exact hdigit c (h3 c hc)

end Ipv4s

section SocketAddresses

variable {s ip port : Text} {a : SocketAddress}

/-- A text with a colon and digits behind it, that is not too long: the parts are read. -/
theorem parseSocketAddress_colon (hlength : (ip ++ ':' :: port).length ≤ 21)
    (hip : ∀ c ∈ ip, (c != '\n' && c != '\r') = true) (hport : IsDigits 1 5 port) :
    parseSocketAddress (ip ++ ':' :: port) =
      match parseStringToOctets ip, parsePortFromString port with
      | .ok ip, .ok port => .ok ⟨ip, port⟩
      | _, _ => .error .invalidArgument := by
  have hmatch := addrCheck_match_iff.mpr ⟨ip, port, hip, hport, rfl, rfl⟩
  rw [parseSocketAddress, if_neg (by omega), hmatch]
  simp only [List.getD_cons_zero, List.getD_cons_succ]
  cases parseStringToOctets ip with
  | error e => rfl
  | ok ip =>
    cases parsePortFromString port with
    | error e => rfl
    | ok port => rfl

/-- A text that is too long or has no port is refused. -/
theorem parseSocketAddress_refused (h : 21 < s.length ∨ ∀ ip port,
    (∀ c ∈ ip, (c != '\n' && c != '\r') = true) → IsDigits 1 5 port → s ≠ ip ++ ':' :: port) :
    parseSocketAddress s = .error .invalidArgument := by
  rw [parseSocketAddress]
  split
  · rfl
  · next hlength =>
    have hmatch : addrCheck.match s = none := by
      by_contra hsome
      obtain ⟨texts, htexts⟩ := Option.ne_none_iff_exists'.mp hsome
      obtain ⟨ip, port, hip, hport, -, hs⟩ := addrCheck_match_iff.mp htexts
      exact (h.resolve_left hlength) ip port hip hport hs
    rw [hmatch]
    rfl

/-- **A `SocketAddress` is read exactly from its texts.** -/
theorem parseSocketAddress_eq_ok_iff : parseSocketAddress s = .ok a ↔ IsSocketAddress s a := by
  constructor
  · intro hok
    by_cases h : 21 < s.length ∨ ∀ ip port, (∀ c ∈ ip, (c != '\n' && c != '\r') = true) →
        IsDigits 1 5 port → s ≠ ip ++ ':' :: port
    · rw [parseSocketAddress_refused h] at hok
      cases hok
    · push Not at h
      obtain ⟨hlength, ip, port, hip, hport, rfl⟩ := h
      rw [parseSocketAddress_colon hlength hip hport] at hok
      split at hok
      · next ipAddr p hipAddr hp =>
        cases hok
        exact ⟨ip, port, parseStringToOctets_eq_ok_iff.mp hipAddr,
          (parsePortFromString_eq_ok_iff hport).mp hp, rfl⟩
      · cases hok
  · rintro ⟨ip, port, hip, hport, rfl⟩
    have hlength : (ip ++ ':' :: port).length ≤ 21 := by
      have := hip.length
      have := hport.most
      simp
      omega
    rw [parseSocketAddress_colon hlength hip.not_lineEnd hport.toIsDigits,
      parseStringToOctets_eq_ok_iff.mpr hip,
      (parsePortFromString_eq_ok_iff hport.toIsDigits).mpr hport]

theorem eq_invalidArgument_of_parseSocketAddress {e : ConversionError}
    (h : parseSocketAddress s = .error e) : e = .invalidArgument := by
  by_cases hs : 21 < s.length ∨ ∀ ip port, (∀ c ∈ ip, (c != '\n' && c != '\r') = true) →
      IsDigits 1 5 port → s ≠ ip ++ ':' :: port
  · rw [parseSocketAddress_refused hs] at h
    cases h
    rfl
  · push Not at hs
    obtain ⟨hlength, ip, port, hip, hport, rfl⟩ := hs
    rw [parseSocketAddress_colon hlength hip hport] at h
    split at h <;> cases h
    rfl

end SocketAddresses

/-! ## The texts of addresses -/

theorem isNumeral_decimal {hi n : ℕ} (hpos : 0 < hi) (hn : n < 10 ^ hi) :
    IsNumeral 1 hi (decimal n) n where
  digits _ hc := Nat.isDigit_of_mem_toDigits (by decide) (by decide) hc
  least := Nat.length_toDigits_pos
  most := Nat.toDigits_length 10 n hi hpos hn
  value := Nat.ofDigitChars_ten_toDigits

/-- The text of an address is an address. -/
theorem isIpv4_toText (a : Ipv4) : IsIpv4 a.toText a := by
  refine ⟨#v[decimal a.addr[0].toNat, decimal a.addr[1].toNat, decimal a.addr[2].toNat,
    decimal a.addr[3].toNat], fun i => ?_, rfl⟩
  have hnumeral : ∀ n : UInt8, IsNumeral 1 3 (decimal n.toNat) n.toNat := fun n =>
    isNumeral_decimal (by decide) (n.toNat_lt.trans (by decide))
  match i with
  | 0 => exact hnumeral _
  | 1 => exact hnumeral _
  | 2 => exact hnumeral _
  | 3 => exact hnumeral _

/-- So is the text of a socket address. -/
theorem isSocketAddress_toText (a : SocketAddress) : IsSocketAddress a.toText a :=
  ⟨_, _, isIpv4_toText a.ipAddr,
    isNumeral_decimal (by decide) (a.port.toNat_lt.trans (by decide)), rfl⟩

/-- **Both parsers read exactly the addresses, and refuse every other text in one way.** -/
theorem addresses_parse :
    (∀ s a, parseSocketAddress s = .ok a ↔ IsSocketAddress s a) ∧
    (∀ s, (¬ ∃ a, IsSocketAddress s a) → parseSocketAddress s = .error .invalidArgument) ∧
    (∀ a : SocketAddress, parseSocketAddress a.toText = .ok a) ∧
    (∀ s a, parseStringToOctets s = .ok a ↔ IsIpv4 s a) ∧
    (∀ s, (¬ ∃ a, IsIpv4 s a) → parseStringToOctets s = .error .invalidArgument) ∧
    ∀ a : Ipv4, parseStringToOctets a.toText = .ok a := by
  refine ⟨fun _ _ => parseSocketAddress_eq_ok_iff, fun s hs => ?_,
    fun a => parseSocketAddress_eq_ok_iff.mpr (isSocketAddress_toText a),
    fun _ _ => parseStringToOctets_eq_ok_iff, fun s hs => ?_,
    fun a => parseStringToOctets_eq_ok_iff.mpr (isIpv4_toText a)⟩
  · cases hparse : parseSocketAddress s with
    | ok a => exact absurd ⟨a, parseSocketAddress_eq_ok_iff.mp hparse⟩ hs
    | error e => rw [eq_invalidArgument_of_parseSocketAddress hparse]
  · cases hparse : parseStringToOctets s with
    | ok a => exact absurd ⟨a, parseStringToOctets_eq_ok_iff.mp hparse⟩ hs
    | error e => rw [eq_invalidArgument_of_parseStringToOctets hparse]

example : parseSocketAddress "192.168.1.99:12345".toList =
    .ok ⟨⟨#v[192, 168, 1, 99]⟩, 12345⟩ := by decide +kernel

example : parseSocketAddress "192.168.111.230:123 4".toList = .error .invalidArgument := by
  decide +kernel

end Sem.Re.Types
