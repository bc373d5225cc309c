import Sem.Lib.Xml

/-!
# Scanning XML text

`scan` turns the text of a document into tokens. It follows XML 1.0: the five predefined entities
and character references are decoded, an attribute value may not contain `<`, its white space is
read as blanks, line ends are read as line feeds, and characters outside `Char` are errors. DOCTYPE
declarations and CDATA sections are not read. One character of content is one `characters` token,
so that a scan of a text is a scan of its pieces.

* `renderTag`: the text of a tag whose attribute values are written as they are.
* `scanItem_renderTag`, `scanItem_endTag`: the scanner reads such a tag back when the values are
  `CleanValue`s.
* `scanItem_startTag_value`: and only then does it read its first value back.
* `Reads.escape`: the scanner reads escaped content back.
-/

namespace Sem.Xml

/-! ## Characters -/

/-- `Char` of XML 1.0. -/
def isXmlChar (c : Char) : Bool :=
  c = '\t' || c = '\n' || c = '\r' || (0x20 ≤ c.toNat && c.toNat ≤ 0xD7FF) ||
    (0xE000 ≤ c.toNat && c.toNat ≤ 0xFFFD) || 0x10000 ≤ c.toNat

/-- White space of XML. -/
def isSpace (c : Char) : Bool := c = ' ' || c = '\t' || c = '\n' || c = '\r'

/-- The ranges of `NameStartChar` beyond ASCII. -/
def nameStartRanges : List (Nat × Nat) :=
  [(0xC0, 0xD6), (0xD8, 0xF6), (0xF8, 0x2FF), (0x370, 0x37D), (0x37F, 0x1FFF), (0x200C, 0x200D),
    (0x2070, 0x218F), (0x2C00, 0x2FEF), (0x3001, 0xD7FF), (0xF900, 0xFDCF), (0xFDF0, 0xFFFD),
    (0x10000, 0xEFFFF)]

/-- The characters that a name may begin with. -/
def isNameStart (c : Char) : Bool :=
  c.isAlpha || c = '_' || c = ':' || nameStartRanges.any fun r => r.1 ≤ c.toNat && c.toNat ≤ r.2

/-- The characters that a name may have. -/
def isNameChar (c : Char) : Bool :=
  isNameStart c || c.isDigit || c = '-' || c = '.' || c.toNat = 0xB7 ||
    (0x300 ≤ c.toNat && c.toNat ≤ 0x36F) || (0x203F ≤ c.toNat && c.toNat ≤ 0x2040)

/-! ## References -/

/-- The value of a hexadecimal digit. -/
def hexDigit? (c : Char) : Option Nat :=
  if c.isDigit then some (c.toNat - '0'.toNat)
  else if 'a' ≤ c ∧ c ≤ 'f' then some (c.toNat - 'a'.toNat + 10)
  else if 'A' ≤ c ∧ c ≤ 'F' then some (c.toNat - 'A'.toNat + 10)
  else none

/-- The value of a decimal digit. -/
def digit? (c : Char) : Option Nat := if c.isDigit then some (c.toNat - '0'.toNat) else none

/-- The number that `digits` write to the base `base`. -/
def readNumber (base : Nat) (digit : Char → Option Nat) (digits : Text) : Option Nat :=
  if digits = [] then none
  else digits.foldlM (fun n c => (digit c).map (base * n + ·)) 0

/-- The character with the number `n`, when XML allows it. -/
def charOfNumber (n : Nat) : Option Char :=
  if n.isValidChar ∧ isXmlChar (Char.ofNat n) then some (Char.ofNat n) else none

/-- What is between `&` and `;`. -/
def decodeReference : Text → Option Char
  | '#' :: 'x' :: digits => (readNumber 16 hexDigit? digits).bind charOfNumber
  | '#' :: digits => (readNumber 10 digit? digits).bind charOfNumber
  | name =>
    if name = "amp".toList then some '&'
    else if name = "lt".toList then some '<'
    else if name = "gt".toList then some '>'
    else if name = "quot".toList then some '"'
    else if name = "apos".toList then some '\''
    else none

/-- A reference after its `&`: the character and what follows the `;`. -/
def scanReference (cs : Text) : Option (Char × Text) :=
  match cs.dropWhile (· ≠ ';') with
  | _ :: rest => (decodeReference (cs.takeWhile (· ≠ ';'))).map fun c => (c, rest)
  | [] => none

/-- Decode the references of an attribute value; the first argument is the reference that is being
read, backwards. -/
def unescape : Option Text → Text → Option Text
  | none, [] => some []
  | some _, [] => none
  | none, c :: cs =>
    if c = '&' then unescape (some []) cs else (unescape none cs).map (c :: ·)
  | some body, c :: cs =>
    if c = ';' then (decodeReference body.reverse).bind fun d => (unescape none cs).map (d :: ·)
    else unescape (some (c :: body)) cs

/-! ## Tags -/

/-- What follows the white space. -/
def skipSpaces (cs : Text) : Text := cs.dropWhile isSpace

/-- A name, and what follows it. -/
def scanName : Text → Option (Text × Text)
  | [] => none
  | c :: cs => if isNameStart c then some (c :: cs.takeWhile isNameChar, cs.dropWhile isNameChar)
    else none

/-- White space in an attribute value is read as blanks, a line end as one. -/
def normalizeSpaces : Text → Text
  | [] => []
  | '\r' :: '\n' :: cs => ' ' :: normalizeSpaces cs
  | c :: cs => (if isSpace c then ' ' else c) :: normalizeSpaces cs

/-- The value of the raw text between quotes. -/
def attributeValue (raw : Text) : Option Text :=
  if raw.all isXmlChar ∧ '<' ∉ raw then unescape none (normalizeSpaces raw) else none

/-- An attribute value after its opening quote `q`. -/
def scanValue (q : Char) (cs : Text) : Option (Text × Text) :=
  match cs.dropWhile (· ≠ q) with
  | _ :: rest => (attributeValue (cs.takeWhile (· ≠ q))).map fun v => (v, rest)
  | [] => none

/-- An attribute with its value in quotes, and what follows it. -/
def scanAttribute (cs : Text) : Option ((Text × Text) × Text) :=
  (scanName cs).bind fun (name, rest) =>
    match skipSpaces rest with
    | '=' :: rest =>
      match skipSpaces rest with
      | q :: rest => if q = '"' ∨ q = '\'' then
          (scanValue q rest).map fun r => ((name, r.1), r.2)
        else none
      | [] => none
    | _ => none

/-- The attributes and the end of a start tag: whether it is an empty-element tag, and what
follows. -/
def scanAttributes : Nat → Text → Option (Attributes × Bool × Text)
  | 0, _ => none
  | fuel + 1, cs =>
    match skipSpaces cs with
    | '>' :: rest => some ([], false, rest)
    | '/' :: '>' :: rest => some ([], true, rest)
    | cs' =>
      -- attributes are separated by white space
      if cs'.length = cs.length then none
      else (scanAttribute cs').bind fun (attr, rest) =>
        (scanAttributes fuel rest).bind fun (attrs, r) =>
          if attr.1 ∈ attrs.map (·.1) then none else some (attr :: attrs, r)

/-- A start tag, with the end of an element that is empty, and what follows it. -/
def scanStartTag (cs : Text) : Option (List Token × Text) :=
  (scanName cs).bind fun (name, rest) =>
    (scanAttributes (rest.length + 1) rest).map fun (attrs, isEmpty, rest) =>
      (.startElement name attrs :: if isEmpty then [.endElement name] else [], rest)

/-- An end tag, and what follows it. -/
def scanEndTag (cs : Text) : Option (List Token × Text) :=
  (scanName cs).bind fun (name, rest) =>
    match skipSpaces rest with
    | '>' :: rest => some ([.endElement name], rest)
    | _ => none

/-- Split a text after the first occurrence of `stop`. -/
def scanUntil (stop : Text) : Text → Option (Text × Text)
  | [] => none
  | c :: cs =>
    if stop.isPrefixOf (c :: cs) then some ([], (c :: cs).drop stop.length)
    else (scanUntil stop cs).map fun r => (c :: r.1, r.2)

/-- What follows a `<`. -/
def scanMarkup : Text → Option (List Token × Text)
  | '?' :: cs => (scanUntil "?>".toList cs).map fun r => ([.processingInstruction r.1], r.2)
  | '!' :: '-' :: '-' :: cs => (scanUntil "-->".toList cs).map fun r => ([.comment r.1], r.2)
  | '/' :: cs => scanEndTag cs
  | cs => scanStartTag cs

/-! ## Documents -/

/-- A tag, a comment, a processing instruction, or one character of content. -/
def scanItem : Text → Option (List Token × Text)
  | [] => none
  | '<' :: cs => scanMarkup cs
  | '&' :: cs => (scanReference cs).map fun r => ([.characters [r.1]], r.2)
  | '\r' :: '\n' :: cs => some ([.characters ['\n']], cs)
  | '\r' :: cs => some ([.characters ['\n']], cs)
  | c :: cs => if isXmlChar c then some ([.characters [c]], cs) else none

/-- The items of a text; no item is empty, so the number bounds how many there are. -/
def scanItems : Nat → Text → Option (List Token)
  | _, [] => some []
  | 0, _ :: _ => none
  | fuel + 1, c :: cs => (scanItem (c :: cs)).bind fun (tokens, rest) =>
      (scanItems fuel rest).map (tokens ++ ·)

/-- The tokens of a text. An item has at least one character, so the fuel is enough. -/
def scan (cs : Text) : Option (List Token) := scanItems cs.length cs

/-- The text has the tokens. -/
def Scans (cs : Text) (tokens : List Token) : Prop := scan cs = some tokens

/-- More fuel, the same tokens. -/
theorem scanItems_mono {fuel fuel' : Nat} {cs : Text} {tokens : List Token}
    (h : scanItems fuel cs = some tokens) (hle : fuel ≤ fuel') :
    scanItems fuel' cs = some tokens := by
  induction fuel generalizing fuel' cs tokens with
  | zero =>
    cases cs with
    | nil => cases fuel' <;> exact h
    | cons c cs => cases h
  | succ fuel ih =>
    obtain ⟨fuel', rfl⟩ : ∃ k, fuel' = k + 1 := ⟨fuel' - 1, by omega⟩
    cases cs with
    | nil => exact h
    | cons c cs =>
      obtain ⟨⟨ts, rest⟩, hitem, hrest⟩ := Option.bind_eq_some_iff.mp h
      obtain ⟨ts', hts', rfl⟩ := Option.map_eq_some_iff.mp hrest
      exact Option.bind_eq_some_iff.mpr ⟨(ts, rest), hitem,
        Option.map_eq_some_iff.mpr ⟨ts', ih hts' (by omega), rfl⟩⟩

theorem Scans.nil : Scans [] [] := rfl

/-- A scan begins with its first item. -/
theorem scanItems_item {fuel : Nat} {text rest : Text} {tokens ts : List Token}
    (hitem : scanItem (text ++ rest) = some (tokens, rest)) (hne : text ≠ [])
    (h : scanItems fuel (text ++ rest) = some ts) :
    ∃ fuel' ts', ts = tokens ++ ts' ∧ scanItems fuel' rest = some ts' := by
  obtain ⟨c, cs, rfl⟩ := List.exists_cons_of_ne_nil hne
  cases fuel with
  | zero => cases h
  | succ fuel =>
    obtain ⟨r, hr, hrest⟩ := Option.bind_eq_some_iff.mp h
    obtain rfl := Option.some.inj (hr.symm.trans hitem)
    obtain ⟨ts', hts', rfl⟩ := Option.map_eq_some_iff.mp hrest
    exact ⟨fuel, ts', rfl, hts'⟩

/-- One item in front of a scanned text. -/
theorem Scans.item {text rest : Text} {tokens tokens' : List Token}
    (hitem : scanItem (text ++ rest) = some (tokens, rest)) (hne : text ≠ [])
    (h : Scans rest tokens') : Scans (text ++ rest) (tokens ++ tokens') := by
  obtain ⟨c, cs, rfl⟩ := List.exists_cons_of_ne_nil hne
  have hrest : scanItems (cs ++ rest).length rest = some tokens' :=
    scanItems_mono h (by simp)
  exact Option.bind_eq_some_iff.mpr ⟨_, hitem, Option.map_eq_some_iff.mpr ⟨_, hrest, rfl⟩⟩

/-! ## Content -/

/-- A character of content that stands for itself. -/
def isPlain (c : Char) : Bool := isXmlChar c && c ≠ '<' && c ≠ '&' && c ≠ '\r'

/-- The tokens of content. -/
def contentTokens (cs : Text) : List Token := cs.map fun c => .characters [c]

/-- A plain character is a token of its own. -/
theorem scanItem_plain {c : Char} (h : isPlain c) (rest : Text) :
    scanItem (c :: rest) = some ([.characters [c]], rest) := by
  simp only [isPlain, Bool.and_eq_true, decide_eq_true_eq] at h
  obtain ⟨⟨⟨hxml, hlt⟩, hamp⟩, hcr⟩ := h
  unfold scanItem
  split <;> simp_all

/-- The predefined entity of a character, or the character itself. -/
def escapeChar (c : Char) : Text :=
  if c = '&' then "&amp;".toList
  else if c = '>' then "&gt;".toList
  else if c = '<' then "&lt;".toList
  else if c = '"' then "&quot;".toList
  else if c = '\'' then "&apos;".toList
  else [c]

/-- A text with references in place of the special characters. -/
def escape (cs : Text) : Text := cs.flatMap escapeChar

/-- An escaped character is read as itself. -/
theorem scanItem_escapeChar {c : Char} (hxml : isXmlChar c) (hcr : c ≠ '\r') (rest : Text) :
    scanItem (escapeChar c ++ rest) = some ([.characters [c]], rest) := by
  unfold escapeChar
  split_ifs with h₁ h₂ h₃ h₄ h₅
  · subst h₁; rfl
  · subst h₂; rfl
  · subst h₃; rfl
  · subst h₄; rfl
  · subst h₅; rfl
  · exact scanItem_plain (by simp [isPlain, hxml, h₁, h₃, hcr]) rest

/-- `readElementText` joins content. -/
theorem readElementText_content (cs : Text) (name : Text) (rest : List Token) :
    readElementText (contentTokens cs ++ .endElement name :: rest) = some (cs, rest) := by
  induction cs with
  | nil => rfl
  | cons c cs ih =>
    show (readElementText (contentTokens cs ++ _)).map _ = _
    rw [ih]
    rfl

/-! ## Rendered tags -/

/-- A tag or attribute name. -/
structure CleanName (name : Text) : Prop where
  head : ∃ c cs, name = c :: cs ∧ isNameStart c = true
  all : ∀ c ∈ name, isNameChar c = true

instance (name : Text) : Decidable (CleanName name) :=
  decidable_of_iff (name.head?.any isNameStart = true ∧ ∀ c ∈ name, isNameChar c = true) <| by
    refine ⟨fun ⟨hhead, hall⟩ => ⟨?_, hall⟩, fun ⟨⟨c, cs, heq, hs⟩, hall⟩ => ⟨?_, hall⟩⟩
    · cases name with
      | nil => cases hhead
      | cons c cs => exact ⟨c, cs, rfl, hhead⟩
    · rw [heq]
      exact hs

/-- An attribute value that stands for itself between double quotes. -/
def CleanValue (value : Text) : Prop :=
  ∀ c ∈ value, isXmlChar c = true ∧ c ≠ '&' ∧ c ≠ '<' ∧ c ≠ '"' ∧ c ≠ '\t' ∧ c ≠ '\n' ∧ c ≠ '\r'

instance (value : Text) : Decidable (CleanValue value) := by
  unfold CleanValue
  infer_instance

/-- An attribute as it is written, with the blank before it. -/
def renderAttribute (attr : Text × Text) : Text :=
  ' ' :: attr.1 ++ '=' :: '"' :: attr.2 ++ ['"']

/-- A start tag, up to its end `close`. -/
def renderTag (name : Text) (attrs : Attributes) (close : Text) : Text :=
  '<' :: name ++ attrs.flatMap renderAttribute ++ close

/-- The value of an attribute with the text `value` between double quotes. -/
theorem attributeValue_clean {value : Text} (h : CleanValue value) :
    attributeValue value = some value := by
  have hspaces : normalizeSpaces value = value := by
    induction value with
    | nil => rfl
    | cons c cs ih =>
      obtain ⟨-, -, -, -, ht, hn, hr⟩ := h c (by simp)
      have hcs := ih fun d hd => h d (by simp [hd])
      unfold normalizeSpaces
      split
      · simp_all
      · simp_all
      · simp_all [isSpace]
  have hunescape : ∀ cs : Text, (∀ c ∈ cs, c ≠ '&') → unescape none cs = some cs := by
    intro cs hcs
    induction cs with
    | nil => rfl
    | cons c cs ih =>
      simp [unescape, hcs c (by simp), ih fun d hd => hcs d (by simp [hd])]
  have hall : value.all isXmlChar = true ∧ '<' ∉ value :=
    ⟨List.all_eq_true.mpr fun c hc => (h c hc).1, fun hm => (h _ hm).2.2.1 rfl⟩
  rw [attributeValue, if_pos hall, hspaces, hunescape value fun c hc => (h c hc).2.1]

theorem takeWhile_dropWhile_append {p : Char → Bool} {cs : Text} {q : Char}
    (hcs : ∀ c ∈ cs, p c = true) (hq : p q = false) (rest : Text) :
    (cs ++ q :: rest).takeWhile p = cs ∧ (cs ++ q :: rest).dropWhile p = q :: rest := by
  rw [List.takeWhile_append_of_pos hcs, List.dropWhile_append_of_pos hcs]
  simp [hq]

/-- A clean value ends at its quote. -/
theorem scanValue_clean {value : Text} (h : CleanValue value) (rest : Text) :
    scanValue '"' (value ++ '"' :: rest) = some (value, rest) := by
  have hp : ∀ c ∈ value, decide (c ≠ '"') = true := fun c hc => by simp [(h c hc).2.2.2.1]
  have hq : decide ('"' ≠ '"') = false := by decide
  obtain ⟨htake, hdrop⟩ := takeWhile_dropWhile_append hp hq rest
  rw [scanValue, htake, hdrop]
  simp [attributeValue_clean h]

/-- A clean name ends at the first other character. -/
theorem scanName_clean {name : Text} (h : CleanName name) {q : Char} (hq : isNameChar q = false)
    (rest : Text) : scanName (name ++ q :: rest) = some (name, q :: rest) := by
  obtain ⟨c, cs, rfl, hstart⟩ := h.head
  obtain ⟨htake, hdrop⟩ := takeWhile_dropWhile_append
    (fun d hd => h.all d (List.mem_cons_of_mem c hd)) hq rest
  simp only [List.cons_append, scanName, hstart, if_true, htake, hdrop]

theorem skipSpaces_nameStart {c : Char} (h : isNameStart c = true) (rest : Text) :
    skipSpaces (c :: rest) = c :: rest := by
  have hc : isSpace c = false := by
    by_contra hs
    simp only [isSpace, Bool.or_eq_true, decide_eq_true_eq, Bool.not_eq_false] at hs
    rcases hs with ((rfl | rfl) | rfl) | rfl <;> revert h <;> decide
  simp [skipSpaces, hc]

/-- A rendered attribute is read back. -/
theorem scanAttribute_clean {name value : Text} (hname : CleanName name)
    (hvalue : CleanValue value) (rest : Text) :
    scanAttribute (name ++ '=' :: '"' :: value ++ '"' :: rest) = some ((name, value), rest) := by
  have hspaces : ∀ cs, skipSpaces ('=' :: cs) = '=' :: cs ∧ skipSpaces ('"' :: cs) = '"' :: cs :=
    fun _ => ⟨rfl, rfl⟩
  rw [scanAttribute, List.append_assoc, List.cons_append, List.cons_append,
    scanName_clean hname (by decide)]
  simp [(hspaces _).1, (hspaces _).2, scanValue_clean hvalue]

/-- The end of a start tag as it is written, and whether it ends an empty-element tag. -/
inductive TagEnd : Text → Bool → Prop
  | open : TagEnd ['>'] false
  | empty : TagEnd ['/', '>'] true

/-- Attributes that read back as they are written. -/
structure CleanAttributes (attrs : Attributes) : Prop where
  names : ∀ attr ∈ attrs, CleanName attr.1
  values : ∀ attr ∈ attrs, CleanValue attr.2
  nodup : (attrs.map (·.1)).Nodup

theorem CleanAttributes.tail {attr : Text × Text} {attrs : Attributes}
    (h : CleanAttributes (attr :: attrs)) : CleanAttributes attrs where
  names a ha := h.names a (List.mem_cons_of_mem _ ha)
  values a ha := h.values a (List.mem_cons_of_mem _ ha)
  nodup := (List.nodup_cons.mp h.nodup).2

theorem scanAttributes_blank {c : Char} (h : isNameStart c = true) (fuel : Nat) (cs : Text) :
    scanAttributes (fuel + 1) (' ' :: c :: cs) =
      (scanAttribute (c :: cs)).bind fun (attr, rest) =>
        (scanAttributes fuel rest).bind fun (attrs, r) =>
          if attr.1 ∈ attrs.map (·.1) then none else some (attr :: attrs, r) := by
  have hskip : skipSpaces (' ' :: c :: cs) = c :: cs := skipSpaces_nameStart h cs
  rw [scanAttributes, hskip]
  split
  · rename_i heq
    obtain ⟨rfl, -⟩ := List.cons.inj heq
    exact absurd h (by decide)
  · rename_i heq
    obtain ⟨rfl, -⟩ := List.cons.inj heq
    exact absurd h (by decide)
  · rw [if_neg (by simp)]

/-- So is a list of them, up to the end of the tag. -/
theorem scanAttributes_render {attrs : Attributes} {close : Text} {isEmpty : Bool}
    (h : CleanAttributes attrs) (hclose : TagEnd close isEmpty) {fuel : Nat}
    (hfuel : attrs.length < fuel) (rest : Text) :
    scanAttributes fuel (attrs.flatMap renderAttribute ++ (close ++ rest)) =
      some (attrs, isEmpty, rest) := by
  induction attrs generalizing fuel with
  | nil =>
    obtain ⟨fuel, rfl⟩ : ∃ k, fuel = k + 1 := ⟨fuel - 1, by simp at hfuel; omega⟩
    cases hclose <;> rfl
  | cons attr attrs ih =>
    obtain ⟨fuel, rfl⟩ : ∃ k, fuel = k + 1 := ⟨fuel - 1, by simp at hfuel; omega⟩
    obtain ⟨c, cs, hname, hstart⟩ := (h.names attr (by simp)).head
    have hrest := ih h.tail (by simpa using hfuel)
    have hnotin : attr.1 ∉ attrs.map (·.1) := (List.nodup_cons.mp h.nodup).1
    have hattr := scanAttribute_clean (h.names attr (by simp)) (h.values attr (by simp))
      (attrs.flatMap renderAttribute ++ (close ++ rest))
    have htext : (attr :: attrs).flatMap renderAttribute ++ (close ++ rest) =
        ' ' :: (attr.1 ++ '=' :: '"' :: attr.2 ++
          '"' :: (attrs.flatMap renderAttribute ++ (close ++ rest))) := by
      simp [renderAttribute]
    rw [htext]
    rw [hname] at hattr ⊢
    simp only [List.cons_append] at hattr ⊢
    rw [scanAttributes_blank hstart, hattr, Option.bind_some]
    dsimp only
    rw [hrest, Option.bind_some]
    dsimp only
    rw [if_neg (hname ▸ hnotin), ← hname]

theorem scanMarkup_nameStart {c : Char} (h : isNameStart c = true) (cs : Text) :
    scanMarkup (c :: cs) = scanStartTag (c :: cs) := by
  unfold scanMarkup
  split
  all_goals try rfl
  all_goals
    rename_i heq
    obtain ⟨rfl, -⟩ := List.cons.inj heq
    exact absurd h (by decide)

theorem length_le_flatMap_renderAttribute (attrs : Attributes) :
    attrs.length ≤ (attrs.flatMap renderAttribute).length := by
  induction attrs with
  | nil => exact Nat.zero_le _
  | cons attr attrs ih =>
    rw [List.flatMap_cons, List.length_append, List.length_cons, renderAttribute]
    simp only [List.length_cons, List.length_append]
    omega

/-- **A rendered start tag is read back.** -/
theorem scanItem_renderTag {name : Text} {attrs : Attributes} {close : Text} {isEmpty : Bool}
    (hname : CleanName name) (hattrs : CleanAttributes attrs) (hclose : TagEnd close isEmpty)
    (rest : Text) :
    scanItem (renderTag name attrs close ++ rest) =
      some (.startElement name attrs :: if isEmpty then [.endElement name] else [], rest) := by
  obtain ⟨c, cs, hcs, hstart⟩ := hname.head
  -- the character after the name ends it
  obtain ⟨q, tail, hq, htail⟩ : ∃ q tail, isNameChar q = false ∧
      attrs.flatMap renderAttribute ++ (close ++ rest) = q :: tail := by
    cases attrs with
    | nil => cases hclose <;> exact ⟨_, _, by decide, rfl⟩
    | cons attr attrs => exact ⟨' ', _, by decide, rfl⟩
  have hlen : attrs.length < (q :: tail).length + 1 := by
    rw [← htail, List.length_append]
    have := length_le_flatMap_renderAttribute attrs
    omega
  have hscan := scanAttributes_render hattrs hclose hlen rest
  have htext : renderTag name attrs close ++ rest = '<' :: (name ++ q :: tail) := by
    rw [← htail]; simp [renderTag]
  rw [htext]
  show scanMarkup (name ++ q :: tail) = _
  rw [htail] at hscan
  rw [hcs, List.cons_append, scanMarkup_nameStart hstart, ← List.cons_append, ← hcs, scanStartTag,
    scanName_clean hname hq, Option.bind_some]
  dsimp only
  rw [hscan]
  rfl

/-- **A rendered end tag is read back.** -/
theorem scanItem_endTag {name : Text} (hname : CleanName name) (rest : Text) :
    scanItem ('<' :: '/' :: name ++ '>' :: rest) = some ([.endElement name], rest) := by
  show scanEndTag (name ++ '>' :: rest) = _
  rw [scanEndTag, scanName_clean hname (by decide), Option.bind_some]
  rfl

theorem scanUntil_mark {body : Text} (h : '?' ∉ body) (rest : Text) :
    scanUntil ['?', '>'] (body ++ '?' :: '>' :: rest) = some (body, rest) := by
  induction body with
  | nil => rfl
  | cons c body ih =>
    have hc : '?' ≠ c := fun heq => h (heq ▸ List.mem_cons_self ..)
    simp [scanUntil, hc, ih fun hm => h (List.mem_cons_of_mem c hm)]

/-- A processing instruction without a question mark in it. -/
theorem scanItem_processingInstruction {body : Text} (h : '?' ∉ body) (rest : Text) :
    scanItem ('<' :: '?' :: (body ++ '?' :: '>' :: rest)) =
      some ([.processingInstruction body], rest) := by
  show (scanUntil ['?', '>'] _).map _ = _
  rw [scanUntil_mark h]
  rfl

/-! ## Values that are read back -/

theorem length_normalizeSpaces (raw : Text) : (normalizeSpaces raw).length ≤ raw.length := by
  fun_induction normalizeSpaces raw with
  | case1 => exact Nat.le_refl _
  | case2 cs ih =>
    simp only [List.length_cons]
    omega
  | case3 c cs hne ih => simpa using ih

/-- No white space but blanks is left. -/
theorem mem_normalizeSpaces {raw : Text} {c : Char} (h : c ∈ normalizeSpaces raw) :
    c ≠ '\t' ∧ c ≠ '\n' ∧ c ≠ '\r' := by
  fun_induction normalizeSpaces raw with
  | case1 => cases h
  | case2 cs ih =>
    rcases List.mem_cons.mp h with rfl | h
    · decide
    · exact ih h
  | case3 d cs hne ih =>
    rcases List.mem_cons.mp h with rfl | h
    · split
      · decide
      · rename_i hspace
        simp only [isSpace, Bool.or_eq_true, decide_eq_true_eq, not_or] at hspace
        exact ⟨hspace.1.1.2, hspace.1.2, hspace.2⟩
    · exact ih h

/-- Decoding shortens a text with references and keeps one without. -/
theorem unescape_eq_some {pending : Option Text} {cs value : Text}
    (h : unescape pending cs = some value) :
    value.length ≤ cs.length ∧
      (pending = none → cs.length ≤ value.length → '&' ∉ cs ∧ value = cs) := by
  fun_induction unescape pending cs generalizing value with
  | case1 =>
    obtain rfl := Option.some.inj h
    exact ⟨Nat.le_refl _, fun _ _ => ⟨by simp, rfl⟩⟩
  | case2 => cases h
  | case3 cs ih =>
    have hle := (ih h).1
    rw [List.length_cons]
    exact ⟨by omega, fun _ _ => by omega⟩
  | case4 c cs hc ih =>
    obtain ⟨v, hv, rfl⟩ := Option.map_eq_some_iff.mp h
    obtain ⟨hle, heq⟩ := ih hv
    rw [List.length_cons, List.length_cons]
    refine ⟨by omega, fun _ hlen => ?_⟩
    obtain ⟨hamp, rfl⟩ := heq rfl (by omega)
    exact ⟨by simp [hamp, Ne.symm hc], rfl⟩
  | case5 body cs ih =>
    obtain ⟨d, -, hd⟩ := Option.bind_eq_some_iff.mp h
    obtain ⟨v, hv, rfl⟩ := Option.map_eq_some_iff.mp hd
    rw [List.length_cons, List.length_cons]
    have := (ih hv).1
    exact ⟨by omega, nofun⟩
  | case6 body c cs hc ih =>
    have := (ih h).1
    rw [List.length_cons]
    exact ⟨by omega, nofun⟩

/-- **A value that is read back from between double quotes stands for itself**: everything that the
reader changes makes a value shorter or is not in what it reads. -/
theorem CleanValue.of_attributeValue {value rest : Text}
    (h : attributeValue ((value ++ '"' :: rest).takeWhile (· ≠ '"')) = some value) :
    CleanValue value := by
  have htake : (value ++ '"' :: rest).takeWhile (· ≠ '"') = value.takeWhile (· ≠ '"') := by
    rw [List.takeWhile_append]
    split
    · rename_i hlen
      rw [(List.takeWhile_prefix _).eq_of_length hlen]
      simp
    · rfl
  rw [htake, attributeValue] at h
  split at h
  · rename_i hraw
    obtain ⟨hxml, hlt⟩ := hraw
    have hpre : value.takeWhile (· ≠ '"') <+: value := List.takeWhile_prefix _
    obtain ⟨hle, heq⟩ := unescape_eq_some h
    have hnorm := length_normalizeSpaces (value.takeWhile (· ≠ '"'))
    -- so what is between the quotes is as long as the value
    have hwhole : value.takeWhile (· ≠ '"') = value :=
      hpre.eq_of_length (Nat.le_antisymm hpre.length_le (Nat.le_trans hle hnorm))
    rw [hwhole] at hxml hlt hnorm heq
    obtain ⟨hamp, hvalue⟩ := heq rfl hnorm
    rw [← hvalue] at hamp
    intro c hc
    have hspace : c ≠ '\t' ∧ c ≠ '\n' ∧ c ≠ '\r' := mem_normalizeSpaces (hvalue ▸ hc)
    have hquote : c ≠ '"' := by
      have hall : (value.takeWhile (· ≠ '"')).all (· ≠ '"') = true := List.all_takeWhile
      rw [hwhole] at hall
      simpa using List.all_eq_true.mp hall c hc
    exact ⟨List.all_eq_true.mp hxml c hc, fun heq => hamp (heq ▸ hc), fun heq => hlt (heq ▸ hc),
      hquote, hspace⟩
  · cases h

/-- **The first value of a start tag** is read back only if it stands for itself. -/
theorem scanItem_startTag_value {name attr value rest rest' : Text} {ts : List Token}
    (hname : CleanName name) (hattr : CleanName attr)
    (h : scanItem ('<' :: name ++ ' ' :: attr ++ '=' :: '"' :: value ++ '"' :: rest) =
      some (ts, rest')) :
    ∃ v attrs ts', ts = .startElement name ((attr, v) :: attrs) :: ts' ∧
      (v = value → CleanValue value) := by
  obtain ⟨c, cs, hcs, hstart⟩ := hname.head
  obtain ⟨a, as, has, hattrStart⟩ := hattr.head
  obtain ⟨tail, htail⟩ : ∃ tail, tail = ' ' :: (attr ++ '=' :: '"' :: (value ++ '"' :: rest)) :=
    ⟨_, rfl⟩
  have htext : '<' :: name ++ ' ' :: attr ++ '=' :: '"' :: value ++ '"' :: rest =
      '<' :: (name ++ tail) := by
    rw [htail]; simp
  rw [htext] at h
  have hmarkup : scanMarkup (name ++ tail) = some (ts, rest') := h
  rw [hcs, List.cons_append, scanMarkup_nameStart hstart, ← List.cons_append, ← hcs, scanStartTag,
    htail, scanName_clean hname (by decide), Option.bind_some] at hmarkup
  dsimp only at hmarkup
  obtain ⟨⟨attrs, isEmpty, after⟩, hattrs, hts⟩ := Option.map_eq_some_iff.mp hmarkup
  rw [has, List.cons_append, scanAttributes_blank hattrStart, ← List.cons_append, ← has] at hattrs
  obtain ⟨⟨⟨n, v⟩, after'⟩, hfirst, hmore⟩ := Option.bind_eq_some_iff.mp hattrs
  obtain ⟨⟨attrs', r⟩, -, hcons⟩ := Option.bind_eq_some_iff.mp hmore
  rw [scanAttribute, scanName_clean hattr (by decide), Option.bind_some] at hfirst
  have hskip : ∀ cs, skipSpaces ('=' :: cs) = '=' :: cs ∧ skipSpaces ('"' :: cs) = '"' :: cs :=
    fun _ => ⟨rfl, rfl⟩
  simp only [(hskip _).1, (hskip _).2, true_or, if_true] at hfirst
  obtain ⟨⟨v', after''⟩, hvalue, heq⟩ := Option.map_eq_some_iff.mp hfirst
  obtain ⟨⟨rfl, rfl⟩, rfl⟩ : (attr = n ∧ v' = v) ∧ after'' = after' := by simpa using heq
  -- the other attributes come after it
  obtain rfl : (attr, v') :: attrs' = attrs := by
    dsimp only at hcons
    split at hcons
    · cases hcons
    · exact congrArg Prod.fst (Option.some.inj hcons)
  refine ⟨v', attrs', _, (congrArg Prod.fst hts).symm, ?_⟩
  rintro rfl
  unfold scanValue at hvalue
  split at hvalue
  · obtain ⟨v, hv, heq⟩ := Option.map_eq_some_iff.mp hvalue
    obtain rfl := congrArg Prod.fst heq
    exact .of_attributeValue hv
  · cases hvalue

/-! ## Pieces of a text -/

/-- Wherever the piece stands in a text, it reads as the tokens: the text has tokens if what follows
the piece has some, and only then. -/
structure Reads (text : Text) (tokens : List Token) : Prop where
  scans : ∀ {rest ts}, Scans rest ts → Scans (text ++ rest) (tokens ++ ts)
  unscan : ∀ {fuel rest ts}, scanItems fuel (text ++ rest) = some ts →
    ∃ fuel' ts', ts = tokens ++ ts' ∧ scanItems fuel' rest = some ts'

theorem Reads.nil : Reads [] [] where
  scans h := h
  unscan h := ⟨_, _, rfl, h⟩

/-- Texts that are read one after the other. -/
theorem Reads.append {text text' : Text} {tokens tokens' : List Token} (h : Reads text tokens)
    (h' : Reads text' tokens') : Reads (text ++ text') (tokens ++ tokens') where
  scans hrest := by
    rw [List.append_assoc, List.append_assoc]
    exact h.scans (h'.scans hrest)
  unscan hscan := by
    rw [List.append_assoc] at hscan
    obtain ⟨_, _, rfl, hscan'⟩ := h.unscan hscan
    obtain ⟨fuel, ts, rfl, hrest⟩ := h'.unscan hscan'
    exact ⟨fuel, ts, (List.append_assoc ..).symm, hrest⟩

/-- A text that is one item, whatever follows. -/
theorem Reads.item {text : Text} {tokens : List Token}
    (h : ∀ rest, scanItem (text ++ rest) = some (tokens, rest)) (hne : text ≠ []) :
    Reads text tokens where
  scans hrest := Scans.item (h _) hne hrest
  unscan hscan := scanItems_item (h _) hne hscan

theorem Reads.flatMap {α : Type*} {xs : List α} {text : α → Text} {tokens : α → List Token}
    (h : ∀ x ∈ xs, Reads (text x) (tokens x)) : Reads (xs.flatMap text) (xs.flatMap tokens) := by
  induction xs with
  | nil => exact Reads.nil
  | cons x xs ih =>
    rw [List.flatMap_cons, List.flatMap_cons]
    exact (h x (by simp)).append (ih fun y hy => h y (by simp [hy]))

theorem contentTokens_eq_flatMap (cs : Text) :
    contentTokens cs = cs.flatMap fun c => [Token.characters [c]] :=
  List.map_eq_flatMap

theorem Reads.plain {cs : Text} (h : ∀ c ∈ cs, isPlain c) : Reads cs (contentTokens cs) := by
  have hread : Reads (cs.flatMap fun c => [c]) (cs.flatMap fun c => [Token.characters [c]]) :=
    Reads.flatMap fun c hc => Reads.item (scanItem_plain (h c hc)) (by simp)
  rw [contentTokens_eq_flatMap]
  simpa using hread

/-- **Escaped content is read back.** -/
theorem Reads.escape {cs : Text} (h : ∀ c ∈ cs, isXmlChar c ∧ c ≠ '\r') :
    Reads (Xml.escape cs) (contentTokens cs) := by
  rw [contentTokens_eq_flatMap]
  refine Reads.flatMap fun c hc => Reads.item (scanItem_escapeChar (h c hc).1 (h c hc).2) ?_
  unfold escapeChar
  split_ifs <;> simp

/-- A rendered start tag is read back. -/
theorem Reads.startTag {name : Text} {attrs : Attributes} (hname : CleanName name)
    (hattrs : CleanAttributes attrs) :
    Reads (renderTag name attrs ['>']) [.startElement name attrs] :=
  Reads.item (scanItem_renderTag hname hattrs .open) (by simp [renderTag])

/-- An empty tag is read as a start and an end. -/
theorem Reads.emptyTag {name : Text} {attrs : Attributes} (hname : CleanName name)
    (hattrs : CleanAttributes attrs) :
    Reads (renderTag name attrs ['/', '>']) [.startElement name attrs, .endElement name] :=
  Reads.item (scanItem_renderTag hname hattrs .empty) (by simp [renderTag])

/-- A rendered end tag is read back. -/
theorem Reads.endTag {name : Text} (hname : CleanName name) :
    Reads ('<' :: '/' :: name ++ ['>']) [.endElement name] :=
  Reads.item (fun rest => by simpa using scanItem_endTag hname rest) (by simp)

theorem Reads.processingInstruction {body : Text} (h : '?' ∉ body) :
    Reads ('<' :: '?' :: body ++ ['?', '>']) [.processingInstruction body] :=
  Reads.item (fun rest => by simpa using scanItem_processingInstruction h rest) (by simp)

/-- A text that is one piece. -/
theorem Reads.scan {text : Text} {tokens : List Token} (h : Reads text tokens) :
    Xml.scan text = some tokens := by
  have := h.scans Scans.nil
  rwa [List.append_nil, List.append_nil] at this

end Sem.Xml
