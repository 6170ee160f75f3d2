import Mathlib.Algebra.Order.Group.Nat
import Idemio.Base.Utf8

set_option relaxedAutoImplicit false
set_option autoImplicit false

/-!
# JSON text

The grammar of RFC 8259 over bytes, as a decoder reads it from a stream: the value at the front
of a text is read, and what follows it is left alone.

## Main definitions

* `JsonDoc.Value` — a JSON value. A number keeps its literal, a string is the sequence of its
  runes, and a value inside another one keeps its text.
* `JsonDoc.parseValue`, `JsonDoc.parse` — the value at the front of a text, nested as deep as is
  allowed.
* `JsonDoc.intOf` — the integer that a number literal denotes.

## Main results

* `JsonDoc.parseElements_of_fuel`, `JsonDoc.parseMembers_of_fuel` — no amount of fuel reads other
  elements or members than as much as the text is long.

## Design

`parseValue` recurses on the depth that is left, and the loop over the items between two brackets
on fuel, so that both compute. An item takes at least a byte, which is why the length of the text
is fuel enough.
-/

namespace JsonDoc

/-- A JSON value. The elements of an array come with their texts, the members of an object with
their names and the texts of their values. -/
inductive Value
  | null
  | bool (b : Bool)
  | number (literal : List UInt8)
  | string (content : List ℕ)
  | array (elements : List (List UInt8 × Value))
  | object (members : List (List ℕ × List UInt8 × Value))

/-! ## Space and numbers -/

/-- A byte that may stand between tokens. -/
def isSpace (b : UInt8) : Bool := b = 0x20 || b = 0x09 || b = 0x0A || b = 0x0D

/-- The text without the space at its front. -/
def skipSpace (bs : List UInt8) : List UInt8 := bs.dropWhile isSpace

/-- The part of `bs` before `rest`, which it ends with. -/
def textBefore (bs rest : List UInt8) : List UInt8 := bs.take (bs.length - rest.length)

/-- A decimal digit. -/
def isDigit (b : UInt8) : Bool := 0x30 ≤ b && b ≤ 0x39

/-- The text after the digits at its front, of which there is at least one. -/
def skipDigits : List UInt8 → Option (List UInt8)
  | [] => none
  | b :: bs => if isDigit b then some (bs.dropWhile isDigit) else none

/-- The text after an integer without superfluous zeros. -/
def skipInt : List UInt8 → Option (List UInt8)
  | [] => none
  | b :: bs => if b = 0x30 then some bs else skipDigits (b :: bs)

/-- The text after a minus sign, if there is one. -/
def skipMinus : List UInt8 → List UInt8
  | [] => []
  | b :: bs => if b = 0x2D then bs else b :: bs

/-- The text after a sign, if there is one. -/
def skipSign : List UInt8 → List UInt8
  | [] => []
  | b :: bs => if b = 0x2D ∨ b = 0x2B then bs else b :: bs

/-- The text after a fraction part, if there is one. -/
def skipFraction : List UInt8 → Option (List UInt8)
  | [] => some []
  | b :: bs => if b = 0x2E then skipDigits bs else some (b :: bs)

/-- The text after an exponent, if there is one. -/
def skipExponent : List UInt8 → Option (List UInt8)
  | [] => some []
  | b :: bs => if b = 0x65 ∨ b = 0x45 then skipDigits (skipSign bs) else some (b :: bs)

/-- The text after a number. -/
def skipNumber (bs : List UInt8) : Option (List UInt8) :=
  ((skipInt (skipMinus bs)).bind skipFraction).bind skipExponent

/-- The value of a sequence of digits. -/
def natOfDigits (ds : List UInt8) : ℕ := ds.foldl (fun n d => n * 10 + (d.toNat - 0x30)) 0

/-- The integer that a literal denotes; there is none if it has a fraction part or an exponent,
or if it does not fit into 64 bits. -/
def intOf (literal : List UInt8) : Option ℤ :=
  let ds := skipMinus literal
  let n : ℤ := if ds = literal then natOfDigits ds else -natOfDigits ds
  if ds ≠ [] ∧ ds.all isDigit ∧ -2 ^ 63 ≤ n ∧ n < 2 ^ 63 then some n else none

/-! ## Strings -/

/-- The value of a hexadecimal digit. -/
def hexValue (b : UInt8) : Option ℕ :=
  if 0x30 ≤ b ∧ b ≤ 0x39 then some (b.toNat - 0x30)
  else if 0x61 ≤ b ∧ b ≤ 0x66 then some (b.toNat - 0x61 + 10)
  else if 0x41 ≤ b ∧ b ≤ 0x46 then some (b.toNat - 0x41 + 10)
  else none

/-- The number that four hexadecimal digits denote. -/
def hex4 (a b c d : UInt8) : Option ℕ := do
  return (((← hexValue a) * 16 + (← hexValue b)) * 16 + (← hexValue c)) * 16 + (← hexValue d)

/-- The byte that a backslash and a letter stand for. -/
def escaped (b : UInt8) : Option UInt8 :=
  if b = 0x22 ∨ b = 0x5C ∨ b = 0x2F then some b
  else if b = 0x62 then some 0x08
  else if b = 0x66 then some 0x0C
  else if b = 0x6E then some 0x0A
  else if b = 0x72 then some 0x0D
  else if b = 0x74 then some 0x09
  else none

/-- What a string continues with: the closing quote, or a piece of its content, which is a byte
or the number of a `\u` escape. The number is how many bytes more than one this takes. -/
def stringPiece : List UInt8 → Option (Option (UInt8 ⊕ ℕ) × ℕ)
  | [] => none
  | b :: bs =>
    if b = 0x22 then some (none, 0)
    else if b = 0x5C then
      match bs with
      | [] => none
      | 0x75 :: h₁ :: h₂ :: h₃ :: h₄ :: _ => (hex4 h₁ h₂ h₃ h₄).map fun u => (some (.inr u), 5)
      | e :: _ => (escaped e).map fun c => (some (.inl c), 1)
    else if b < 0x20 then none
    else some (some (.inl b), 0)

/-- The pieces of a string after its opening quote, and the text after the closing one. The next
`skip` bytes belong to a piece that was already read. -/
def scanString : ℕ → List UInt8 → Option (List (UInt8 ⊕ ℕ) × List UInt8)
  | _, [] => none
  | skip + 1, _ :: bs => scanString skip bs
  | 0, b :: bs =>
    (stringPiece (b :: bs)).bind fun p =>
      p.1.elim (some ([], bs)) fun piece =>
        (scanString p.2 bs).map fun r => (piece :: r.1, r.2)

/-- The bytes of a string. Two escapes may be the halves of one rune; a half on its own is
replaced. -/
def unescape : List (UInt8 ⊕ ℕ) → List UInt8
  | [] => []
  | .inl b :: ps => b :: unescape ps
  | .inr u :: .inr v :: ps =>
    if 0xD800 ≤ u ∧ u < 0xDC00 ∧ 0xDC00 ≤ v ∧ v < 0xE000 then
      Utf8.encodeRune (0x10000 + (u - 0xD800) * 0x400 + (v - 0xDC00)) ++ unescape ps
    else Utf8.encodeRune u ++ unescape (.inr v :: ps)
  | .inr u :: ps => Utf8.encodeRune u ++ unescape ps

/-- The string at the front of a text, its opening quote removed, and the text after it. -/
def parseString (bs : List UInt8) : Option (List ℕ × List UInt8) :=
  (scanString 0 bs).map fun r => (Utf8.runes (unescape r.1), r.2)

/-! ## Values -/

/-- The text after a literal name whose first letter was read. -/
def parseName (word : List UInt8) (v : Value) (bs : List UInt8) : Option (Value × List UInt8) :=
  (bs.dropPrefix? word).map fun rest => (v, rest)

/-- The number at the front of a text, and the text after it. -/
def parseNumber (bs : List UInt8) : Option (Value × List UInt8) :=
  (skipNumber bs).map fun rest => (.number (textBefore bs rest), rest)

/-- What comes after an opening bracket: the closing one, or something else. The text after the
closing bracket, or from there on. -/
def parseOpen (close : UInt8) (bs : List UInt8) : Option (Bool × List UInt8) :=
  match skipSpace bs with
  | [] => none
  | b :: bs => if b = close then some (true, bs) else some (false, b :: bs)

/-- What comes after an element or a member: the closing bracket, or a comma. The text after
that. -/
def parseNext (close : UInt8) (bs : List UInt8) : Option (Bool × List UInt8) :=
  match skipSpace bs with
  | [] => none
  | b :: bs =>
    if b = close then some (true, bs)
    else if b = 0x2C then some (false, skipSpace bs)
    else none

/-- The name of a member and its colon, and the text from its value on. -/
def parseKey : List UInt8 → Option (List ℕ × List UInt8)
  | [] => none
  | b :: bs =>
    if b = 0x22 then
      (parseString bs).bind fun r =>
        match skipSpace r.2 with
        | [] => none
        | c :: rest => if c = 0x3A then some (r.1, skipSpace rest) else none
    else none

section Items

variable {α : Type} (item : List UInt8 → Option (α × List UInt8)) (close : UInt8)

/-- Items with commas between them, from one of them on, and the text after the closing
bracket. -/
def parseItems : ℕ → List UInt8 → Option (List α × List UInt8)
  | 0, _ => none
  | fuel + 1, bs =>
    (item bs).bind fun v =>
      (parseNext close v.2).bind fun r =>
        if r.1 then some ([v.1], r.2)
        else (parseItems fuel r.2).map fun s => (v.1 :: s.1, s.2)

/-- The items between two brackets, the first of which was read, and the text after them. -/
def parseBracket (bs : List UInt8) : Option (List α × List UInt8) :=
  (parseOpen close bs).bind fun r =>
    if r.1 then some ([], r.2) else parseItems item close r.2.length r.2

end Items

/-- An element of an array, and the text after it. -/
def parseElement (value : List UInt8 → Option (Value × List UInt8)) (bs : List UInt8) :
    Option ((List UInt8 × Value) × List UInt8) :=
  (value bs).map fun v => ((textBefore bs v.2, v.1), v.2)

/-- A member of an object, and the text after it. -/
def parseMember (value : List UInt8 → Option (Value × List UInt8)) (bs : List UInt8) :
    Option ((List ℕ × List UInt8 × Value) × List UInt8) :=
  (parseKey bs).bind fun k => (value k.2).map fun v => ((k.1, textBefore k.2 v.2, v.1), v.2)

/-- A value that is no array and no object, and the text after it. -/
def parseScalar : List UInt8 → Option (Value × List UInt8)
  | [] => none
  | b :: bs =>
    if b = 0x22 then (parseString bs).map fun r => (.string r.1, r.2)
    else if b = 0x6E then parseName [0x75, 0x6C, 0x6C] .null bs
    else if b = 0x74 then parseName [0x72, 0x75, 0x65] (.bool true) bs
    else if b = 0x66 then parseName [0x61, 0x6C, 0x73, 0x65] (.bool false) bs
    else parseNumber (b :: bs)

/-- The value at the front of a text, without space before it, and the text after the value.
Values may be nested `depth` deep. -/
def parseValue : ℕ → List UInt8 → Option (Value × List UInt8)
  | _, [] => none
  | 0, b :: bs => if b = 0x5B ∨ b = 0x7B then none else parseScalar (b :: bs)
  | depth + 1, b :: bs =>
    if b = 0x5B then
      (parseBracket (parseElement (parseValue depth)) 0x5D bs).map fun s => (.array s.1, s.2)
    else if b = 0x7B then
      (parseBracket (parseMember (parseValue depth)) 0x7D bs).map fun s => (.object s.1, s.2)
    else parseScalar (b :: bs)

/-- The value at the front of a text, and the text after it. -/
def parse (depth : ℕ) (bs : List UInt8) : Option (Value × List UInt8) :=
  parseValue depth (skipSpace bs)

/-! ## Enough fuel -/

lemma length_skipSpace_le (bs : List UInt8) : (skipSpace bs).length ≤ bs.length :=
  (List.dropWhile_suffix isSpace).length_le

lemma length_skipMinus_le (bs : List UInt8) : (skipMinus bs).length ≤ bs.length := by
  cases bs with
  | nil => rfl
  | cons b bs => rw [skipMinus]; split <;> simp

lemma length_skipSign_le (bs : List UInt8) : (skipSign bs).length ≤ bs.length := by
  cases bs with
  | nil => rfl
  | cons b bs => rw [skipSign]; split <;> simp

lemma length_of_skipDigits {bs rest : List UInt8} (h : skipDigits bs = some rest) :
    rest.length < bs.length := by
  cases bs with
  | nil => cases h
  | cons b bs =>
    simp only [skipDigits, Option.ite_none_right_eq_some, Option.some.injEq] at h
    obtain ⟨-, rfl⟩ := h
    exact Nat.lt_succ_of_le (List.dropWhile_suffix isDigit).length_le

lemma length_of_skipInt {bs rest : List UInt8} (h : skipInt bs = some rest) :
    rest.length < bs.length := by
  cases bs with
  | nil => cases h
  | cons b bs =>
    rw [skipInt] at h
    split at h
    · cases h
      exact Nat.lt_succ_self _
    · exact length_of_skipDigits h

lemma length_of_skipFraction {bs rest : List UInt8} (h : skipFraction bs = some rest) :
    rest.length ≤ bs.length := by
  cases bs with
  | nil => cases h; rfl
  | cons b bs =>
    rw [skipFraction] at h
    split at h
    · exact (length_of_skipDigits h).le.trans (Nat.le_succ _)
    · cases h; rfl

lemma length_of_skipExponent {bs rest : List UInt8} (h : skipExponent bs = some rest) :
    rest.length ≤ bs.length := by
  cases bs with
  | nil => cases h; rfl
  | cons b bs =>
    rw [skipExponent] at h
    split at h
    · have := length_of_skipDigits h
      have := length_skipSign_le bs
      simp only [List.length_cons]
      omega
    · cases h; rfl

lemma length_of_parseNumber {bs rest : List UInt8} {v : Value}
    (h : parseNumber bs = some (v, rest)) : rest.length < bs.length := by
  obtain ⟨rest', hskip, heq⟩ := Option.map_eq_some_iff.mp h
  cases heq
  obtain ⟨b₂, hfrac, hexp⟩ := Option.bind_eq_some_iff.mp hskip
  obtain ⟨b₁, hint, hfrac⟩ := Option.bind_eq_some_iff.mp hfrac
  have := length_of_skipInt hint
  have := length_skipMinus_le bs
  have := length_of_skipFraction hfrac
  have := length_of_skipExponent hexp
  omega

lemma length_of_scanString {skip : ℕ} {bs rest : List UInt8} {ps : List (UInt8 ⊕ ℕ)}
    (h : scanString skip bs = some (ps, rest)) : rest.length < bs.length := by
  induction bs generalizing skip ps with
  | nil => cases skip <;> cases h
  | cons b bs ih =>
    cases skip with
    | succ skip => exact (ih h).trans (Nat.lt_succ_self _)
    | zero =>
      obtain ⟨⟨piece, width⟩, -, hrest⟩ := Option.bind_eq_some_iff.mp h
      cases piece with
      | none =>
        cases hrest
        exact Nat.lt_succ_self _
      | some piece =>
        obtain ⟨r, hscan, heq⟩ := Option.map_eq_some_iff.mp hrest
        cases heq
        exact (ih hscan).trans (Nat.lt_succ_self _)

lemma length_of_parseString {bs rest : List UInt8} {content : List ℕ}
    (h : parseString bs = some (content, rest)) : rest.length < bs.length := by
  obtain ⟨r, hscan, heq⟩ := Option.map_eq_some_iff.mp h
  cases heq
  exact length_of_scanString hscan

lemma length_of_parseName {word bs rest : List UInt8} {v w : Value}
    (h : parseName word v bs = some (w, rest)) : rest.length ≤ bs.length := by
  obtain ⟨r, hprefix, heq⟩ := Option.map_eq_some_iff.mp h
  cases heq
  obtain ⟨p, hp, -⟩ := List.dropPrefix?_eq_some_iff.mp hprefix
  rw [hp, List.length_append]
  omega

lemma length_of_parseOpen {close : UInt8} {bs rest : List UInt8} {closed : Bool}
    (h : parseOpen close bs = some (closed, rest)) : rest.length ≤ bs.length := by
  unfold parseOpen at h
  have hspace := length_skipSpace_le bs
  split at h
  · cases h
  · next b bs' hskip =>
    rw [hskip, List.length_cons] at hspace
    split at h
    · cases h
      omega
    · cases h
      simpa using hspace

lemma length_of_parseNext {close : UInt8} {bs rest : List UInt8} {closed : Bool}
    (h : parseNext close bs = some (closed, rest)) : rest.length < bs.length := by
  unfold parseNext at h
  have hspace := length_skipSpace_le bs
  split at h
  · cases h
  · next b bs' hskip =>
    rw [hskip, List.length_cons] at hspace
    split at h
    · cases h
      omega
    · have := length_skipSpace_le bs'
      split at h
      · cases h
        omega
      · cases h

lemma length_of_parseKey {bs rest : List UInt8} {name : List ℕ}
    (h : parseKey bs = some (name, rest)) : rest.length < bs.length := by
  cases bs with
  | nil => cases h
  | cons b bs =>
    rw [parseKey, Option.ite_none_right_eq_some] at h
    obtain ⟨r, hstring, hrest⟩ := Option.bind_eq_some_iff.mp h.2
    have := length_of_parseString hstring
    have hspace := length_skipSpace_le r.2
    split at hrest
    · cases hrest
    · next c rest' hskip =>
      rw [Option.ite_none_right_eq_some] at hrest
      cases hrest.2
      have := length_skipSpace_le rest'
      rw [hskip, List.length_cons] at hspace
      simp only [List.length_cons]
      omega

/-- What is read is at least a byte. -/
def Consumes {α : Type} (p : List UInt8 → Option (α × List UInt8)) : Prop :=
  ∀ ⦃bs v rest⦄, p bs = some (v, rest) → rest.length < bs.length

section Items

variable {α : Type} {item : List UInt8 → Option (α × List UInt8)} {close : UInt8}

/-- As much fuel as the text is long is enough: more of it reads nothing else.

**Proof sketch.** Induction on the fuel that reads the items. The text after an item and a comma
is shorter, and so is what is needed for it. -/
lemma parseItems_of_fuel (hitem : Consumes item) {n m : ℕ} {bs : List UInt8}
    {r : List α × List UInt8} (h : parseItems item close n bs = some r) (hm : bs.length ≤ m) :
    parseItems item close m bs = some r := by
  induction n generalizing m bs r with
  | zero => cases h
  | succ n ih =>
    obtain ⟨v, hv, hrest⟩ := Option.bind_eq_some_iff.mp h
    obtain ⟨⟨closed, rest⟩, hnext, hrest⟩ := Option.bind_eq_some_iff.mp hrest
    have hlt : rest.length < bs.length := (length_of_parseNext hnext).trans (hitem hv)
    cases m with
    | zero => omega
    | succ m =>
      rw [parseItems, hv, Option.bind_some, hnext, Option.bind_some]
      cases closed with
      | true => exact hrest
      | false =>
        obtain ⟨s, hs, heq⟩ := Option.map_eq_some_iff.mp hrest
        simp [ih hs (by omega : rest.length ≤ m), heq]

lemma Consumes.parseItems (hitem : Consumes item) (n : ℕ) :
    Consumes (parseItems item close n) := by
  intro bs vs rest h
  induction n generalizing bs vs with
  | zero => cases h
  | succ n ih =>
    obtain ⟨v, hv, hrest⟩ := Option.bind_eq_some_iff.mp h
    obtain ⟨⟨closed, r⟩, hnext, hrest⟩ := Option.bind_eq_some_iff.mp hrest
    have hlt : r.length < bs.length := (length_of_parseNext hnext).trans (hitem hv)
    cases closed with
    | true =>
      cases hrest
      exact hlt
    | false =>
      obtain ⟨s, hs, heq⟩ := Option.map_eq_some_iff.mp hrest
      cases heq
      exact (ih hs).trans hlt

lemma length_of_parseBracket (hitem : Consumes item) {bs rest : List UInt8} {vs : List α}
    (h : parseBracket item close bs = some (vs, rest)) : rest.length ≤ bs.length := by
  obtain ⟨⟨closed, r⟩, hopen, hrest⟩ := Option.bind_eq_some_iff.mp h
  have hle := length_of_parseOpen hopen
  cases closed with
  | true =>
    cases hrest
    exact hle
  | false => exact (hitem.parseItems _ hrest).le.trans hle

end Items

lemma Consumes.parseElement {value : List UInt8 → Option (Value × List UInt8)}
    (hvalue : Consumes value) : Consumes (parseElement value) := by
  intro bs v rest h
  obtain ⟨e, he, heq⟩ := Option.map_eq_some_iff.mp h
  cases heq
  exact hvalue he

lemma Consumes.parseMember {value : List UInt8 → Option (Value × List UInt8)}
    (hvalue : Consumes value) : Consumes (parseMember value) := by
  intro bs v rest h
  obtain ⟨k, hk, hrest⟩ := Option.bind_eq_some_iff.mp h
  obtain ⟨e, he, heq⟩ := Option.map_eq_some_iff.mp hrest
  cases heq
  exact (hvalue he).trans (length_of_parseKey hk)

lemma consumes_parseScalar : Consumes parseScalar := by
  intro bs v rest h
  cases bs with
  | nil => cases h
  | cons b bs =>
    rw [parseScalar] at h
    rw [List.length_cons, Nat.lt_succ_iff]
    split at h
    · obtain ⟨r, hstring, heq⟩ := Option.map_eq_some_iff.mp h
      cases heq
      exact (length_of_parseString hstring).le
    · repeat' split at h
      · exact length_of_parseName h
      · exact length_of_parseName h
      · exact length_of_parseName h
      · exact Nat.lt_succ_iff.mp (length_of_parseNumber h)

lemma consumes_parseValue (depth : ℕ) : Consumes (parseValue depth) := by
  induction depth with
  | zero =>
    intro bs v rest h
    cases bs with
    | nil => cases h
    | cons b bs =>
      rw [parseValue, Option.ite_none_left_eq_some] at h
      exact consumes_parseScalar h.2
  | succ depth ih =>
    intro bs v rest h
    cases bs with
    | nil => cases h
    | cons b bs =>
      rw [parseValue] at h
      split at h
      · obtain ⟨r, hbracket, heq⟩ := Option.map_eq_some_iff.mp h
        cases heq
        exact Nat.lt_succ_of_le (length_of_parseBracket ih.parseElement hbracket)
      · split at h
        · obtain ⟨r, hbracket, heq⟩ := Option.map_eq_some_iff.mp h
          cases heq
          exact Nat.lt_succ_of_le (length_of_parseBracket ih.parseMember hbracket)
        · exact consumes_parseScalar h

/-- **The elements of an array** do not depend on the fuel. -/
theorem parseElements_of_fuel {depth n : ℕ} {close : UInt8} {bs : List UInt8}
    {r : List (List UInt8 × Value) × List UInt8}
    (h : parseItems (parseElement (parseValue depth)) close n bs = some r) :
    parseItems (parseElement (parseValue depth)) close bs.length bs = some r :=
  parseItems_of_fuel (consumes_parseValue depth).parseElement h le_rfl

/-- **The members of an object** do not depend on the fuel. -/
theorem parseMembers_of_fuel {depth n : ℕ} {close : UInt8} {bs : List UInt8}
    {r : List (List ℕ × List UInt8 × Value) × List UInt8}
    (h : parseItems (parseMember (parseValue depth)) close n bs = some r) :
    parseItems (parseMember (parseValue depth)) close bs.length bs = some r :=
  parseItems_of_fuel (consumes_parseValue depth).parseMember h le_rfl

end JsonDoc
