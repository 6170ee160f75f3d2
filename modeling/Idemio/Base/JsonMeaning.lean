import Mathlib.Data.List.Sort
import Idemio.Base.Binary64
import Idemio.Base.Json

set_option relaxedAutoImplicit false
set_option autoImplicit false

/-!
# What a JSON text denotes

The value of a text apart from how it is written: no matter the order of members, the space, the
escapes of a string and the spelling of a number, which is the nearest double.

## Main definitions

* `JsonDoc.numberValue` — the exact number that a literal denotes.
* `JsonDoc.Meaning`, `JsonDoc.denote` — what a value denotes.
* `JsonDoc.Denotes` — what a text denotes.
* `JsonDoc.numbers`, `JsonDoc.valueAt` — the literals in a value, and the value in a place of it.
* `JsonDoc.CanonicalForm` — a canonical form of texts.

## Main results

* `JsonDoc.Denotes.unique` — a text denotes one value.
* `JsonDoc.meaningAt_denote` — the value in a place is found in what the whole denotes.
-/

namespace JsonDoc

/-! ## Numbers -/

/-- The parts of a literal. -/
structure Literal where
  negative : Bool
  whole : List UInt8
  fraction : List UInt8
  exponentNegative : Bool
  exponent : List UInt8

/-- A literal in its parts. -/
def readLiteral (l : List UInt8) : Literal :=
  let s := (skipMinus l).dropWhile isDigit
  let point : Bool := s.head? = some 0x2E
  let fraction := if point then s.tail.takeWhile isDigit else []
  let s := if point then s.tail.dropWhile isDigit else s
  let e := if s.head? = some 0x65 ∨ s.head? = some 0x45 then s.tail else []
  ⟨l.head? = some 0x2D, (skipMinus l).takeWhile isDigit, fraction, e.head? = some 0x2D, skipSign e⟩

/-- The digits as an integer, without the point. -/
def Literal.mantissa (l : Literal) : ℤ :=
  if l.negative then -natOfDigits (l.whole ++ l.fraction) else natOfDigits (l.whole ++ l.fraction)

/-- The number with a given exponent in place of its own. -/
def Literal.value (l : Literal) (exponent : ℕ) : ℚ :=
  l.mantissa * 10 ^ ((if l.exponentNegative then -(exponent : ℤ) else exponent) - l.fraction.length)

/-- The exact number that a literal denotes. -/
def numberValue (l : List UInt8) : ℚ := (readLiteral l).value (natOfDigits (readLiteral l).exponent)

/-- The literal has no fraction part and no exponent. -/
def isIntegerLiteral (l : List UInt8) : Bool := !l.any fun b => b = 0x2E || b = 0x65 || b = 0x45

/-- A literal without a fraction part and an exponent denotes its digits. -/
lemma readLiteral_of_integer {l : List UInt8} (h : isIntegerLiteral l = true) :
    (readLiteral l).fraction = [] ∧ (readLiteral l).exponent = [] := by
  have hmem : ∀ b ∈ l, b ≠ 0x2E ∧ b ≠ 0x65 ∧ b ≠ 0x45 := by
    intro b hb
    have hall : l.all fun b => !(b = 0x2E || b = 0x65 || b = 0x45) := by
      simpa [isIntegerLiteral] using h
    simpa [and_assoc] using List.all_eq_true.mp hall b hb
  have hsuffix : (skipMinus l).dropWhile isDigit <:+ l := by
    refine (List.dropWhile_suffix isDigit).trans ?_
    cases l with
    | nil => exact List.suffix_rfl
    | cons b l =>
      rw [skipMinus]
      split_ifs
      · exact List.suffix_cons b l
      · exact List.suffix_rfl
  have hhead : ∀ b, ((skipMinus l).dropWhile isDigit).head? = some b →
      b ≠ 0x2E ∧ b ≠ 0x65 ∧ b ≠ 0x45 :=
    fun b hb => hmem b (hsuffix.subset (List.mem_of_head? hb))
  have hpoint : ((skipMinus l).dropWhile isDigit).head? ≠ some 0x2E := fun hb => (hhead _ hb).1 rfl
  have hexponent : ¬(((skipMinus l).dropWhile isDigit).head? = some 0x65 ∨
      ((skipMinus l).dropWhile isDigit).head? = some 0x45) := by
    rintro (hb | hb)
    · exact (hhead _ hb).2.1 rfl
    · exact (hhead _ hb).2.2 rfl
  simp [readLiteral, hpoint, hexponent, skipSign]

/-- Whatever exponent is put in place of none. -/
lemma value_of_integer {l : List UInt8} (h : isIntegerLiteral l = true) :
    (readLiteral l).value 0 = (readLiteral l).mantissa := by
  simp [Literal.value, (readLiteral_of_integer h).1]

lemma numberValue_of_integer {l : List UInt8} (h : isIntegerLiteral l = true) :
    numberValue l = (readLiteral l).mantissa := by
  rw [numberValue, (readLiteral_of_integer h).2]
  exact value_of_integer h

/-! ## Values -/

/-- What a JSON value denotes. The members of an object are in the order of their names. -/
inductive Meaning
  | null
  | bool (b : Bool)
  | number (double : ℚ)
  | string (content : List ℕ)
  | array (elements : List Meaning)
  | object (members : List (List ℕ × Meaning))

/-- Members in the order of their names. -/
def sortMembers {α : Type} (ms : List (List ℕ × α)) : List (List ℕ × α) :=
  ms.insertionSort fun a b => a.1 ≤ b.1

mutual

/-- What a value denotes. -/
def denote : Value → Meaning
  | .null => .null
  | .bool b => .bool b
  | .number l => .number (Binary64.round (numberValue l))
  | .string content => .string content
  | .array es => .array (denoteElements es)
  | .object ms => .object (sortMembers (denoteMembers ms))

/-- What the elements of an array denote. -/
def denoteElements : List (List UInt8 × Value) → List Meaning
  | [] => []
  | (_, v) :: es => denote v :: denoteElements es

/-- What the members of an object denote. -/
def denoteMembers : List (List ℕ × List UInt8 × Value) → List (List ℕ × Meaning)
  | [] => []
  | (name, _, v) :: ms => (name, denote v) :: denoteMembers ms

end

lemma denoteElements_eq (es : List (List UInt8 × Value)) :
    denoteElements es = es.map fun e => denote e.2 := by
  induction es with
  | nil => rfl
  | cons e es ih => rw [denoteElements, ih, List.map_cons]

lemma denoteMembers_eq (ms : List (List ℕ × List UInt8 × Value)) :
    denoteMembers ms = ms.map fun m => (m.1, denote m.2.2) := by
  induction ms with
  | nil => rfl
  | cons m ms ih => rw [denoteMembers, ih, List.map_cons]

/-- Induction over a value and the values in it. -/
theorem Value.induction {P : Value → Prop} (null : P .null) (bool : ∀ b, P (.bool b))
    (number : ∀ l, P (.number l)) (string : ∀ content, P (.string content))
    (array : ∀ es : List (List UInt8 × Value), (∀ e ∈ es, P e.2) → P (.array es))
    (object : ∀ ms : List (List ℕ × List UInt8 × Value), (∀ m ∈ ms, P m.2.2) → P (.object ms))
    (v : Value) : P v :=
  @Value.rec P (fun es => ∀ e ∈ es, P e.2) (fun ms => ∀ m ∈ ms, P m.2.2) (fun e => P e.2)
    (fun m => P m.2.2) null bool number string array object (by simp)
    (fun _ _ he hes => List.forall_mem_cons.mpr ⟨he, hes⟩) (by simp)
    (fun _ _ hm hms => List.forall_mem_cons.mpr ⟨hm, hms⟩) (fun _ _ hv => hv) (fun _ _ hv => hv) v

/-! ## Texts -/

/-- What a text denotes, which is a value and space around it. -/
def Denotes (d : List UInt8) (m : Meaning) : Prop :=
  ∃ depth v rest, parse depth d = some (v, rest) ∧ skipSpace rest = [] ∧ denote v = m

/-- The second reads whatever the first does. -/
def Extends {α : Type} (p q : List UInt8 → Option (α × List UInt8)) : Prop :=
  ∀ ⦃bs r⦄, p bs = some r → q bs = some r

section

variable {α : Type} {item item' : List UInt8 → Option (α × List UInt8)} {close : UInt8}

lemma Extends.parseItems (h : Extends item item') (n : ℕ) :
    Extends (parseItems item close n) (parseItems item' close n) := by
  induction n with
  | zero =>
    intro bs r hr
    cases hr
  | succ n ih =>
    intro bs r hr
    obtain ⟨v, hv, hr⟩ := Option.bind_eq_some_iff.mp hr
    obtain ⟨⟨closed, rest⟩, hnext, hr⟩ := Option.bind_eq_some_iff.mp hr
    rw [JsonDoc.parseItems, h hv, Option.bind_some, hnext, Option.bind_some]
    cases closed with
    | true => exact hr
    | false =>
      obtain ⟨s, hs, hr⟩ := Option.map_eq_some_iff.mp hr
      exact Option.map_eq_some_iff.mpr ⟨s, ih hs, hr⟩

lemma Extends.parseBracket (h : Extends item item') :
    Extends (parseBracket item close) (parseBracket item' close) := by
  intro bs r hr
  obtain ⟨⟨closed, rest⟩, hopen, hr⟩ := Option.bind_eq_some_iff.mp hr
  rw [JsonDoc.parseBracket, hopen, Option.bind_some]
  cases closed with
  | true => exact hr
  | false => exact h.parseItems _ hr

end

section

variable {value value' : List UInt8 → Option (Value × List UInt8)}

lemma Extends.parseElement (h : Extends value value') :
    Extends (parseElement value) (parseElement value') := by
  intro bs r hr
  obtain ⟨v, hv, hr⟩ := Option.map_eq_some_iff.mp hr
  exact Option.map_eq_some_iff.mpr ⟨v, h hv, hr⟩

lemma Extends.parseMember (h : Extends value value') :
    Extends (parseMember value) (parseMember value') := by
  intro bs r hr
  obtain ⟨k, hk, hr⟩ := Option.bind_eq_some_iff.mp hr
  obtain ⟨v, hv, hr⟩ := Option.map_eq_some_iff.mp hr
  exact Option.bind_eq_some_iff.mpr ⟨k, hk, Option.map_eq_some_iff.mpr ⟨v, h hv, hr⟩⟩

end

/-- What is read with some depth is read with more. -/
lemma extends_parseValue_succ (depth : ℕ) :
    Extends (parseValue depth) (parseValue (depth + 1)) := by
  induction depth with
  | zero =>
    intro bs r hr
    cases bs with
    | nil => cases hr
    | cons b bs =>
      rw [parseValue, Option.ite_none_left_eq_some, not_or] at hr
      rw [parseValue, if_neg hr.1.1, if_neg hr.1.2]
      exact hr.2
  | succ depth ih =>
    intro bs r hr
    cases bs with
    | nil => cases hr
    | cons b bs =>
      rw [parseValue] at hr ⊢
      split_ifs at hr ⊢ with harray hobject
      · obtain ⟨s, hs, hr⟩ := Option.map_eq_some_iff.mp hr
        exact Option.map_eq_some_iff.mpr ⟨s, ih.parseElement.parseBracket hs, hr⟩
      · obtain ⟨s, hs, hr⟩ := Option.map_eq_some_iff.mp hr
        exact Option.map_eq_some_iff.mpr ⟨s, ih.parseMember.parseBracket hs, hr⟩
      · exact hr

lemma extends_parseValue {depth depth' : ℕ} (h : depth ≤ depth') :
    Extends (parseValue depth) (parseValue depth') := by
  induction h with
  | refl => exact fun _ _ hr => hr
  | step _ ih => exact fun _ _ hr => extends_parseValue_succ _ (ih hr)

/-- **A text denotes one value**, however deep is read. -/
theorem Denotes.unique {d : List UInt8} {m n : Meaning} (hm : Denotes d m) (hn : Denotes d n) :
    m = n := by
  obtain ⟨depth, v, rest, hparse, -, rfl⟩ := hm
  obtain ⟨depth', v', rest', hparse', -, rfl⟩ := hn
  have hv := extends_parseValue (le_max_left depth depth') hparse
  have hv' := extends_parseValue (le_max_right depth depth') hparse'
  obtain ⟨rfl, -⟩ := Prod.mk.inj (Option.some.inj (hv.symm.trans hv'))
  rfl

/-! ## Names that differ -/

mutual

/-- No object has two members of one name. -/
def Meaning.Distinct : Meaning → Prop
  | .array es => DistinctElements es
  | .object ms => (ms.map Prod.fst).Nodup ∧ DistinctMembers ms
  | _ => True

/-- The same, in the elements of an array. -/
def DistinctElements : List Meaning → Prop
  | [] => True
  | m :: ms => m.Distinct ∧ DistinctElements ms

/-- The same, in the members of an object. -/
def DistinctMembers : List (List ℕ × Meaning) → Prop
  | [] => True
  | (_, m) :: ms => m.Distinct ∧ DistinctMembers ms

end

lemma distinctElements_iff {es : List Meaning} : DistinctElements es ↔ ∀ e ∈ es, e.Distinct := by
  induction es with
  | nil => simp [DistinctElements]
  | cons e es ih => rw [DistinctElements, ih, List.forall_mem_cons]

lemma distinctMembers_iff {ms : List (List ℕ × Meaning)} :
    DistinctMembers ms ↔ ∀ m ∈ ms, m.2.Distinct := by
  induction ms with
  | nil => simp [DistinctMembers]
  | cons m ms ih => rw [DistinctMembers, ih, List.forall_mem_cons]

lemma perm_sortMembers {α : Type} (ms : List (List ℕ × α)) : (sortMembers ms).Perm ms :=
  List.perm_insertionSort _ ms

lemma distinct_array_iff {es : List (List UInt8 × Value)} :
    (denote (.array es)).Distinct ↔ ∀ e ∈ es, (denote e.2).Distinct := by
  rw [denote, Meaning.Distinct, distinctElements_iff, denoteElements_eq, List.forall_mem_map]

lemma distinct_object_iff {ms : List (List ℕ × List UInt8 × Value)} :
    (denote (.object ms)).Distinct ↔
      (ms.map Prod.fst).Nodup ∧ ∀ m ∈ ms, (denote m.2.2).Distinct := by
  have hperm := perm_sortMembers (denoteMembers ms)
  rw [denote, Meaning.Distinct, distinctMembers_iff, (hperm.map Prod.fst).nodup_iff,
    denoteMembers_eq, List.map_map]
  refine and_congr Iff.rfl ?_
  simp only [(perm_sortMembers _).mem_iff, List.forall_mem_map]

/-! ## What is in a value -/

mutual

/-- The literals of the numbers in a value. -/
def numbers : Value → List (List UInt8)
  | .number l => [l]
  | .array es => numbersOfElements es
  | .object ms => numbersOfMembers ms
  | _ => []

/-- The literals of the numbers in the elements of an array. -/
def numbersOfElements : List (List UInt8 × Value) → List (List UInt8)
  | [] => []
  | (_, v) :: es => numbers v ++ numbersOfElements es

/-- The literals of the numbers in the members of an object. -/
def numbersOfMembers : List (List ℕ × List UInt8 × Value) → List (List UInt8)
  | [] => []
  | (_, _, v) :: ms => numbers v ++ numbersOfMembers ms

end

lemma mem_numbers_array {es : List (List UInt8 × Value)} {l : List UInt8} :
    l ∈ numbers (.array es) ↔ ∃ e ∈ es, l ∈ numbers e.2 := by
  rw [numbers]
  induction es with
  | nil => simp [numbersOfElements]
  | cons e es ih => simp [numbersOfElements, ih]

lemma mem_numbers_object {ms : List (List ℕ × List UInt8 × Value)} {l : List UInt8} :
    l ∈ numbers (.object ms) ↔ ∃ m ∈ ms, l ∈ numbers m.2.2 := by
  rw [numbers]
  induction ms with
  | nil => simp [numbersOfMembers]
  | cons m ms ih => simp [numbersOfMembers, ih]

/-- A step into a value. -/
inductive Step
  | element (index : ℕ)
  | member (name : List ℕ)

/-- The value that a step leads to. -/
def valueOf : Value → Step → Option Value
  | .array es, .element i => es[i]?.map fun e => e.2
  | .object ms, .member name => (ms.find? fun m => m.1 = name).map fun m => m.2.2
  | _, _ => none

/-- What a step leads to. -/
def meaningOf : Meaning → Step → Option Meaning
  | .array es, .element i => es[i]?
  | .object ms, .member name => (ms.find? fun m => m.1 = name).map Prod.snd
  | _, _ => none

/-- The value in a place. -/
def valueAt (v : Value) (path : List Step) : Option Value := path.foldlM valueOf v

/-- What is in a place. -/
def meaningAt (m : Meaning) (path : List Step) : Option Meaning := path.foldlM meaningOf m

lemma find?_orderedInsert {α : Type} (m : List ℕ × α) (ms : List (List ℕ × α)) (name : List ℕ) :
    (ms.orderedInsert (fun a b => a.1 ≤ b.1) m).find? (fun a => a.1 = name) =
      (m :: ms).find? fun a => a.1 = name := by
  induction ms with
  | nil => rfl
  | cons a ms ih =>
    rw [List.orderedInsert_cons]
    split_ifs with hle
    · rfl
    · -- `a` has a lesser name than `m`, so at most one of them is looked for
      have hne : a.1 ≠ m.1 := fun heq => hle heq.ge
      rw [List.find?_cons, ih]
      by_cases ha : a.1 = name
      · have hm : m.1 ≠ name := fun hm => hne (ha.trans hm.symm)
        simp [ha, hm]
      · simp [List.find?_cons, ha]

/-- Sorting keeps the first of the members of one name the first. -/
lemma find?_sortMembers {α : Type} (ms : List (List ℕ × α)) (name : List ℕ) :
    (sortMembers ms).find? (fun a => a.1 = name) = ms.find? fun a => a.1 = name := by
  induction ms with
  | nil => rfl
  | cons m ms ih =>
    rw [sortMembers, List.insertionSort_cons, find?_orderedInsert, List.find?_cons, List.find?_cons]
    rw [sortMembers] at ih
    rw [ih]

lemma meaningOf_denote (v : Value) (step : Step) :
    meaningOf (denote v) step = (valueOf v step).map denote := by
  cases v with
  | array es =>
    cases step with
    | element i => simp [denote, meaningOf, valueOf, denoteElements_eq, Function.comp_def]
    | member name => rfl
  | object ms =>
    cases step with
    | element i => rfl
    | member name =>
      rw [denote, meaningOf, find?_sortMembers, denoteMembers_eq, List.find?_map, valueOf]
      simp [Function.comp_def]
  | null | bool b | number l | string content => cases step <;> rfl

/-- **The value in a place is found in what the whole denotes.** -/
theorem meaningAt_denote (v : Value) (path : List Step) :
    meaningAt (denote v) path = (valueAt v path).map denote := by
  induction path generalizing v with
  | nil => rfl
  | cons step path ih =>
    rw [meaningAt, List.foldlM_cons, meaningOf_denote, valueAt, List.foldlM_cons]
    cases hstep : valueOf v step with
    | none => rfl
    | some w => exact ih w

lemma mem_numbers_of_valueOf {v w : Value} {step : Step} {l : List UInt8}
    (h : valueOf v step = some w) (hl : l ∈ numbers w) : l ∈ numbers v := by
  cases v with
  | array es =>
    cases step with
    | member name => cases h
    | element i =>
      obtain ⟨e, he, rfl⟩ := Option.map_eq_some_iff.mp h
      exact mem_numbers_array.mpr ⟨e, List.mem_of_getElem? he, hl⟩
  | object ms =>
    cases step with
    | element i => cases h
    | member name =>
      obtain ⟨m, hm, rfl⟩ := Option.map_eq_some_iff.mp h
      exact mem_numbers_object.mpr ⟨m, List.mem_of_find?_eq_some hm, hl⟩
  | null | bool b | number l | string content => cases step <;> cases h

/-- A number in a place is one of the numbers. -/
lemma mem_numbers_of_valueAt {v w : Value} {path : List Step} {l : List UInt8}
    (h : valueAt v path = some w) (hl : l ∈ numbers w) : l ∈ numbers v := by
  induction path generalizing v with
  | nil =>
    obtain rfl := Option.some.inj h
    exact hl
  | cons step path ih =>
    rw [valueAt, List.foldlM_cons] at h
    obtain ⟨u, hstep, hrest⟩ := Option.bind_eq_some_iff.mp h
    exact mem_numbers_of_valueOf hstep (ih hrest)

/-! ## Canonical forms -/

/-- A canonical form of texts, as RFC 8785 defines one. A text in which an object has two members of
one name has none, and the forms of two texts are equal if they denote the same. -/
structure CanonicalForm where
  transform : List UInt8 → Option (List UInt8)
  distinct : ∀ {d c : List UInt8} {m : Meaning}, Denotes d m → transform d = some c → m.Distinct
  eq_iff : ∀ {d e c c' : List UInt8} {m n : Meaning}, Utf8.valid d = true → Utf8.valid e = true →
    Denotes d m → Denotes e n → transform d = some c → transform e = some c' → (c = c' ↔ m = n)

open Classical in
/-- The form that takes one of the texts for each meaning. -/
noncomputable def CanonicalForm.representative : CanonicalForm where
  transform d :=
    if h : ∃ m, Denotes d m ∧ m.Distinct then
      some (Classical.choose (⟨d, h.choose_spec.1⟩ : ∃ e, Denotes e h.choose))
    else none
  distinct := by
    intro d c m hm hc
    rw [Option.dite_none_right_eq_some] at hc
    obtain ⟨h, -⟩ := hc
    exact hm.unique h.choose_spec.1 ▸ h.choose_spec.2
  eq_iff := by
    intro d e c c' m n _ _ hm hn hc hc'
    rw [Option.dite_none_right_eq_some] at hc hc'
    obtain ⟨hd, hc⟩ := hc
    obtain ⟨he, hc'⟩ := hc'
    obtain rfl := Option.some.inj hc
    obtain rfl := Option.some.inj hc'
    have hd' := Classical.choose_spec (⟨d, hd.choose_spec.1⟩ : ∃ e, Denotes e hd.choose)
    have he' := Classical.choose_spec (⟨e, he.choose_spec.1⟩ : ∃ e, Denotes e he.choose)
    have hmd := hm.unique hd.choose_spec.1
    have hne := hn.unique he.choose_spec.1
    constructor
    · intro heq
      rw [heq] at hd'
      exact hmd.trans ((hd'.unique he').trans hne.symm)
    · intro heq
      have hchoose : hd.choose = he.choose := hmd.symm.trans (heq.trans hne)
      simp only [hchoose]

/-- It has a form for each text that denotes something without two members of one name. -/
lemma CanonicalForm.exists_representative {d : List UInt8} {m : Meaning} (hm : Denotes d m)
    (hdistinct : m.Distinct) : ∃ c, CanonicalForm.representative.transform d = some c := by
  have h : ∃ m, Denotes d m ∧ m.Distinct := ⟨m, hm, hdistinct⟩
  exact ⟨_, dif_pos h⟩

end JsonDoc
