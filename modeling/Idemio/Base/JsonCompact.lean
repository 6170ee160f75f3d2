import Idemio.Base.JsonMeaning
import Idemio.Base.JsonText
import Idemio.Base.Unmarshal

set_option relaxedAutoImplicit false
set_option autoImplicit false

/-!
# JSON documents without their space

How `encoding/json` of Go writes a document that was written by someone else: without the space in
it, and with the escapes that it writes strings with.

## Main definitions

* `JsonDoc.compact`, `JsonDoc.appendCompact` — a document without space.
* `JsonDoc.Compacts` — what is read of a text is read without the space, wherever it stands.

## Main results

* `JsonDoc.StringText.compacted` — a string keeps its content.
* `JsonDoc.exists_of_skipNumber` — a number is read wherever it stands.
* `JsonDoc.compacts_parseValue` — a value keeps its meaning.
-/

namespace JsonDoc

/-! ## Leaving out space -/

/-- Where in a document a byte stands: outside of strings, in one, after the backslash in one, or in
a separator that was escaped already. -/
inductive Mode
  | outside
  | inside
  | escaped
  | second
  | third
  deriving DecidableEq, Repr

/-- The bytes begin with U+2028 or U+2029. -/
def isSeparator (s : List UInt8) : Bool :=
  s.take 2 = [0xE2, 0x80] && (s[2]? = some 0xA8 || s[2]? = some 0xA9)

/-- A document without the space outside of its strings, and with escapes inside. -/
def compact : Mode → List UInt8 → List UInt8
  | _, [] => []
  | .outside, b :: s =>
    if isSpace b then compact .outside s
    else b :: compact (if b = 0x22 then .inside else .outside) s
  | .inside, b :: s =>
    if isHTML b then escapeByte b ++ compact .inside s
    else if isSeparator (b :: s) then
      escapeSeparator (if s[1]? = some 0xA8 then 0x2028 else 0x2029) ++ compact .second s
    else b :: compact (if b = 0x22 then .outside else if b = 0x5C then .escaped else .inside) s
  | .escaped, b :: s => b :: compact .inside s
  | .second, _ :: s => compact .third s
  | .third, _ :: s => compact .inside s

/-- `appendCompact`, with escapes: nothing if the text is not one document. -/
def appendCompact (s : List UInt8) : Option (List UInt8) :=
  if (Unmarshal.document s).isSome then some (compact .outside s) else none

/-! ## Strings without space -/

lemma isSeparator_append (b : UInt8) (t rest : List UInt8) :
    isSeparator (b :: (t ++ 0x22 :: rest)) = isSeparator (b :: t) := by
  rcases t with _ | ⟨b₁, _ | ⟨b₂, t⟩⟩ <;> simp [isSeparator]

lemma exists_of_isSeparator {b : UInt8} {t : List UInt8} (h : isSeparator (b :: t) = true) :
    ∃ c t', b = 0xE2 ∧ t = 0x80 :: c :: t' ∧ (c = 0xA8 ∨ c = 0xA9) := by
  rcases t with _ | ⟨b₁, _ | ⟨b₂, t⟩⟩
  · simp [isSeparator] at h
  · simp [isSeparator] at h
  · simp only [isSeparator, List.take_succ_cons, List.take_zero, Bool.and_eq_true,
      decide_eq_true_eq, List.cons.injEq, and_true, List.getElem?_cons_succ,
      List.getElem?_cons_zero, Option.some.injEq, Bool.or_eq_true] at h
    obtain ⟨⟨rfl, rfl⟩, hc⟩ := h
    exact ⟨b₂, t, rfl, rfl, hc⟩

/-- A byte that stands for itself in a string. -/
lemma compact_inside_plain {b : UInt8} {s : List UInt8} (hhtml : isHTML b = false)
    (hseparator : isSeparator (b :: s) = false) (hquote : b ≠ 0x22) (hslash : b ≠ 0x5C) :
    compact .inside (b :: s) = b :: compact .inside s := by
  rw [compact, hhtml, hseparator, if_neg hquote, if_neg hslash]
  simp

lemma compact_inside_hex {h : UInt8} {n : ℕ} (hn : hexValue h = some n) (s : List UInt8) :
    compact .inside (h :: s) = h :: compact .inside s := by
  have hascii : h.toNat ≤ 0x66 ∧ 0x30 ≤ h.toNat ∧ h.toNat ≠ 0x5C ∧ h.toNat ≠ 0x3C ∧
      h.toNat ≠ 0x3E := by
    unfold hexValue at hn
    simp only [UInt8.le_iff_toNat_le] at hn
    simp at hn
    split_ifs at hn <;> omega
  have hne : ∀ c : UInt8, h.toNat ≠ c.toNat → h ≠ c := fun c hc heq => hc (heq ▸ rfl)
  refine compact_inside_plain ?_ ?_ ?_ ?_
  · simp only [isHTML, Bool.or_eq_false_iff, decide_eq_false_iff_not]
    exact ⟨⟨hne _ (by simp; omega), hne _ (by simp; omega)⟩, hne _ (by simp; omega)⟩
  · have hlead : h ≠ 0xE2 := hne _ (by simp; omega)
    simp [isSeparator, hlead]
  · exact hne _ (by simp; omega)
  · exact hne _ (by simp; omega)

lemma StringText.of_plain {b : UInt8} {t : List UInt8} {ps : List (UInt8 ⊕ ℕ)}
    (h : StringText (b :: t) ps) (hslash : b ≠ 0x5C) :
    ∃ ps', ps = .inl b :: ps' ∧ StringText t ps' := by
  generalize hs : b :: t = s at h
  cases h with
  | nil => cases hs
  | plain _ _ _ htext =>
    obtain ⟨rfl, rfl⟩ := List.cons.inj hs
    exact ⟨_, rfl, htext⟩
  | short _ _ => exact absurd (List.cons.inj hs).1 hslash
  | unicode _ _ => exact absurd (List.cons.inj hs).1 hslash

lemma exists_hexValue {h₁ h₂ h₃ h₄ : UInt8} {u : ℕ} (h : hex4 h₁ h₂ h₃ h₄ = some u) :
    ∃ n₁ n₂ n₃ n₄, hexValue h₁ = some n₁ ∧ hexValue h₂ = some n₂ ∧ hexValue h₃ = some n₃ ∧
      hexValue h₄ = some n₄ := by
  simp only [hex4, Option.bind_eq_bind, Option.bind_eq_some_iff] at h
  obtain ⟨n₁, h₁, n₂, h₂, n₃, h₃, n₄, h₄, -⟩ := h
  exact ⟨n₁, n₂, n₃, n₄, h₁, h₂, h₃, h₄⟩

/-- The text of a string inside a document without space, and its pieces. The content is the same,
whatever comes before. -/
def Compacted (t : List UInt8) (ps : List (UInt8 ⊕ ℕ)) (t' : List UInt8) (ps' : List (UInt8 ⊕ ℕ)) :
    Prop :=
  (∀ rest, compact .inside (t ++ 0x22 :: rest) = t' ++ 0x22 :: compact .outside rest) ∧
    StringText t' ps' ∧ ∀ before, unescape (before ++ ps') = unescape (before ++ ps)

/-- Another piece before those that stay as they are. -/
lemma Compacted.unescape_cons {t t' : List UInt8} {ps ps' : List (UInt8 ⊕ ℕ)}
    (h : Compacted t ps t' ps') (p : UInt8 ⊕ ℕ) (before : List (UInt8 ⊕ ℕ)) :
    unescape (before ++ p :: ps') = unescape (before ++ p :: ps) := by
  simpa using h.2.2 (before ++ [p])

/-- Other pieces of the same content before those that stay as they are. -/
lemma Compacted.unescape_of_eq {t t' : List UInt8} {ps ps' qs : List (UInt8 ⊕ ℕ)} {p q : UInt8 ⊕ ℕ}
    (h : Compacted t ps t' ps') (hp : Separable p) (hq : Separable q)
    (heq : unescape [p] ++ unescape ps = unescape [q] ++ unescape qs)
    (before : List (UInt8 ⊕ ℕ)) :
    unescape (before ++ p :: ps') = unescape (before ++ q :: qs) := by
  have hself : unescape ps' = unescape ps := h.2.2 []
  rw [unescape_append_cons hp, unescape_append_cons hq, hself, heq]

section Pieces

variable {t t' : List UInt8} {ps ps' : List (UInt8 ⊕ ℕ)}

lemma compacted_nil : Compacted [] [] [] [] :=
  ⟨fun rest => by simp [compact, isHTML, isSeparator], .nil, fun _ => rfl⟩

/-- A byte that means something in HTML becomes an escape. -/
lemma Compacted.html {b : UInt8} (h : Compacted t ps t' ps') (hhtml : isHTML b = true) :
    Compacted (b :: t) (.inl b :: ps) (escapeByte b ++ t') (.inr b.toNat :: ps') := by
  have hascii : b < 0x80 ∧ b.toNat < 0xD800 := by
    simp only [isHTML, Bool.or_eq_true, decide_eq_true_eq] at hhtml
    rcases hhtml with (rfl | rfl) | rfl <;> decide
  have hself : unescape [.inr b.toNat] = [b] := by
    have hlt := UInt8.lt_iff_toNat_lt.mp hascii.1
    simp at hlt
    simp [unescape, Utf8.encodeRune, hlt]
  refine ⟨fun rest => ?_, .unicode (hex4_escapeByte b) h.2.1, h.unescape_of_eq ?_ trivial ?_⟩
  · rw [List.cons_append, compact, if_pos hhtml, h.1, List.append_assoc]
  · change ¬(0xD800 ≤ b.toNat ∧ b.toNat < 0xE000)
    omega
  · rw [hself]
    rfl

/-- The three bytes of a separator become an escape. -/
lemma Compacted.separator {c : UInt8} (h : Compacted t ps t' ps') (hc : c = 0xA8 ∨ c = 0xA9) :
    ∃ r, Compacted (0xE2 :: 0x80 :: c :: t) (.inl 0xE2 :: .inl 0x80 :: .inl c :: ps)
      (escapeSeparator r ++ t') (.inr r :: ps') := by
  obtain ⟨r, hr, hhex, hbytes, hseparable⟩ : ∃ r, (if c = 0xA8 then 0x2028 else 0x2029) = r ∧
      hex4 0x32 0x30 0x32 (hexDigit (r % 16)) = some r ∧
      Utf8.encodeRune r = [0xE2, 0x80, c] ∧ Separable (.inr r) := by
    rcases hc with rfl | rfl
    · exact ⟨0x2028, rfl, by decide, by decide, by unfold Separable; omega⟩
    · exact ⟨0x2029, rfl, by decide, by decide, by unfold Separable; omega⟩
  refine ⟨r, fun rest => ?_, .unicode hhex h.2.1, h.unescape_of_eq hseparable trivial ?_⟩
  · have hseparator : isSeparator (0xE2 :: 0x80 :: c :: (t ++ 0x22 :: rest)) = true := by
      simpa [isSeparator] using hc
    simp only [List.cons_append]
    rw [compact, if_neg (by decide), if_pos hseparator]
    simp [compact, hr, h.1]
  · simp [unescape, hbytes]

/-- Any other byte stays. -/
lemma Compacted.plain {b : UInt8} (h : Compacted t ps t' ps') (hhtml : isHTML b = false)
    (hseparator : isSeparator (b :: t) = false) (hquote : b ≠ 0x22) (hslash : b ≠ 0x5C)
    (hcontrol : ¬b < 0x20) : Compacted (b :: t) (.inl b :: ps) (b :: t') (.inl b :: ps') := by
  refine ⟨fun rest => ?_, .plain hquote hslash hcontrol h.2.1, h.unescape_cons _⟩
  rw [← isSeparator_append b t rest] at hseparator
  rw [List.cons_append, compact_inside_plain hhtml hseparator hquote hslash, h.1,
    List.cons_append]

lemma Compacted.short {e c : UInt8} (h : Compacted t ps t' ps') (hescaped : escaped e = some c) :
    Compacted (0x5C :: e :: t) (.inl c :: ps) (0x5C :: e :: t') (.inl c :: ps') := by
  refine ⟨fun rest => ?_, .short hescaped h.2.1, h.unescape_cons _⟩
  simp [compact, isHTML, isSeparator, h.1]

lemma Compacted.unicode {h₁ h₂ h₃ h₄ : UInt8} {u : ℕ} (h : Compacted t ps t' ps')
    (hhex : hex4 h₁ h₂ h₃ h₄ = some u) :
    Compacted (0x5C :: 0x75 :: h₁ :: h₂ :: h₃ :: h₄ :: t) (.inr u :: ps)
      (0x5C :: 0x75 :: h₁ :: h₂ :: h₃ :: h₄ :: t') (.inr u :: ps') := by
  obtain ⟨n₁, n₂, n₃, n₄, hn₁, hn₂, hn₃, hn₄⟩ := exists_hexValue hhex
  refine ⟨fun rest => ?_, .unicode hhex h.2.1, h.unescape_cons _⟩
  have hslash : ∀ s, compact .inside (0x5C :: 0x75 :: s) = 0x5C :: 0x75 :: compact .inside s :=
    fun s => by simp [compact, isHTML, isSeparator]
  simp only [List.cons_append, hslash, compact_inside_hex hn₁, compact_inside_hex hn₂,
    compact_inside_hex hn₃, compact_inside_hex hn₄, h.1]

end Pieces

/-- **A string keeps its content.**

**Proof sketch.** Induction on the length of its text. A byte that means something in HTML and the
three bytes of a separator are replaced by escapes, which are no halves of runes; everything else
stays. -/
lemma StringText.compacted {t : List UInt8} {ps : List (UInt8 ⊕ ℕ)} (h : StringText t ps) :
    ∃ t' ps', Compacted t ps t' ps' := by
  induction hn : t.length using Nat.strong_induction_on generalizing t ps with
  | _ n ih =>
    cases h with
    | nil => exact ⟨[], [], compacted_nil⟩
    | @plain b t ps hquote hslash hcontrol htext =>
      by_cases hseparator : isSeparator (b :: t) = true
      · obtain ⟨c, t, rfl, rfl, hc⟩ := exists_of_isSeparator hseparator
        obtain ⟨ps₁, rfl, htext₁⟩ := htext.of_plain (by decide)
        obtain ⟨ps₂, rfl, htext₂⟩ := htext₁.of_plain (by rcases hc with rfl | rfl <;> decide)
        simp only [List.length_cons] at hn
        obtain ⟨t', ps', hrest⟩ := ih t.length (by omega) htext₂ rfl
        obtain ⟨r, hcompacted⟩ := hrest.separator hc
        exact ⟨_, _, hcompacted⟩
      · rw [List.length_cons] at hn
        obtain ⟨t', ps', hrest⟩ := ih t.length (by omega) htext rfl
        cases hhtml : isHTML b with
        | true => exact ⟨_, _, hrest.html hhtml⟩
        | false =>
          exact ⟨_, _, hrest.plain hhtml (by simpa using hseparator) hquote hslash hcontrol⟩
    | @short e c t ps hescaped htext =>
      simp only [List.length_cons] at hn
      obtain ⟨t', ps', hrest⟩ := ih t.length (by omega) htext rfl
      exact ⟨_, _, hrest.short hescaped⟩
    | @unicode h₁ h₂ h₃ h₄ u t ps hhex htext =>
      simp only [List.length_cons] at hn
      obtain ⟨t', ps', hrest⟩ := ih t.length (by omega) htext rfl
      exact ⟨_, _, hrest.unicode hhex⟩

/-! ## Numbers -/

/-- The text does not continue a number. -/
def Delimits (tail : List UInt8) : Prop :=
  ∀ b ∈ tail.head?, isDigit b = false ∧ b ≠ 0x2E ∧ b ≠ 0x65 ∧ b ≠ 0x45

/-- A byte of a number. -/
def isNumeric (b : UInt8) : Bool :=
  isDigit b || b = 0x2D || b = 0x2B || b = 0x2E || b = 0x65 || b = 0x45

lemma dropWhile_isDigit {ds tail : List UInt8} (hds : ∀ d ∈ ds, isDigit d = true)
    (htail : ∀ b ∈ tail.head?, isDigit b = false) : (ds ++ tail).dropWhile isDigit = tail := by
  induction ds with
  | nil =>
    cases tail with
    | nil => rfl
    | cons b tail => rw [List.nil_append, List.dropWhile_cons, htail b rfl]; simp
  | cons d ds ih =>
    rw [List.cons_append, List.dropWhile_cons, if_pos (hds d List.mem_cons_self)]
    exact ih fun e he => hds e (List.mem_cons_of_mem d he)

/-- The digits that are skipped. -/
lemma exists_of_skipDigits {s rest : List UInt8} (h : skipDigits s = some rest) :
    ∃ d ds, s = d :: ds ++ rest ∧ (∀ e ∈ d :: ds, isDigit e = true) ∧
      ∀ tail, (∀ b ∈ tail.head?, isDigit b = false) → skipDigits (d :: ds ++ tail) = some tail := by
  cases s with
  | nil => cases h
  | cons d s =>
    rw [skipDigits, Option.ite_none_right_eq_some] at h
    obtain ⟨hd, hrest⟩ := h
    have hdigits : ∀ e ∈ s.takeWhile isDigit, isDigit e = true :=
      List.all_eq_true.mp List.all_takeWhile
    refine ⟨d, s.takeWhile isDigit, ?_, List.forall_mem_cons.mpr ⟨hd, hdigits⟩,
      fun tail htail => ?_⟩
    · rw [← Option.some.inj hrest, List.cons_append, List.takeWhile_append_dropWhile]
    · rw [List.cons_append, skipDigits, if_pos hd, dropWhile_isDigit hdigits htail]

lemma exists_of_skipInt {s rest : List UInt8} (h : skipInt s = some rest) :
    ∃ d ds, s = d :: ds ++ rest ∧ (∀ e ∈ d :: ds, isDigit e = true) ∧
      ∀ tail, (∀ b ∈ tail.head?, isDigit b = false) → skipInt (d :: ds ++ tail) = some tail := by
  cases s with
  | nil => cases h
  | cons b s =>
    rw [skipInt] at h
    split_ifs at h with hzero
    · obtain rfl := Option.some.inj h
      exact ⟨b, [], rfl, by simp [hzero, isDigit], fun tail _ => by simp [skipInt, hzero]⟩
    · obtain ⟨d, ds, heq, hdigits, hskip⟩ := exists_of_skipDigits h
      obtain ⟨rfl, rfl⟩ := List.cons.inj heq
      refine ⟨b, ds, rfl, hdigits, fun tail htail => ?_⟩
      rw [List.cons_append, skipInt, if_neg hzero]
      exact hskip tail htail

lemma numeric_of_digits {ds : List UInt8} (h : ∀ d ∈ ds, isDigit d = true) :
    ∀ d ∈ ds, isNumeric d = true := fun d hd => by simp [isNumeric, h d hd]

/-- A fraction part is empty or begins with a point. -/
lemma exists_of_skipFraction {s rest : List UInt8} (h : skipFraction s = some rest) :
    ∃ t, s = t ++ rest ∧ (∀ b ∈ t, isNumeric b = true) ∧ (∀ b ∈ t.head?, b = 0x2E) ∧
      ∀ tail, (∀ b ∈ tail.head?, isDigit b = false ∧ b ≠ 0x2E) →
        skipFraction (t ++ tail) = some tail := by
  cases s with
  | nil =>
    obtain rfl := Option.some.inj h
    refine ⟨[], rfl, by simp, by simp, fun tail htail => ?_⟩
    cases tail with
    | nil => rfl
    | cons b tail => simp [skipFraction, (htail b rfl).2]
  | cons b s =>
    rw [skipFraction] at h
    split_ifs at h with hpoint
    · obtain ⟨d, ds, rfl, hdigits, hskip⟩ := exists_of_skipDigits h
      refine ⟨b :: (d :: ds), rfl, ?_, by simp [hpoint], fun tail htail => ?_⟩
      · exact List.forall_mem_cons.mpr ⟨by simp [isNumeric, hpoint], numeric_of_digits hdigits⟩
      · rw [List.cons_append, skipFraction, if_pos hpoint]
        exact hskip tail fun b hb => (htail b hb).1
    · obtain rfl := Option.some.inj h
      refine ⟨[], rfl, by simp, by simp, fun tail htail => ?_⟩
      cases tail with
      | nil => rfl
      | cons c tail => simp [skipFraction, (htail c rfl).2]

/-- A sign before digits, for a function that skips it. -/
lemma exists_of_skip {skip : List UInt8 → List UInt8} {p : UInt8 → Prop} [DecidablePred p]
    (hnil : skip [] = []) (hcons : ∀ b s, skip (b :: s) = if p b then s else b :: s)
    (hp : ∀ b, p b → isNumeric b = true ∧ isDigit b = false) {s t : List UInt8} {d : UInt8}
    (h : skip s = d :: t) (hd : isDigit d = true) :
    ∃ sign, s = sign ++ d :: t ∧ (∀ b ∈ sign, isNumeric b = true) ∧
      ∀ u, skip (sign ++ d :: u) = d :: u := by
  have hself : ∀ u, skip (d :: u) = d :: u := by
    intro u
    rw [hcons, if_neg]
    intro hsign
    rw [(hp d hsign).2] at hd
    cases hd
  cases s with
  | nil =>
    rw [hnil] at h
    cases h
  | cons b s =>
    rw [hcons] at h
    split_ifs at h with hsign
    · refine ⟨[b], by rw [h]; rfl, by simpa using (hp b hsign).1, fun u => ?_⟩
      rw [List.singleton_append, hcons, if_pos hsign]
    · exact ⟨[], by rw [h]; rfl, by simp, hself⟩

lemma exists_of_skipExponent {s rest : List UInt8} (h : skipExponent s = some rest) :
    ∃ t, s = t ++ rest ∧ (∀ b ∈ t, isNumeric b = true) ∧ (∀ b ∈ t.head?, b = 0x65 ∨ b = 0x45) ∧
      ∀ tail, Delimits tail → skipExponent (t ++ tail) = some tail := by
  cases s with
  | nil =>
    obtain rfl := Option.some.inj h
    refine ⟨[], rfl, by simp, by simp, fun tail htail => ?_⟩
    cases tail with
    | nil => rfl
    | cons b tail => simp [skipExponent, (htail b rfl).2.2]
  | cons b s =>
    rw [skipExponent] at h
    split_ifs at h with hexponent
    · obtain ⟨d, ds, hs, hdigits, hskip⟩ := exists_of_skipDigits h
      obtain ⟨sign, rfl, hsign, hskipSign⟩ := exists_of_skip rfl
        (fun _ _ => rfl) (by rintro b (rfl | rfl) <;> decide) hs (hdigits d List.mem_cons_self)
      refine ⟨b :: (sign ++ d :: ds), by simp, ?_, by simpa using hexponent, fun tail htail => ?_⟩
      · refine List.forall_mem_cons.mpr
          ⟨by rcases hexponent with rfl | rfl <;> decide, fun e he => ?_⟩
        rcases List.mem_append.mp he with he | he
        · exact hsign e he
        · exact numeric_of_digits hdigits e he
      · rw [List.cons_append, skipExponent, if_pos hexponent, List.append_assoc, List.cons_append,
          hskipSign]
        exact hskip tail fun b hb => (htail b hb).1
    · obtain rfl := Option.some.inj h
      refine ⟨[], rfl, by simp, by simp, fun tail htail => ?_⟩
      cases tail with
      | nil => rfl
      | cons c tail => simp [skipExponent, (htail c rfl).2.2]

/-- What a text begins with, if it is made of two. -/
lemma forall_head_append {p : UInt8 → Prop} {t tail : List UInt8} (ht : ∀ b ∈ t.head?, p b)
    (htail : ∀ b ∈ tail.head?, p b) : ∀ b ∈ (t ++ tail).head?, p b := by
  cases t with
  | nil => exact htail
  | cons c t => exact ht

/-- **A number is read wherever it stands**, if what follows does not continue it. -/
lemma exists_of_skipNumber {s rest : List UInt8} (h : skipNumber s = some rest) :
    ∃ t, s = t ++ rest ∧ (∀ b ∈ t, isNumeric b = true) ∧
      ∀ tail, Delimits tail → skipNumber (t ++ tail) = some tail := by
  obtain ⟨s₂, h, hexponent⟩ := Option.bind_eq_some_iff.mp h
  obtain ⟨s₁, hint, hfraction⟩ := Option.bind_eq_some_iff.mp h
  obtain ⟨e, rfl, he, hehead, hskipExponent⟩ := exists_of_skipExponent hexponent
  obtain ⟨f, rfl, hf, hfhead, hskipFraction⟩ := exists_of_skipFraction hfraction
  obtain ⟨d, ds, hs, hdigits, hskipInt⟩ := exists_of_skipInt hint
  obtain ⟨sign, rfl, hsign, hskip⟩ := exists_of_skip rfl (fun _ _ => rfl)
    (by rintro b rfl; decide) hs (hdigits d List.mem_cons_self)
  refine ⟨sign ++ (d :: ds ++ (f ++ e)), by simp, fun b hb => ?_, fun tail htail => ?_⟩
  · simp only [List.mem_append] at hb
    rcases hb with hb | hb | hb | hb
    · exact hsign b hb
    · exact numeric_of_digits hdigits b hb
    · exact hf b hb
    · exact he b hb
  · -- what follows the exponent, the fraction part and the digits does not continue them
    have htail₂ : ∀ b ∈ (e ++ tail).head?, isDigit b = false ∧ b ≠ 0x2E := by
      refine forall_head_append (fun b hb => ?_) fun b hb => ⟨(htail b hb).1, (htail b hb).2.1⟩
      rcases hehead b hb with rfl | rfl <;> decide
    have htail₁ : ∀ b ∈ (f ++ (e ++ tail)).head?, isDigit b = false := by
      refine forall_head_append (fun b hb => ?_) fun b hb => (htail₂ b hb).1
      rw [hfhead b hb]
      decide
    have hassoc : sign ++ (d :: ds ++ (f ++ e)) ++ tail =
        sign ++ d :: (ds ++ (f ++ (e ++ tail))) := by simp
    rw [hassoc, skipNumber, hskip, ← List.cons_append, hskipInt _ htail₁, Option.bind_some,
      hskipFraction _ htail₂, Option.bind_some, hskipExponent _ htail]

lemma textBefore_append (t rest : List UInt8) : textBefore (t ++ rest) rest = t := by
  simp [textBefore]

/-! ## Values without space -/

lemma compact_skipSpace (s : List UInt8) : compact .outside (skipSpace s) = compact .outside s := by
  induction s with
  | nil => rfl
  | cons b s ih =>
    rw [skipSpace, List.dropWhile_cons]
    split_ifs with hspace
    · rw [compact, if_pos hspace]
      exact ih
    · rfl

lemma compact_outside {b : UInt8} (hspace : isSpace b = false) (hquote : b ≠ 0x22)
    (s : List UInt8) : compact .outside (b :: s) = b :: compact .outside s := by
  rw [compact, hspace, if_neg hquote]
  simp

lemma skipSpace_cons {b : UInt8} (hspace : isSpace b = false) (s : List UInt8) :
    skipSpace (b :: s) = b :: s := by
  rw [skipSpace, List.dropWhile_cons, hspace]
  simp

/-- What the text begins with after its space stays at its front. -/
lemma compact_of_skipSpace {s t : List UInt8} {b : UInt8} (h : skipSpace s = b :: t)
    (hspace : isSpace b = false) (hquote : b ≠ 0x22) :
    compact .outside s = b :: compact .outside t := by
  rw [← compact_skipSpace, h, compact_outside hspace hquote]

lemma numeric_not_space {b : UInt8} (h : isNumeric b = true) : isSpace b = false ∧ b ≠ 0x22 := by
  constructor
  · by_contra hspace
    simp only [isSpace, Bool.not_eq_false, Bool.or_eq_true, decide_eq_true_eq] at hspace
    rcases hspace with ((rfl | rfl) | rfl) | rfl <;> revert h <;> decide
  · rintro rfl
    revert h
    decide

lemma compact_append {t : List UInt8} (ht : ∀ b ∈ t, isSpace b = false ∧ b ≠ 0x22)
    (rest : List UInt8) : compact .outside (t ++ rest) = t ++ compact .outside rest := by
  induction t with
  | nil => rfl
  | cons b t ih =>
    obtain ⟨hspace, hquote⟩ := ht b List.mem_cons_self
    rw [List.cons_append, compact_outside hspace hquote,
      ih fun c hc => ht c (List.mem_cons_of_mem b hc), List.cons_append]

/-- Without the space in it, what was read of `s` is read wherever it stands, up to `R`. -/
def ReadsBack {α : Type} (item : List UInt8 → Option (α × List UInt8)) (R : α → α → Prop)
    (s : List UInt8) (v : α) (rest : List UInt8) : Prop :=
  ∃ b c, s.head? = some b ∧ isSpace b = false ∧
    compact .outside s = b :: (c ++ compact .outside rest) ∧
    ∀ tail, Delimits tail → ∃ v', item (b :: (c ++ tail)) = some (v', tail) ∧ R v v'

/-- The same, of everything that is read. -/
def Compacts {α : Type} (item : List UInt8 → Option (α × List UInt8)) (R : α → α → Prop) : Prop :=
  ∀ ⦃s v rest⦄, item s = some (v, rest) → ReadsBack item R s v rest

/-- The values denote the same. -/
def SameMeaning (v v' : Value) : Prop := denote v = denote v'

/-- A closing bracket. -/
def Closes (close : UInt8) : Prop := close = 0x5D ∨ close = 0x7D

lemma Closes.not_space {close : UInt8} (h : Closes close) :
    isSpace close = false ∧ close ≠ 0x22 := by
  rcases h with rfl | rfl <;> decide

lemma Closes.delimits {close : UInt8} (h : Closes close) (tail : List UInt8) :
    Delimits (close :: tail) := by
  intro b hb
  obtain rfl := Option.some.inj hb
  rcases h with rfl | rfl <;> decide

lemma delimits_comma (tail : List UInt8) : Delimits (0x2C :: tail) := by
  intro b hb
  obtain rfl := Option.some.inj hb
  decide

section

variable {α : Type} {item : List UInt8 → Option (α × List UInt8)} {R : α → α → Prop} {close : UInt8}

/-- **Items without space.** As much fuel reads them. -/
lemma Compacts.parseItems (hitem : Compacts item R) (hclose : Closes close) {n : ℕ}
    {s rest : List UInt8} {vs : List α} (h : parseItems item close n s = some (vs, rest)) :
    ∃ b c, s.head? = some b ∧ isSpace b = false ∧
      compact .outside s = b :: (c ++ compact .outside rest) ∧
      ∀ tail, ∃ vs', JsonDoc.parseItems item close n (b :: (c ++ tail)) = some (vs', tail) ∧
        List.Forall₂ R vs vs' := by
  induction n generalizing s vs with
  | zero => cases h
  | succ n ih =>
    obtain ⟨⟨v, s₁⟩, hv, h⟩ := Option.bind_eq_some_iff.mp h
    obtain ⟨⟨closed, s₂⟩, hnext, h⟩ := Option.bind_eq_some_iff.mp h
    obtain ⟨b, c, hhead, hspace, hcompact, hread⟩ := hitem hv
    obtain ⟨hcloseSpace, hcloseQuote⟩ := hclose.not_space
    dsimp only at hnext h
    unfold parseNext at hnext
    split at hnext
    · cases hnext
    · next d s₃ hskip =>
      split_ifs at hnext with hd hcomma
      · -- the closing bracket
        obtain ⟨rfl, rfl⟩ := Prod.mk.inj (Option.some.inj hnext)
        obtain ⟨rfl, rfl⟩ := Prod.mk.inj (Option.some.inj h)
        subst hd
        refine ⟨b, c ++ [d], hhead, hspace, ?_, fun tail => ?_⟩
        · rw [hcompact, compact_of_skipSpace hskip hcloseSpace hcloseQuote]
          simp
        · obtain ⟨v', hv', hR⟩ := hread (d :: tail) (hclose.delimits tail)
          refine ⟨[v'], ?_, .cons hR .nil⟩
          rw [JsonDoc.parseItems, List.append_assoc, List.singleton_append, hv', Option.bind_some]
          simp [parseNext, skipSpace_cons hcloseSpace]
      · -- a comma and more items
        obtain ⟨rfl, rfl⟩ := Prod.mk.inj (Option.some.inj hnext)
        obtain ⟨⟨vs, rest'⟩, hitems, heq⟩ := Option.map_eq_some_iff.mp h
        obtain ⟨rfl, rfl⟩ := Prod.mk.inj heq
        obtain ⟨b₁, c₁, -, hspace₁, hcompact₁, hread₁⟩ := ih hitems
        subst hcomma
        refine ⟨b, c ++ 0x2C :: b₁ :: c₁, hhead, hspace, ?_, fun tail => ?_⟩
        · rw [compact_skipSpace] at hcompact₁
          rw [hcompact, compact_of_skipSpace hskip (by decide) (by decide), hcompact₁]
          simp
        · obtain ⟨v', hv', hR⟩ := hread (0x2C :: (b₁ :: (c₁ ++ tail))) (delimits_comma _)
          obtain ⟨vs', hvs', hRs⟩ := hread₁ tail
          refine ⟨v' :: vs', ?_, .cons hR hRs⟩
          have hassoc : c ++ 0x2C :: b₁ :: c₁ ++ tail = c ++ 0x2C :: (b₁ :: (c₁ ++ tail)) := by simp
          have hne : (0x2C : UInt8) ≠ close := Ne.symm (by rcases hclose with rfl | rfl <;> decide)
          rw [JsonDoc.parseItems, hassoc, hv', Option.bind_some]
          simp [parseNext, skipSpace_cons (by decide : isSpace 0x2C = false), hne,
            skipSpace_cons hspace₁, hvs']

/-- **What stands between brackets, without space.** -/
lemma Compacts.parseBracket (hitem : Compacts item R) (hconsumes : Consumes item)
    (hclose : Closes close) {s rest : List UInt8} {vs : List α}
    (h : parseBracket item close s = some (vs, rest)) :
    ∃ c, compact .outside s = c ++ compact .outside rest ∧
      ∀ tail, ∃ vs', JsonDoc.parseBracket item close (c ++ tail) = some (vs', tail) ∧
        List.Forall₂ R vs vs' := by
  obtain ⟨⟨closed, s₁⟩, hopen, h⟩ := Option.bind_eq_some_iff.mp h
  obtain ⟨hcloseSpace, hcloseQuote⟩ := hclose.not_space
  dsimp only at h
  unfold parseOpen at hopen
  split at hopen
  · cases hopen
  · next d s₂ hskip =>
    split_ifs at hopen with hd
    · obtain ⟨rfl, rfl⟩ := Prod.mk.inj (Option.some.inj hopen)
      obtain ⟨rfl, rfl⟩ := Prod.mk.inj (Option.some.inj h)
      subst hd
      refine ⟨[d], compact_of_skipSpace hskip hcloseSpace hcloseQuote, fun tail => ⟨[], ?_, .nil⟩⟩
      simp [JsonDoc.parseBracket, parseOpen, skipSpace_cons hcloseSpace]
    · obtain ⟨rfl, rfl⟩ := Prod.mk.inj (Option.some.inj hopen)
      obtain ⟨b, c, hhead, hspace, hcompact, hread⟩ := hitem.parseItems hclose h
      obtain rfl := Option.some.inj hhead
      refine ⟨d :: c, ?_, fun tail => ?_⟩
      · rw [← compact_skipSpace, hskip, hcompact, List.cons_append]
      · obtain ⟨vs', hvs', hRs⟩ := hread tail
        refine ⟨vs', ?_, hRs⟩
        simp only [JsonDoc.parseBracket, parseOpen, List.cons_append, skipSpace_cons hspace,
          if_neg hd, Option.bind_some, Bool.false_eq_true, if_false]
        exact parseItems_of_fuel hconsumes hvs' le_rfl

end

section

variable {value : List UInt8 → Option (Value × List UInt8)}

lemma Compacts.parseElement (h : Compacts value SameMeaning) :
    Compacts (parseElement value) fun e e' => SameMeaning e.2 e'.2 := by
  intro s e rest he
  obtain ⟨⟨v, rest'⟩, hv, heq⟩ := Option.map_eq_some_iff.mp he
  obtain ⟨rfl, rfl⟩ := Prod.mk.inj heq
  obtain ⟨b, c, hhead, hspace, hcompact, hread⟩ := h hv
  refine ⟨b, c, hhead, hspace, hcompact, fun tail htail => ?_⟩
  obtain ⟨v', hv', hsame⟩ := hread tail htail
  exact ⟨_, Option.map_eq_some_iff.mpr ⟨_, hv', rfl⟩, hsame⟩

/-- A string, its opening quote removed. -/
lemma exists_of_parseString {s rest : List UInt8} {content : List ℕ}
    (h : parseString s = some (content, rest)) :
    ∃ t, compact .inside s = t ++ 0x22 :: compact .outside rest ∧
      ∀ tail, parseString (t ++ 0x22 :: tail) = some (content, tail) := by
  obtain ⟨⟨ps, rest'⟩, hscan, heq⟩ := Option.map_eq_some_iff.mp h
  obtain ⟨rfl, rfl⟩ := Prod.mk.inj heq
  obtain ⟨t, rfl, htext⟩ := exists_stringText hscan
  obtain ⟨t', ps', hcompact, htext', hunescape⟩ := htext.compacted
  have hcontent : unescape ps' = unescape ps := hunescape []
  exact ⟨t', hcompact rest', fun tail => hcontent ▸ htext'.parse tail⟩

lemma Compacts.parseMember (h : Compacts value SameMeaning) :
    Compacts (parseMember value) fun m m' => m.1 = m'.1 ∧ SameMeaning m.2.2 m'.2.2 := by
  intro s m rest hm
  obtain ⟨⟨name, s₁⟩, hkey, hm⟩ := Option.bind_eq_some_iff.mp hm
  obtain ⟨⟨v, rest'⟩, hv, heq⟩ := Option.map_eq_some_iff.mp hm
  obtain ⟨rfl, rfl⟩ := Prod.mk.inj heq
  obtain ⟨b, c, hhead, hspace, hcompact, hread⟩ := h hv
  cases s with
  | nil => cases hkey
  | cons q s =>
    rw [parseKey, Option.ite_none_right_eq_some] at hkey
    obtain ⟨rfl, hkey⟩ := hkey
    obtain ⟨⟨content, s₂⟩, hstring, hcolon⟩ := Option.bind_eq_some_iff.mp hkey
    dsimp only at hcolon
    split at hcolon
    · cases hcolon
    · next k s₃ hskip =>
      rw [Option.ite_none_right_eq_some] at hcolon
      obtain ⟨rfl, hcolon⟩ := hcolon
      obtain ⟨rfl, rfl⟩ := Prod.mk.inj (Option.some.inj hcolon)
      obtain ⟨t, hinside, hparse⟩ := exists_of_parseString hstring
      refine ⟨0x22, t ++ 0x22 :: 0x3A :: b :: c, rfl, by decide, ?_, fun tail htail => ?_⟩
      · dsimp only at hcompact
        rw [compact_skipSpace] at hcompact
        rw [compact, if_neg (by decide), if_pos rfl, hinside,
          compact_of_skipSpace hskip (by decide) (by decide), hcompact]
        simp
      · obtain ⟨v', hv', hsame⟩ := hread tail htail
        refine ⟨_, Option.bind_eq_some_iff.mpr ⟨(content, b :: (c ++ tail)), ?_,
          Option.map_eq_some_iff.mpr ⟨_, hv', rfl⟩⟩, rfl, hsame⟩
        have hassoc : t ++ 0x22 :: 0x3A :: b :: c ++ tail =
            t ++ 0x22 :: 0x3A :: b :: (c ++ tail) := by simp
        rw [hassoc, parseKey, if_pos rfl, hparse]
        simp [skipSpace_cons (by decide : isSpace 0x3A = false), skipSpace_cons hspace]

end

/-- A literal name. -/
lemma exists_of_parseName {word s rest : List UInt8} {v w : Value}
    (hword : ∀ b ∈ word, isSpace b = false ∧ b ≠ 0x22) (h : parseName word v s = some (w, rest)) :
    w = v ∧ compact .outside s = word ++ compact .outside rest ∧
      ∀ tail, parseName word v (word ++ tail) = some (v, tail) := by
  obtain ⟨rest', hdrop, heq⟩ := Option.map_eq_some_iff.mp h
  obtain ⟨rfl, rfl⟩ := Prod.mk.inj heq
  obtain ⟨p, rfl, hp⟩ := List.dropPrefix?_eq_some_iff.mp hdrop
  obtain rfl : p = word := by simpa using hp
  refine ⟨rfl, ?_, fun tail => ?_⟩
  · exact compact_append hword rest'
  · exact Option.map_eq_some_iff.mpr ⟨tail, List.dropPrefix?_eq_some_iff.mpr ⟨p, rfl, by simp⟩, rfl⟩

/-- A literal name after its first letter. -/
lemma readsBack_name {b : UInt8} {word s rest : List UInt8} {v w : Value}
    (hb : isSpace b = false ∧ b ≠ 0x22) (hword : ∀ c ∈ word, isSpace c = false ∧ c ≠ 0x22)
    (h : parseName word w s = some (v, rest))
    (hscalar : ∀ tail, parseScalar (b :: tail) = parseName word w tail) :
    ReadsBack parseScalar SameMeaning (b :: s) v rest := by
  obtain ⟨rfl, hcompact, hread⟩ := exists_of_parseName hword h
  refine ⟨b, word, rfl, hb.1, ?_, fun tail _ => ⟨v, (hscalar _).trans (hread tail), rfl⟩⟩
  rw [compact_outside hb.1 hb.2, hcompact]

lemma readsBack_number {s rest : List UInt8} {b : UInt8} {v : Value}
    (h : parseNumber (b :: s) = some (v, rest))
    (hscalar : ∀ tail, parseScalar (b :: tail) = parseNumber (b :: tail)) :
    ReadsBack parseScalar SameMeaning (b :: s) v rest := by
  have hlength := length_of_parseNumber h
  obtain ⟨rest', hskip, heq⟩ := Option.map_eq_some_iff.mp h
  obtain ⟨rfl, rfl⟩ := Prod.mk.inj heq
  obtain ⟨t, ht, hnumeric, hread⟩ := exists_of_skipNumber hskip
  have hsolid : ∀ c ∈ t, isSpace c = false ∧ c ≠ 0x22 :=
    fun c hc => numeric_not_space (hnumeric c hc)
  rw [ht, textBefore_append]
  rw [ht] at hlength
  cases t with
  | nil => exact absurd hlength (lt_irrefl _)
  | cons b' t =>
    obtain rfl := (List.cons.inj ht).1
    refine ⟨b, t, rfl, (hsolid b List.mem_cons_self).1, compact_append hsolid rest',
      fun tail htail => ⟨.number (b :: t), ?_, rfl⟩⟩
    rw [hscalar, parseNumber, ← List.cons_append, hread tail htail, Option.map_some,
      textBefore_append]

lemma compacts_parseScalar : Compacts parseScalar SameMeaning := by
  intro s v rest h
  cases s with
  | nil => cases h
  | cons b s =>
    rw [parseScalar] at h
    split_ifs at h with hstring hnull htrue hfalse
    · subst hstring
      obtain ⟨⟨content, rest'⟩, hparse, heq⟩ := Option.map_eq_some_iff.mp h
      obtain ⟨rfl, rfl⟩ := Prod.mk.inj heq
      obtain ⟨t, hcompact, hread⟩ := exists_of_parseString hparse
      refine ⟨0x22, t ++ [0x22], rfl, by decide, ?_, fun tail _ => ⟨.string content, ?_, rfl⟩⟩
      · rw [compact, if_neg (by decide), if_pos rfl, hcompact]
        simp
      · rw [parseScalar, if_pos rfl, List.append_assoc, List.singleton_append, hread]
        rfl
    · subst hnull
      exact readsBack_name (by decide) (by simp [isSpace]) h fun tail => rfl
    · subst htrue
      exact readsBack_name (by decide) (by simp [isSpace]) h fun tail => rfl
    · subst hfalse
      exact readsBack_name (by decide) (by simp [isSpace]) h fun tail => rfl
    · refine readsBack_number h fun tail => ?_
      rw [parseScalar, if_neg hstring, if_neg hnull, if_neg htrue, if_neg hfalse]

lemma denoteElements_congr {es es' : List (List UInt8 × Value)}
    (h : List.Forall₂ (fun e e' => SameMeaning e.2 e'.2) es es') :
    denoteElements es = denoteElements es' := by
  induction h with
  | nil => rfl
  | cons he _ ih => exact congrArg₂ List.cons he ih

lemma denoteMembers_congr {ms ms' : List (List ℕ × List UInt8 × Value)}
    (h : List.Forall₂ (fun m m' => m.1 = m'.1 ∧ SameMeaning m.2.2 m'.2.2) ms ms') :
    denoteMembers ms = denoteMembers ms' := by
  induction h with
  | nil => rfl
  | cons hm _ ih => exact congrArg₂ List.cons (Prod.ext hm.1 hm.2) ih

/-- What stands between brackets, and the brackets. -/
lemma readsBack_bracket {α : Type} {depth : ℕ} {item : List UInt8 → Option (α × List UInt8)}
    {R : α → α → Prop} {opening close : UInt8} {make : List α → Value}
    (hitem : Compacts item R) (hconsumes : Consumes item) (hclose : Closes close)
    (hopening : isSpace opening = false ∧ opening ≠ 0x22)
    (hvalue : ∀ s, parseValue depth (opening :: s) =
      (parseBracket item close s).map fun r => (make r.1, r.2))
    (hmake : ∀ vs vs', List.Forall₂ R vs vs' → SameMeaning (make vs) (make vs'))
    {s rest : List UInt8} {v : Value} (h : parseValue depth (opening :: s) = some (v, rest)) :
    ReadsBack (parseValue depth) SameMeaning (opening :: s) v rest := by
  rw [hvalue] at h
  obtain ⟨⟨vs, rest'⟩, hbracket, heq⟩ := Option.map_eq_some_iff.mp h
  obtain ⟨rfl, rfl⟩ := Prod.mk.inj heq
  obtain ⟨c, hcompact, hread⟩ := hitem.parseBracket hconsumes hclose hbracket
  refine ⟨opening, c, rfl, hopening.1, ?_, fun tail _ => ?_⟩
  · rw [compact_outside hopening.1 hopening.2, hcompact]
  · obtain ⟨vs', hvs', hRs⟩ := hread tail
    exact ⟨make vs', by rw [hvalue, hvs', Option.map_some], hmake vs vs' hRs⟩

/-- **A value keeps its meaning without its space.**

**Proof sketch.** Induction on how deep values may be nested. -/
theorem compacts_parseValue (depth : ℕ) : Compacts (parseValue depth) SameMeaning := by
  induction depth with
  | zero =>
    intro s v rest h
    cases s with
    | nil => cases h
    | cons b s =>
      rw [parseValue, Option.ite_none_left_eq_some] at h
      obtain ⟨b', c, hhead, hspace, hcompact, hread⟩ := compacts_parseScalar h.2
      obtain rfl := Option.some.inj hhead
      refine ⟨b, c, rfl, hspace, hcompact, fun tail htail => ?_⟩
      rw [parseValue, if_neg h.1]
      exact hread tail htail
  | succ depth ih =>
    intro s v rest h
    cases s with
    | nil => cases h
    | cons b s =>
      by_cases harray : b = 0x5B
      · subst harray
        refine readsBack_bracket ih.parseElement (consumes_parseValue depth).parseElement (.inl rfl)
          (by decide) (fun s => rfl) (fun vs vs' hvs => ?_) h
        exact congrArg Meaning.array (denoteElements_congr hvs)
      · by_cases hobject : b = 0x7B
        · subst hobject
          refine readsBack_bracket ih.parseMember (consumes_parseValue depth).parseMember (.inr rfl)
            (by decide) (fun s => rfl) (fun vs vs' hvs => ?_) h
          exact congrArg (fun ms => Meaning.object (sortMembers ms)) (denoteMembers_congr hvs)
        · rw [parseValue, if_neg harray, if_neg hobject] at h
          obtain ⟨b', c, hhead, hspace, hcompact, hread⟩ := compacts_parseScalar h
          obtain rfl := Option.some.inj hhead
          refine ⟨b, c, rfl, hspace, hcompact, fun tail htail => ?_⟩
          rw [parseValue, if_neg harray, if_neg hobject]
          exact hread tail htail

end JsonDoc
