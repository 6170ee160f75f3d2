import Idemio.Base.Json

set_option relaxedAutoImplicit false
set_option autoImplicit false

/-!
# JSON strings as they are written

How `encoding/json` of Go writes a string. Characters that mean something in HTML, and two
separators of lines, are escaped besides those that have to be.

## Main definitions

* `JsonDoc.marshalString` — a string.
* `JsonDoc.StringText` — the text between the quotes of a string, and its pieces.

## Main results

* `JsonDoc.StringText.scan`, `JsonDoc.exists_stringText` — it is what the parser scans.
* `JsonDoc.stringOf_escapeFrom` — what is written between the quotes is the string.
* `JsonDoc.valid_marshalString` — it is written in UTF-8.
-/

namespace JsonDoc

/-! ## Writing -/

/-- A hexadecimal digit. -/
def hexDigit (n : ℕ) : UInt8 := if n < 10 then (0x30 + n).toUInt8 else (0x57 + n).toUInt8

/-- A byte as an escape. -/
def escapeByte (b : UInt8) : List UInt8 :=
  [0x5C, 0x75, 0x30, 0x30, hexDigit (b.toNat / 16), hexDigit (b.toNat % 16)]

/-- The escape of U+2028 or U+2029. -/
def escapeSeparator (r : ℕ) : List UInt8 := [0x5C, 0x75, 0x32, 0x30, 0x32, hexDigit (r % 16)]

/-- Bytes that are escaped because of what they mean in HTML. -/
def isHTML (b : UInt8) : Bool := b = 0x3C || b = 0x3E || b = 0x26

/-- `htmlSafeSet`: an ASCII byte that stands for itself. -/
def htmlSafe (b : UInt8) : Bool := 0x20 ≤ b && !(b = 0x22 || b = 0x5C || isHTML b)

/-- An ASCII byte of a string. -/
def escapeAscii (b : UInt8) : List UInt8 :=
  if htmlSafe b then [b]
  else if b = 0x5C ∨ b = 0x22 then [0x5C, b]
  else if b = 0x08 then [0x5C, 0x62]
  else if b = 0x0C then [0x5C, 0x66]
  else if b = 0x0A then [0x5C, 0x6E]
  else if b = 0x0D then [0x5C, 0x72]
  else if b = 0x09 then [0x5C, 0x74]
  else escapeByte b

/-- The text between the quotes of a string, with fuel for each byte. A byte that is not UTF-8 is
written as the escape of U+FFFD. -/
def escapeFrom : ℕ → List UInt8 → List UInt8
  | 0, _ | _, [] => []
  | fuel + 1, b :: bs =>
    if b < 0x80 then escapeAscii b ++ escapeFrom fuel bs
    else
      let (r, width) := Utf8.decodeRune (b :: bs)
      (if r = Utf8.runeError ∧ width = 1 then [0x5C, 0x75, 0x66, 0x66, 0x66, 0x64]
        else if r = 0x2028 ∨ r = 0x2029 then escapeSeparator r
        else (b :: bs).take width) ++ escapeFrom fuel ((b :: bs).drop width)

/-- `appendString`. -/
def marshalString (s : List UInt8) : List UInt8 := 0x22 :: (escapeFrom s.length s ++ [0x22])

/-! ## The text of a string -/

/-- The text between the quotes of a string, and its pieces. -/
inductive StringText : List UInt8 → List (UInt8 ⊕ ℕ) → Prop
  | nil : StringText [] []
  | plain {b : UInt8} {t : List UInt8} {ps : List (UInt8 ⊕ ℕ)} : b ≠ 0x22 → b ≠ 0x5C → ¬b < 0x20 →
      StringText t ps → StringText (b :: t) (.inl b :: ps)
  | short {e c : UInt8} {t : List UInt8} {ps : List (UInt8 ⊕ ℕ)} : escaped e = some c →
      StringText t ps → StringText (0x5C :: e :: t) (.inl c :: ps)
  | unicode {h₁ h₂ h₃ h₄ : UInt8} {u : ℕ} {t : List UInt8} {ps : List (UInt8 ⊕ ℕ)} :
      hex4 h₁ h₂ h₃ h₄ = some u → StringText t ps →
      StringText (0x5C :: 0x75 :: h₁ :: h₂ :: h₃ :: h₄ :: t) (.inr u :: ps)

lemma StringText.append {t t' : List UInt8} {ps ps' : List (UInt8 ⊕ ℕ)} (h : StringText t ps)
    (h' : StringText t' ps') : StringText (t ++ t') (ps ++ ps') := by
  induction h with
  | nil => exact h'
  | plain hquote hslash hcontrol _ ih => exact .plain hquote hslash hcontrol ih
  | short hescaped _ ih => exact .short hescaped ih
  | unicode hhex _ ih => exact .unicode hhex ih

lemma escaped_ne {e c : UInt8} (h : escaped e = some c) : e ≠ 0x75 := by
  rintro rfl
  simp [escaped] at h

/-- **The text of a string is scanned into its pieces.** -/
lemma StringText.scan {t : List UInt8} {ps : List (UInt8 ⊕ ℕ)} (h : StringText t ps)
    (rest : List UInt8) : scanString 0 (t ++ 0x22 :: rest) = some (ps, rest) := by
  induction h with
  | nil => simp [scanString, stringPiece]
  | plain hquote hslash hcontrol _ ih =>
    simp [scanString, stringPiece, hquote, hslash, hcontrol, ih]
  | short hescaped _ ih =>
    simp [scanString, stringPiece, escaped_ne hescaped, hescaped, ih]
  | unicode hhex _ ih => simp [scanString, stringPiece, hhex, ih]

lemma StringText.parse {t : List UInt8} {ps : List (UInt8 ⊕ ℕ)} (h : StringText t ps)
    (rest : List UInt8) :
    parseString (t ++ 0x22 :: rest) = some (Utf8.runes (unescape ps), rest) := by
  rw [parseString, h.scan, Option.map_some]

/-- **What is scanned is the text of a string.** -/
lemma exists_stringText {s rest : List UInt8} {ps : List (UInt8 ⊕ ℕ)}
    (h : scanString 0 s = some (ps, rest)) : ∃ t, s = t ++ 0x22 :: rest ∧ StringText t ps := by
  induction hn : s.length using Nat.strong_induction_on generalizing s ps with
  | _ n ih =>
    cases s with
    | nil => cases h
    | cons b bs =>
      obtain ⟨⟨piece, skip⟩, hpiece, hrest⟩ := Option.bind_eq_some_iff.mp h
      rw [stringPiece.eq_def] at hpiece
      simp only at hpiece
      split_ifs at hpiece with hquote hslash hcontrol
      · obtain ⟨rfl, rfl⟩ := Prod.mk.inj (Option.some.inj hpiece)
        obtain ⟨rfl, rfl⟩ := Prod.mk.inj (Option.some.inj hrest)
        exact ⟨[], by rw [hquote]; rfl, .nil⟩
      · subst hslash
        split at hpiece
        · cases hpiece
        · next h₁ h₂ h₃ h₄ s' =>
          obtain ⟨u, hhex, hpiece⟩ := Option.map_eq_some_iff.mp hpiece
          obtain ⟨rfl, rfl⟩ := Prod.mk.inj hpiece
          obtain ⟨r, hscan, heq⟩ := Option.map_eq_some_iff.mp hrest
          obtain ⟨rfl, rfl⟩ := Prod.mk.inj heq
          obtain ⟨t, rfl, htext⟩ := ih s'.length (by simp at hn; omega) hscan rfl
          exact ⟨_, rfl, .unicode hhex htext⟩
        · next e s' _ =>
          obtain ⟨c, hescaped, hpiece⟩ := Option.map_eq_some_iff.mp hpiece
          obtain ⟨rfl, rfl⟩ := Prod.mk.inj hpiece
          obtain ⟨r, hscan, heq⟩ := Option.map_eq_some_iff.mp hrest
          obtain ⟨rfl, rfl⟩ := Prod.mk.inj heq
          obtain ⟨t, rfl, htext⟩ := ih s'.length (by simp at hn; omega) hscan rfl
          exact ⟨_, rfl, .short hescaped htext⟩
      · obtain ⟨rfl, rfl⟩ := Prod.mk.inj (Option.some.inj hpiece)
        obtain ⟨r, hscan, heq⟩ := Option.map_eq_some_iff.mp hrest
        obtain ⟨rfl, rfl⟩ := Prod.mk.inj heq
        obtain ⟨t, rfl, htext⟩ := ih bs.length (by simp at hn; omega) hscan rfl
        exact ⟨_, rfl, .plain hquote hslash hcontrol htext⟩

/-! ## The content of a string -/

/-- The piece is no half of a rune. -/
def Separable : UInt8 ⊕ ℕ → Prop
  | .inl _ => True
  | .inr u => ¬(0xD800 ≤ u ∧ u < 0xE000)

lemma unescape_cons {p : UInt8 ⊕ ℕ} (hp : Separable p) (ps : List (UInt8 ⊕ ℕ)) :
    unescape (p :: ps) = unescape [p] ++ unescape ps := by
  cases p with
  | inl b => rfl
  | inr u =>
    have hu : ¬(0xD800 ≤ u ∧ u < 0xE000) := hp
    cases ps with
    | nil => simp [unescape]
    | cons q ps =>
      cases q with
      | inl b => simp [unescape]
      | inr v =>
        have hpair : ¬(0xD800 ≤ u ∧ u < 0xDC00 ∧ 0xDC00 ≤ v ∧ v < 0xE000) := by omega
        rw [unescape, if_neg hpair]
        simp [unescape]

/-- A piece that is no half of a rune stands for itself, whatever is around it. -/
lemma unescape_append_cons {p : UInt8 ⊕ ℕ} (hp : Separable p) (pre ps : List (UInt8 ⊕ ℕ)) :
    unescape (pre ++ p :: ps) = unescape pre ++ (unescape [p] ++ unescape ps) := by
  induction pre using unescape.induct with
  | case1 => exact unescape_cons hp ps
  | case2 b pre ih => rw [List.cons_append, unescape, ih, unescape, List.cons_append]
  | case3 u v pre hpair ih =>
    rw [List.cons_append, List.cons_append, unescape, if_pos hpair, ih, unescape, if_pos hpair,
      List.append_assoc]
  | case4 u v pre hpair ih =>
    rw [List.cons_append] at ih
    rw [List.cons_append, List.cons_append, unescape, if_neg hpair, ih, unescape, if_neg hpair,
      List.append_assoc]
  | case5 u pre hpre ih =>
    have hself : ∀ q, (∀ v qs, q ≠ .inr v :: qs) → unescape (.inr u :: q) =
        Utf8.encodeRune u ++ unescape q := by
      intro q hq
      cases q with
      | nil => rfl
      | cons q qs =>
        cases q with
        | inl b => rfl
        | inr v => exact absurd rfl (hq v qs)
    rw [hself pre fun v qs hqs => hpre v qs hqs, List.append_assoc, ← ih]
    cases pre with
    | cons q qs => exact hself _ fun v qs' heq => hpre v qs (by injection heq with hq; rw [hq])
    | nil =>
      cases p with
      | inl b => exact hself _ fun v qs heq => by injection heq with hq; cases hq
      | inr w =>
        have hw : ¬(0xD800 ≤ w ∧ w < 0xE000) := hp
        have hpair : ¬(0xD800 ≤ u ∧ u < 0xDC00 ∧ 0xDC00 ≤ w ∧ w < 0xE000) := by omega
        rw [List.singleton_append, unescape, if_neg hpair]
        rfl

lemma unescape_append {ps : List (UInt8 ⊕ ℕ)} (h : ∀ p ∈ ps, Separable p)
    (qs : List (UInt8 ⊕ ℕ)) : unescape (ps ++ qs) = unescape ps ++ unescape qs := by
  induction ps with
  | nil => rfl
  | cons p ps ih =>
    have hp := h p List.mem_cons_self
    rw [List.cons_append, unescape_cons hp, ih fun q hq => h q (List.mem_cons_of_mem p hq),
      unescape_cons hp ps, List.append_assoc]

/-- The text of a string whose content is `bs`. -/
def StringOf (t bs : List UInt8) : Prop :=
  ∃ ps, StringText t ps ∧ (∀ p ∈ ps, Separable p) ∧ unescape ps = bs

lemma StringOf.append {t t' bs bs' : List UInt8} (h : StringOf t bs) (h' : StringOf t' bs') :
    StringOf (t ++ t') (bs ++ bs') := by
  obtain ⟨ps, htext, hps, rfl⟩ := h
  obtain ⟨ps', htext', hps', rfl⟩ := h'
  refine ⟨ps ++ ps', htext.append htext', fun p hp => ?_, unescape_append hps ps'⟩
  rcases List.mem_append.mp hp with hp | hp
  · exact hps p hp
  · exact hps' p hp

lemma StringText.stringOf {t : List UInt8} {p : UInt8 ⊕ ℕ} (h : StringText t [p])
    (hp : Separable p) : StringOf t (unescape [p]) :=
  ⟨[p], h, by simpa using hp, rfl⟩

lemma hexValue_hexDigit {n : ℕ} (h : n < 16) : hexValue (hexDigit n) = some n := by
  revert n
  decide

lemma hex4_escapeByte (b : UInt8) :
    hex4 0x30 0x30 (hexDigit (b.toNat / 16)) (hexDigit (b.toNat % 16)) = some b.toNat := by
  have hlt := b.toNat_lt
  have hzero : hexValue 0x30 = some 0 := by decide
  simp only [hex4, hzero, hexValue_hexDigit (by omega : b.toNat / 16 < 16),
    hexValue_hexDigit (Nat.mod_lt b.toNat (by decide : 0 < 16)), Option.bind_eq_bind,
    Option.bind_some, Option.pure_def, Option.some.injEq]
  omega

/-- An ASCII byte as an escape. -/
lemma stringOf_escapeByte {b : UInt8} (hb : b < 0x80) : StringOf (escapeByte b) [b] := by
  have hlt := UInt8.lt_iff_toNat_lt.mp hb
  simp at hlt
  have hself : unescape [.inr b.toNat] = [b] := by
    simp [unescape, Utf8.encodeRune, hlt]
  rw [← hself]
  refine StringText.stringOf (.unicode (hex4_escapeByte b) .nil) ?_
  change ¬(0xD800 ≤ b.toNat ∧ b.toNat < 0xE000)
  omega

lemma stringOf_escapeAscii {b : UInt8} (hb : b < 0x80) : StringOf (escapeAscii b) [b] := by
  have hshort : ∀ {e c : UInt8}, escaped e = some c → StringOf [0x5C, e] [c] := fun h =>
    StringText.stringOf (.short h .nil) trivial
  unfold escapeAscii
  split_ifs with hsafe hself h₁ h₂ h₃ h₄ h₅
  · simp only [htmlSafe, Bool.and_eq_true, decide_eq_true_eq, Bool.not_eq_true',
      Bool.or_eq_false_iff, decide_eq_false_iff_not] at hsafe
    exact StringText.stringOf
      (.plain hsafe.2.1.1 hsafe.2.1.2 (UInt8.not_lt.mpr hsafe.1) .nil) trivial
  · refine hshort ?_
    rcases hself with rfl | rfl <;> decide
  · exact h₁ ▸ hshort (by decide)
  · exact h₂ ▸ hshort (by decide)
  · exact h₃ ▸ hshort (by decide)
  · exact h₄ ▸ hshort (by decide)
  · exact h₅ ▸ hshort (by decide)
  · exact stringOf_escapeByte hb

lemma stringOf_escapeSeparator {r : ℕ} (h : r = 0x2028 ∨ r = 0x2029) :
    StringOf (escapeSeparator r) (Utf8.encodeRune r) := by
  have hself : unescape [.inr r] = Utf8.encodeRune r := by simp [unescape]
  rw [← hself]
  refine StringText.stringOf (.unicode ?_ .nil) ?_
  · rcases h with rfl | rfl <;> decide
  · change ¬(0xD800 ≤ r ∧ r < 0xE000)
    omega

/-- Bytes that are not ASCII stand for themselves. -/
lemma stringOf_self {bs : List UInt8} (h : ∀ b ∈ bs, 0x80 ≤ b) : StringOf bs bs := by
  induction bs with
  | nil => exact ⟨[], .nil, by simp, rfl⟩
  | cons b bs ih =>
    have hb := UInt8.le_iff_toNat_le.mp (h b List.mem_cons_self)
    simp at hb
    have hplain : b ≠ 0x22 ∧ b ≠ 0x5C ∧ ¬b < 0x20 := by
      simp only [ne_eq, ← UInt8.toNat_inj, UInt8.lt_iff_toNat_lt]
      simp
      omega
    have hone : StringOf [b] [b] :=
      StringText.stringOf (.plain hplain.1 hplain.2.1 hplain.2.2 .nil) trivial
    exact hone.append (ih fun c hc => h c (List.mem_cons_of_mem b hc))

/-! ## Strings are written -/

/-- A rune between the quotes of a string. -/
def escapeRune (r : ℕ) : List UInt8 :=
  if r < 0x80 then escapeAscii r.toUInt8
  else if r = 0x2028 ∨ r = 0x2029 then escapeSeparator r
  else Utf8.encodeRune r

/-- A string that is UTF-8 is written rune by rune. -/
lemma escapeFrom_encode {rs : List ℕ} (hrs : ∀ r ∈ rs, Utf8.Scalar r) {n : ℕ}
    (hn : (Utf8.encode rs).length ≤ n) :
    escapeFrom n (Utf8.encode rs) = rs.flatMap escapeRune := by
  induction rs generalizing n with
  | nil => cases n <;> rfl
  | cons r rs ih =>
    have hr := hrs r List.mem_cons_self
    have hrs' : ∀ s ∈ rs, Utf8.Scalar s := fun s hs => hrs s (List.mem_cons_of_mem r hs)
    have hcons : Utf8.encode (r :: rs) = Utf8.encodeRune r ++ Utf8.encode rs := List.flatMap_cons
    have hdecode := Utf8.decodeRune_encodeRune hr (Utf8.encode rs)
    rw [hcons, List.length_append] at hn
    rw [hcons, List.flatMap_cons, escapeRune]
    by_cases hascii : r < 0x80
    · have hbytes : Utf8.encodeRune r = [r.toUInt8] := by rw [Utf8.encodeRune, if_pos hascii]
      have hb : r.toUInt8 < 0x80 := by
        rw [UInt8.lt_iff_toNat_lt, Utf8.toNat_toUInt8 (by omega)]
        exact hascii
      rw [hbytes, List.length_singleton] at hn
      obtain ⟨m, rfl⟩ : ∃ m, n = m + 1 := ⟨n - 1, by omega⟩
      rw [hbytes, List.singleton_append, escapeFrom, if_pos hb, if_pos hascii, ih hrs' (by omega)]
    · obtain ⟨hlength, hhigh⟩ := Utf8.encodeRune_of_le (not_lt.mp hascii)
      obtain ⟨m, rfl⟩ : ∃ m, n = m + 1 := ⟨n - 1, by omega⟩
      rw [if_neg hascii]
      cases hbytes : Utf8.encodeRune r with
      | nil => exact absurd hbytes (Utf8.encodeRune_ne_nil r)
      | cons b bs =>
        rw [hbytes] at hlength hhigh hdecode hn
        have hb : ¬b < 0x80 := UInt8.not_lt.mpr (hhigh b List.mem_cons_self)
        have hwide : ¬(r = Utf8.runeError ∧ (b :: bs).length = 1) := by omega
        rw [List.cons_append] at hdecode
        rw [List.cons_append, escapeFrom, if_neg hb, hdecode]
        simp only
        rw [if_neg hwide, ← List.cons_append, List.drop_left, List.take_left, ih hrs' (by omega)]

lemma stringOf_escapeRune {r : ℕ} : StringOf (escapeRune r) (Utf8.encodeRune r) := by
  unfold escapeRune
  split_ifs with hascii hseparator
  · have hb : r.toUInt8 < 0x80 := by
      rw [UInt8.lt_iff_toNat_lt, Utf8.toNat_toUInt8 (by omega)]
      exact hascii
    rw [Utf8.encodeRune, if_pos hascii]
    exact stringOf_escapeAscii hb
  · exact stringOf_escapeSeparator hseparator
  · exact stringOf_self (Utf8.encodeRune_of_le (not_lt.mp hascii)).2

/-- **What stands between the quotes is the string.** -/
lemma stringOf_escapeFrom {rs : List ℕ} (hrs : ∀ r ∈ rs, Utf8.Scalar r) {n : ℕ}
    (hn : (Utf8.encode rs).length ≤ n) :
    StringOf (escapeFrom n (Utf8.encode rs)) (Utf8.encode rs) := by
  rw [escapeFrom_encode hrs hn]
  clear hrs hn
  induction rs with
  | nil => exact ⟨[], .nil, by simp, rfl⟩
  | cons r rs ih => exact stringOf_escapeRune.append ih

lemma ascii_escapeByte (b : UInt8) : Utf8.Ascii (escapeByte b) := by
  have hlt := b.toNat_lt
  have hdigit : ∀ n < 16, hexDigit n < 0x80 := by decide
  simp [Utf8.Ascii, escapeByte, hdigit _ (by omega : b.toNat / 16 < 16),
    hdigit _ (Nat.mod_lt b.toNat (by decide : 0 < 16))]

lemma ascii_escapeSeparator (r : ℕ) : Utf8.Ascii (escapeSeparator r) := by
  have hdigit : ∀ n < 16, hexDigit n < 0x80 := by decide
  simp [Utf8.Ascii, escapeSeparator, hdigit _ (Nat.mod_lt r (by decide : 0 < 16))]

lemma ascii_escapeAscii {b : UInt8} (hb : b < 0x80) : Utf8.Ascii (escapeAscii b) := by
  unfold escapeAscii
  split_ifs
  · simpa [Utf8.Ascii] using hb
  · simpa [Utf8.Ascii] using hb
  all_goals first | exact ascii_escapeByte b | simp [Utf8.Ascii]

lemma valid_escapeRune {r : ℕ} (hr : Utf8.Scalar r) : Utf8.valid (escapeRune r) = true := by
  unfold escapeRune
  split_ifs with hascii hseparator
  · refine Utf8.valid_of_ascii (ascii_escapeAscii ?_)
    rw [UInt8.lt_iff_toNat_lt, Utf8.toNat_toUInt8 (by omega)]
    exact hascii
  · exact Utf8.valid_of_ascii (ascii_escapeSeparator r)
  · exact Utf8.valid_iff.mpr ⟨[r], by simpa using hr, by simp [Utf8.encode]⟩

/-- A string is written in UTF-8. -/
lemma valid_marshalString {s : List UInt8} (hs : Utf8.valid s = true) :
    Utf8.valid (marshalString s) = true := by
  obtain ⟨rs, hrs, rfl⟩ := Utf8.valid_iff.mp hs
  have hquote : Utf8.valid [0x22] = true := by decide
  have hcontent : Utf8.valid (rs.flatMap escapeRune) = true := by
    clear hs
    induction rs with
    | nil => decide
    | cons r rs ih =>
      exact Utf8.valid_append (valid_escapeRune (hrs r List.mem_cons_self))
        (ih fun q hq => hrs q (List.mem_cons_of_mem r hq))
  rw [marshalString, escapeFrom_encode hrs le_rfl]
  exact Utf8.valid_append hquote (Utf8.valid_append hcontent hquote)

end JsonDoc
