import Idemio.Base.JsonCompact

set_option relaxedAutoImplicit false
set_option autoImplicit false

/-!
# JSON documents as they are written

How `encoding/json` of Go writes an object whose values are strings and documents that were written
by someone else.

## Main definitions

* `JsonDoc.marshalObject` — an object.
* `JsonDoc.Writes` — the text is one of a value, wherever it stands.

## Main results

* `JsonDoc.writes_marshalString` — a string is written.
* `JsonDoc.writes_compact` — a document without its space is written, and denotes what it did.
* `JsonDoc.writes_marshalObject` — an object is written if its members are.
* `JsonDoc.valid_compact` — the space is left out of UTF-8 and UTF-8 remains.
-/

namespace JsonDoc

/-- The members of an object with commas between them. -/
def marshalMembers : List (List UInt8 × List UInt8) → List UInt8
  | [] => []
  | [(name, text)] => marshalString name ++ 0x3A :: text
  | (name, text) :: ms => marshalString name ++ 0x3A :: (text ++ 0x2C :: marshalMembers ms)

/-- An object, from the names of its members and the texts of their values. -/
def marshalObject (ms : List (List UInt8 × List UInt8)) : List UInt8 :=
  0x7B :: (marshalMembers ms ++ [0x7D])

/-! ## What is written -/

/-- The text is one of a value that denotes `m`, wherever it stands. -/
def Writes (depth : ℕ) (text : List UInt8) (m : Meaning) : Prop :=
  ∃ b c, text = b :: c ∧ isSpace b = false ∧
    ∀ tail, Delimits tail → ∃ v, parseValue depth (text ++ tail) = some (v, tail) ∧ denote v = m

lemma delimits_nil : Delimits [] := fun _ hb => by cases hb

/-- What is written can be read. -/
lemma Writes.denotes {depth : ℕ} {text : List UInt8} {m : Meaning} (h : Writes depth text m) :
    Denotes text m := by
  obtain ⟨b, c, rfl, hspace, hread⟩ := h
  obtain ⟨v, hv, hm⟩ := hread [] delimits_nil
  rw [List.append_nil] at hv
  exact ⟨depth, v, [], by rw [parse, skipSpace_cons hspace, hv], rfl, hm⟩

lemma parseValue_quote (depth : ℕ) (s : List UInt8) :
    parseValue depth (0x22 :: s) = (parseString s).map fun r => (.string r.1, r.2) := by
  cases depth <;> simp [parseValue, parseScalar]

lemma parseString_escapeFrom {s : List UInt8} (hs : Utf8.valid s = true) (tail : List UInt8) :
    parseString (escapeFrom s.length s ++ 0x22 :: tail) = some (Utf8.runes s, tail) := by
  obtain ⟨rs, hrs, rfl⟩ := Utf8.valid_iff.mp hs
  obtain ⟨ps, htext, -, hps⟩ := stringOf_escapeFrom hrs (le_refl _)
  rw [htext.parse, hps]

/-- **A string is written.** -/
lemma writes_marshalString (depth : ℕ) {s : List UInt8} (hs : Utf8.valid s = true) :
    Writes depth (marshalString s) (.string (Utf8.runes s)) := by
  refine ⟨_, _, rfl, by decide, fun tail _ => ⟨.string (Utf8.runes s), ?_, rfl⟩⟩
  rw [marshalString, List.cons_append, parseValue_quote, List.append_assoc, List.singleton_append,
    parseString_escapeFrom hs]
  rfl

/-- **A document is written without its space.** -/
lemma writes_compact {s : List UInt8} {v : Value} (h : Unmarshal.document s = some v) :
    Writes Unmarshal.maxNestingDepth (compact .outside s) (denote v) := by
  obtain ⟨⟨v', rest⟩, hparse, hrest⟩ := Option.bind_eq_some_iff.mp h
  rw [Option.ite_none_right_eq_some] at hrest
  obtain ⟨hrest, hv⟩ := hrest
  obtain rfl := Option.some.inj hv
  obtain ⟨b, c, -, hspace, hcompact, hread⟩ := compacts_parseValue _ hparse
  have hnil : compact .outside rest = [] := by
    rw [← compact_skipSpace, hrest]
    rfl
  rw [compact_skipSpace, hnil, List.append_nil] at hcompact
  refine ⟨b, c, hcompact, hspace, fun tail htail => ?_⟩
  obtain ⟨v', hv', hsame⟩ := hread tail htail
  exact ⟨v', by rw [hcompact, List.cons_append, hv'], hsame.symm⟩

/-! ## Objects are written -/

section

variable {depth : ℕ} {name text : List UInt8} {m : Meaning}

/-- A member, and what is after it. -/
lemma exists_parseMember (hname : Utf8.valid name = true) (htext : Writes depth text m)
    {tail : List UInt8} (htail : Delimits tail) :
    ∃ v, parseMember (parseValue depth) (marshalString name ++ 0x3A :: (text ++ tail)) =
        some (v, tail) ∧
      (v.1, denote v.2.2) = (Utf8.runes name, m) := by
  obtain ⟨b, c, rfl, hspace, hread⟩ := htext
  obtain ⟨v, hv, rfl⟩ := hread tail htail
  refine ⟨_, Option.bind_eq_some_iff.mpr ⟨(Utf8.runes name, b :: c ++ tail), ?_,
    Option.map_eq_some_iff.mpr ⟨_, hv, rfl⟩⟩, rfl⟩
  rw [marshalString, List.cons_append, parseKey, if_pos rfl, List.append_assoc,
    List.singleton_append, parseString_escapeFrom hname]
  simp [skipSpace_cons (by decide : isSpace 0x3A = false), skipSpace_cons hspace]

end

/-- Members with their meanings. -/
abbrev Written := List (List UInt8 × List UInt8 × Meaning)

/-- The members as they are written. -/
def Written.texts (ms : Written) : List (List UInt8 × List UInt8) := ms.map fun m => (m.1, m.2.1)

/-- What the members denote. -/
def Written.meanings (ms : Written) : List (List ℕ × Meaning) :=
  ms.map fun m => (Utf8.runes m.1, m.2.2)

lemma exists_parseItems {depth : ℕ} {ms : Written} (hne : ms ≠ [])
    (hms : ∀ m ∈ ms, Utf8.valid m.1 = true ∧ Writes depth m.2.1 m.2.2) (tail : List UInt8) :
    ∃ vs, parseItems (parseMember (parseValue depth)) 0x7D ms.length
        (marshalMembers ms.texts ++ 0x7D :: tail) = some (vs, tail) ∧
      denoteMembers vs = ms.meanings := by
  induction ms with
  | nil => exact absurd rfl hne
  | cons m ms ih =>
    obtain ⟨hname, htext⟩ := hms m List.mem_cons_self
    cases ms with
    | nil =>
      obtain ⟨v, hv, hm⟩ := exists_parseMember hname htext (Closes.delimits (.inr rfl) tail)
      refine ⟨[v], ?_, congrArg (fun x => [x]) hm⟩
      have hassoc : marshalMembers (Written.texts [m]) ++ 0x7D :: tail =
          marshalString m.1 ++ 0x3A :: (m.2.1 ++ 0x7D :: tail) := by
        simp [Written.texts, marshalMembers]
      rw [hassoc, List.length_singleton, parseItems, hv, Option.bind_some]
      simp [parseNext, skipSpace_cons (by decide : isSpace 0x7D = false)]
    | cons m' ms =>
      obtain ⟨vs, hvs, hmeanings⟩ := ih (by simp) fun n hn => hms n (List.mem_cons_of_mem m hn)
      obtain ⟨v, hv, hm⟩ := exists_parseMember hname htext (delimits_comma
        (marshalMembers (Written.texts (m' :: ms)) ++ 0x7D :: tail))
      refine ⟨v :: vs, ?_, congrArg₂ List.cons hm hmeanings⟩
      have hassoc : marshalMembers (Written.texts (m :: m' :: ms)) ++ 0x7D :: tail =
          marshalString m.1 ++ 0x3A :: (m.2.1 ++
            0x2C :: (marshalMembers (Written.texts (m' :: ms)) ++ 0x7D :: tail)) := by
        simp [Written.texts, marshalMembers]
      have hskip : skipSpace (marshalMembers (Written.texts (m' :: ms)) ++ 0x7D :: tail) =
          marshalMembers (Written.texts (m' :: ms)) ++ 0x7D :: tail := by
        cases ms <;> exact skipSpace_cons (by decide) _
      rw [hassoc, List.length_cons, parseItems, hv, Option.bind_some]
      simpa [parseNext, skipSpace_cons (by decide : isSpace 0x2C = false), hskip] using hvs

/-- **An object is written** if its members are. -/
theorem writes_marshalObject {depth : ℕ} {ms : Written}
    (hms : ∀ m ∈ ms, Utf8.valid m.1 = true ∧ Writes depth m.2.1 m.2.2) :
    Writes (depth + 1) (marshalObject ms.texts) (.object (sortMembers ms.meanings)) := by
  refine ⟨_, _, rfl, by decide, fun tail _ => ?_⟩
  have hvalue : ∀ {s : List UInt8} {vs : List (List ℕ × List UInt8 × Value)},
      parseBracket (parseMember (parseValue depth)) 0x7D s = some (vs, tail) →
      parseValue (depth + 1) (0x7B :: s) = some (.object vs, tail) := by
    intro s vs hvs
    rw [parseValue, if_neg (by decide), if_pos rfl, hvs, Option.map_some]
  rw [marshalObject, List.cons_append, List.append_assoc, List.singleton_append]
  cases hcases : ms with
  | nil =>
    refine ⟨.object [], hvalue ?_, rfl⟩
    simp [Written.texts, marshalMembers, parseBracket, parseOpen,
      skipSpace_cons (by decide : isSpace 0x7D = false)]
  | cons m ms' =>
    have hne : ms ≠ [] := by simp [hcases]
    obtain ⟨vs, hvs, hmeanings⟩ := exists_parseItems hne hms tail
    rw [← hcases]
    refine ⟨.object vs, hvalue ?_, by rw [denote, hmeanings]⟩
    obtain ⟨c, hquote⟩ : ∃ c, marshalMembers ms.texts ++ 0x7D :: tail = 0x22 :: c := by
      rw [hcases]
      cases ms' <;> exact ⟨_, rfl⟩
    rw [hquote] at hvs ⊢
    rw [parseBracket, parseOpen, skipSpace_cons (by decide)]
    exact parseItems_of_fuel (consumes_parseValue depth).parseMember hvs le_rfl

/-! ## What is written is UTF-8 -/

lemma isSeparator_encodeRune {r : ℕ} (hr : Utf8.Scalar r) (hr' : ¬(r = 0x2028 ∨ r = 0x2029))
    (rest : List UInt8) : isSeparator (Utf8.encodeRune r ++ rest) = false := by
  by_contra hseparator
  rw [Bool.not_eq_false] at hseparator
  have hdecode := Utf8.decodeRune_encodeRune hr rest
  cases hs : Utf8.encodeRune r ++ rest with
  | nil => simp [hs, isSeparator] at hseparator
  | cons b s =>
    rw [hs] at hseparator hdecode
    obtain ⟨c, t, rfl, rfl, hc⟩ := exists_of_isSeparator hseparator
    -- the three bytes are those of a separator, and so is the rune
    have hrune : ∀ q : ℕ, Utf8.Scalar q → Utf8.encodeRune q = [0xE2, 0x80, c] → q = r := by
      intro q hq hbytes
      have := Utf8.decodeRune_encodeRune hq t
      rw [hbytes] at this
      exact (Prod.mk.inj (this.symm.trans hdecode)).1
    rcases hc with rfl | rfl
    · exact hr' (.inl (hrune 0x2028 (by unfold Utf8.Scalar; omega) (by decide)).symm)
    · exact hr' (.inr (hrune 0x2029 (by unfold Utf8.Scalar; omega) (by decide)).symm)

lemma compact_inside_tail {t : List UInt8} (ht : ∀ b ∈ t, Utf8.isTail b = true)
    (rest : List UInt8) : compact .inside (t ++ rest) = t ++ compact .inside rest := by
  induction t with
  | nil => rfl
  | cons b t ih =>
    have hb := Utf8.isTail_iff.mp (ht b List.mem_cons_self)
    have hne : ∀ c : UInt8, c.toNat < 0x80 ∨ 0xBF < c.toNat → b ≠ c := by
      rintro c hc rfl
      omega
    have hhtml : isHTML b = false := by simp [isHTML, hne]
    have hseparator : isSeparator (b :: (t ++ rest)) = false := by simp [isSeparator, hne]
    rw [List.cons_append, compact_inside_plain hhtml hseparator (hne _ (by simp)) (hne _ (by simp)),
      ih fun c hc => ht c (List.mem_cons_of_mem b hc), List.cons_append]

/-- Between the bytes of a rune no separator was escaped. -/
def Mode.Whole (mode : Mode) : Prop := mode ≠ .second ∧ mode ≠ .third

instance (mode : Mode) : Decidable mode.Whole := inferInstanceAs (Decidable (_ ∧ _))

/-- An ASCII byte is written as UTF-8, wherever it stands. -/
lemma compact_ascii {b : UInt8} (hb : b < 0x80) {mode : Mode} (hmode : mode.Whole) :
    ∃ t mode', Mode.Whole mode' ∧ Utf8.valid t = true ∧
      ∀ rest, compact mode (b :: rest) = t ++ compact mode' rest := by
  have hself : Utf8.valid [b] = true := Utf8.valid_of_ascii (by simpa [Utf8.Ascii] using hb)
  have hseparator : ∀ rest, isSeparator (b :: rest) = false := by
    intro rest
    have hne : b ≠ 0xE2 := by
      rintro rfl
      revert hb
      decide
    simp [isSeparator, hne]
  cases mode with
  | outside =>
    by_cases hspace : isSpace b = true
    · exact ⟨[], .outside, by decide, by decide, fun rest => by simp [compact, hspace]⟩
    · refine ⟨[b], if b = 0x22 then .inside else .outside, by split_ifs <;> decide, hself,
        fun rest => by simp [compact, hspace]⟩
  | inside =>
    by_cases hhtml : isHTML b = true
    · exact ⟨escapeByte b, .inside, by decide, Utf8.valid_of_ascii (ascii_escapeByte b),
        fun rest => by simp [compact, hhtml]⟩
    · refine ⟨[b], if b = 0x22 then .outside else if b = 0x5C then .escaped else .inside,
        by split_ifs <;> decide, hself, fun rest => by simp [compact, hhtml, hseparator]⟩
  | escaped => exact ⟨[b], .inside, by decide, hself, fun rest => rfl⟩
  | second => exact absurd rfl hmode.1
  | third => exact absurd rfl hmode.2

/-- Any other rune is written as UTF-8, wherever it stands. -/
lemma compact_wide {r : ℕ} (hr : Utf8.Scalar r) (hwide : 0x80 ≤ r) {mode : Mode}
    (hmode : mode.Whole) :
    ∃ t mode', Mode.Whole mode' ∧ Utf8.valid t = true ∧
      ∀ rest, compact mode (Utf8.encodeRune r ++ rest) = t ++ compact mode' rest := by
  have hself : Utf8.valid (Utf8.encodeRune r) = true :=
    Utf8.valid_iff.mpr ⟨[r], by simpa using hr, by simp [Utf8.encode]⟩
  have hhigh := (Utf8.encodeRune_of_le hwide).2
  have hne : ∀ b ∈ Utf8.encodeRune r, ∀ c : UInt8, c < 0x80 → b ≠ c := by
    rintro b hb c hc rfl
    exact absurd hc (UInt8.not_lt.mpr (hhigh b hb))
  have htail : ∀ c ∈ (Utf8.encodeRune r).tail, Utf8.isTail c = true :=
    fun c hc => Utf8.isTail_of_mem_encodeRune hc
  cases mode with
  | outside =>
    refine ⟨Utf8.encodeRune r, .outside, by decide, hself, compact_append fun b hb => ⟨?_, ?_⟩⟩
    · simp [isSpace, hne b hb]
    · exact hne b hb _ (by decide)
  | inside =>
    by_cases hseparator : r = 0x2028 ∨ r = 0x2029
    · refine ⟨escapeSeparator r, .inside, by decide,
        Utf8.valid_of_ascii (ascii_escapeSeparator r), fun rest => ?_⟩
      have hbytes : Utf8.encodeRune 0x2028 = [0xE2, 0x80, 0xA8] ∧
          Utf8.encodeRune 0x2029 = [0xE2, 0x80, 0xA9] := by decide
      rcases hseparator with rfl | rfl <;> simp [hbytes, compact, isHTML, isSeparator]
    · refine ⟨Utf8.encodeRune r, .inside, by decide, hself, fun rest => ?_⟩
      have hplain := isSeparator_encodeRune hr hseparator rest
      cases hbytes : Utf8.encodeRune r with
      | nil => rfl
      | cons b bs =>
        rw [hbytes] at hne htail hplain
        rw [List.tail_cons] at htail
        rw [List.cons_append] at hplain
        have hb := hne b List.mem_cons_self
        rw [List.cons_append, compact_inside_plain (by simp [isHTML, hb]) hplain (hb _ (by decide))
          (hb _ (by decide)), compact_inside_tail htail, List.cons_append]
  | escaped =>
    refine ⟨Utf8.encodeRune r, .inside, by decide, hself, fun rest => ?_⟩
    cases hbytes : Utf8.encodeRune r with
    | nil => exact absurd hbytes (Utf8.encodeRune_ne_nil r)
    | cons b bs =>
      rw [hbytes, List.tail_cons] at htail
      rw [List.cons_append, compact, compact_inside_tail htail, List.cons_append]
  | second => exact absurd rfl hmode.1
  | third => exact absurd rfl hmode.2

/-- **A document in UTF-8 is in UTF-8 without its space.** -/
lemma valid_compact {s : List UInt8} (hs : Utf8.valid s = true) {mode : Mode} (hmode : mode.Whole) :
    Utf8.valid (compact mode s) = true := by
  obtain ⟨rs, hrs, rfl⟩ := Utf8.valid_iff.mp hs
  clear hs
  induction rs generalizing mode with
  | nil =>
    rw [Utf8.encode, List.flatMap_nil, compact]
    decide
  | cons r rs ih =>
    have hr := hrs r List.mem_cons_self
    obtain ⟨t, mode', hmode', ht, hcompact⟩ : ∃ t mode', Mode.Whole mode' ∧ Utf8.valid t = true ∧
        ∀ rest, compact mode (Utf8.encodeRune r ++ rest) = t ++ compact mode' rest := by
      by_cases hascii : r < 0x80
      · have hb : r.toUInt8 < 0x80 := by
          rw [UInt8.lt_iff_toNat_lt, Utf8.toNat_toUInt8 (by omega)]
          exact hascii
        rw [Utf8.encodeRune, if_pos hascii]
        exact compact_ascii hb hmode
      · exact compact_wide hr (not_lt.mp hascii) hmode
    rw [Utf8.encode, List.flatMap_cons, hcompact]
    exact Utf8.valid_append ht (ih hmode' fun q hq => hrs q (List.mem_cons_of_mem r hq))

lemma valid_marshalMembers {ms : List (List UInt8 × List UInt8)}
    (h : ∀ m ∈ ms, Utf8.valid m.1 = true ∧ Utf8.valid m.2 = true) :
    Utf8.valid (marshalMembers ms) = true := by
  have hone : ∀ m ∈ ms, Utf8.valid (marshalString m.1 ++ 0x3A :: m.2) = true := fun m hm =>
    Utf8.valid_append (valid_marshalString (h m hm).1)
      (Utf8.valid_append (by decide : Utf8.valid [0x3A] = true) (h m hm).2)
  induction ms with
  | nil => decide
  | cons m ms ih =>
    cases ms with
    | nil => exact hone m List.mem_cons_self
    | cons m' ms =>
      have hrest := ih (fun n hn => h n (List.mem_cons_of_mem m hn))
        fun n hn => hone n (List.mem_cons_of_mem m hn)
      have happend := Utf8.valid_append (hone m List.mem_cons_self)
        (Utf8.valid_append (by decide : Utf8.valid [0x2C] = true) hrest)
      simpa [marshalMembers] using happend

/-- An object is written in UTF-8 if its members are. -/
lemma valid_marshalObject {ms : List (List UInt8 × List UInt8)}
    (h : ∀ m ∈ ms, Utf8.valid m.1 = true ∧ Utf8.valid m.2 = true) :
    Utf8.valid (marshalObject ms) = true :=
  Utf8.valid_append (by decide : Utf8.valid [0x7B] = true)
    (Utf8.valid_append (valid_marshalMembers h) (by decide))

end JsonDoc
