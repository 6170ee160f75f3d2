import Mathlib.Data.Set.Function
import Idemio.Base.Uuid
import Idemio.Probe

set_option relaxedAutoImplicit false
set_option autoImplicit false

/-!
# The identity of a write

The downstream call, the result object and the probe of a write name it by `correlation.ID`, a hash
of the agent and the key. The first two take the key from the `Idempotency-Key` header, in lower
case, the third one takes it from the row, where it is a `uuid` that Postgres prints.

A header is a sequence of bytes, which need not be UTF-8. `strings.ToLower` reads it rune by rune,
and so does `isUUID`, whose positions are those of bytes.

## Main definitions

* `Idemio.CaseTable` — `unicode.ToLower` above ASCII.
* `Idemio.Header.toLower`, `Idemio.Header.isUUID` — `strings.ToLower` and `isUUID` over bytes.
* `Idemio.Header.key` — the key that `handleWrite` goes on with.
* `Idemio.executeHTTP` — the request of `Execute`.

## Main results

* `Idemio.Header.isUUID_toLower_iff` — the accepted headers are the texts of UUIDs, in any case.
* `Idemio.Header.isUUID_utf8` — on UTF-8 this is what `admission` decides.
* `Idemio.one_identity` — call, object and probe agree, and no two writes share an identity.
-/

namespace Idemio

/-! ## Headers -/

/-- `unicode.ToLower` above ASCII. Of all these runes only U+0130 and U+212A have a lower case in
ASCII, `i` and `k`. -/
structure CaseTable where
  lower : ℕ → ℕ
  lower_ascii : ∀ r, 0x80 ≤ r → lower r < 0x80 → lower r = 0x69 ∨ lower r = 0x6B

/-- A byte in lower case, if it is an ASCII letter. -/
def lowerByte (b : UInt8) : UInt8 := if 0x41 ≤ b ∧ b ≤ 0x5A then b + 0x20 else b

/-- `unicode.ToLower`. -/
def CaseTable.toLower (table : CaseTable) (r : ℕ) : ℕ :=
  if r < 0x80 then (if 0x41 ≤ r ∧ r ≤ 0x5A then r + 0x20 else r) else table.lower r

namespace Header

/-- `strings.ToLower`. -/
def toLower (table : CaseTable) (bs : List UInt8) : List UInt8 :=
  if bs.all (· < 0x80) then bs.map lowerByte
  else Utf8.encode ((Utf8.runes bs).map table.toLower)

/-- A hexadecimal digit in either case. -/
def isHex (c : ℕ) : Bool :=
  (0x30 ≤ c && c ≤ 0x39) || (0x61 ≤ c && c ≤ 0x66) || (0x41 ≤ c && c ≤ 0x46)

/-- What `isUUID` checks for the rune `c` at position `i`. -/
def fits (i c : ℕ) : Bool := if i ∈ [8, 13, 18, 23] then c = 0x2D else isHex c

/-- `isUUID`. -/
def isUUID (value : List UInt8) : Bool :=
  value.length = 36 && (Utf8.runesFrom 0 0 value).all fun e => fits e.1 e.2

/-- A digit or a hyphen is ASCII, and neither `i` nor `k`. -/
lemma lt_of_fits {i c : ℕ} (h : fits i c = true) : c < 0x80 ∧ c ≠ 0x69 ∧ c ≠ 0x6B := by
  unfold fits at h
  split at h
  · have hc : c = 0x2D := of_decide_eq_true h
    omega
  · simp only [isHex, Bool.or_eq_true, Bool.and_eq_true, decide_eq_true_eq] at h
    omega

/-- All runes of what `isUUID` accepts are digits or hyphens. -/
lemma fits_of_isUUID {bs : List UInt8} (h : isUUID bs = true) :
    ∀ e ∈ Utf8.runesFrom 0 0 bs, fits e.1 e.2 = true :=
  List.all_eq_true.mp (Bool.and_eq_true_iff.mp h).2

lemma ascii_of_isUUID {bs : List UInt8} (h : isUUID bs = true) : Utf8.Ascii bs :=
  Utf8.ascii_of_runesFrom fun e he => (lt_of_fits (fits_of_isUUID h e he)).1

/-- `isUUID` of an ASCII text checks each byte at its position. -/
lemma isUUID_iff_of_ascii {bs : List UInt8} (h : Utf8.Ascii bs) :
    isUUID bs = true ↔
      bs.length = 36 ∧ ∀ (i : ℕ) (hi : i < bs.length), fits i bs[i].toNat = true := by
  rw [isUUID, Bool.and_eq_true_iff, decide_eq_true_eq, Utf8.runesFrom_ascii h, List.all_map,
    List.all_eq_true]
  refine and_congr_right fun _ => ⟨fun hall i hi => ?_, fun hall e he => ?_⟩
  · exact hall (bs[i], i) (List.mk_mem_zipIdx_iff_getElem?.mpr (List.getElem?_eq_getElem hi))
  · obtain ⟨hi, heq⟩ := List.getElem?_eq_some_iff.mp (List.mk_mem_zipIdx_iff_getElem?.mp he)
    simpa [heq] using hall e.2 hi

/-! ### Which headers are accepted -/

lemma all_lt_iff {bs : List UInt8} : bs.all (· < 0x80) = true ↔ Utf8.Ascii bs := by
  simp [Utf8.Ascii]

lemma toLower_of_ascii {table : CaseTable} {bs : List UInt8} (h : Utf8.Ascii bs) :
    toLower table bs = bs.map lowerByte := by
  rw [toLower, if_pos (all_lt_iff.mpr h)]

/-- A header is accepted only if it is ASCII: a rune above that has a lower case above it, or one
that is no digit. -/
lemma ascii_of_toLower {table : CaseTable} {bs : List UInt8}
    (h : isUUID (toLower table bs) = true) : Utf8.Ascii bs := by
  by_contra hascii
  have heq : toLower table bs = Utf8.encode ((Utf8.runes bs).map table.toLower) := by
    rw [toLower, if_neg (mt all_lt_iff.mp hascii)]
  rw [heq] at h
  obtain ⟨hlt, henc⟩ := Utf8.ascii_of_encode (ascii_of_isUUID h)
  -- some rune of the header is above ASCII
  obtain ⟨e, he, hr⟩ : ∃ e ∈ Utf8.runesFrom 0 0 bs, 0x80 ≤ e.2 := by
    by_contra hall
    exact hascii (Utf8.ascii_of_runesFrom fun e he => by
      by_contra hr
      exact hall ⟨e, he, not_lt.mp hr⟩)
  have hmem : table.toLower e.2 ∈ (Utf8.runes bs).map table.toLower :=
    List.mem_map_of_mem (List.mem_map_of_mem he)
  have hlower : table.toLower e.2 = table.lower e.2 := if_neg (not_lt.mpr hr)
  have hik := table.lower_ascii e.2 hr (hlower ▸ hlt _ hmem)
  -- its lower case is a byte of what was accepted
  obtain ⟨i, hi, hget⟩ := List.getElem_of_mem (henc ▸ List.mem_map_of_mem hmem :
    (table.toLower e.2).toUInt8 ∈ Utf8.encode ((Utf8.runes bs).map table.toLower))
  have hfits := ((isUUID_iff_of_ascii (ascii_of_isUUID h)).mp h).2 i hi
  rw [hget, hlower] at hfits
  obtain ⟨-, hi, hk⟩ := lt_of_fits hfits
  rcases hik with hik | hik
  · exact hi (by rw [hik]; rfl)
  · exact hk (by rw [hik]; rfl)

lemma layout_getElem {i : ℕ} (hi : i < (Uuid.layout 16).length) :
    (Uuid.layout 16)[i] = decide (i ∈ [8, 13, 18, 23]) := by
  have hall : ∀ j : Fin 36, (Uuid.layout 16)[j.val]? = some (decide (j.val ∈ [8, 13, 18, 23])) := by
    decide
  exact Option.some.inj ((List.getElem?_eq_getElem hi).symm.trans (hall ⟨i, hi⟩))

lemma isHex_lowerByte (b : UInt8) :
    isHex (lowerByte b).toNat = true ↔ ∃ d < 16, lowerByte b = Uuid.hexByte d := by
  obtain ⟨⟨b⟩⟩ := b
  revert b
  decide +kernel

/-- In lower case the check of a byte is that of the layout. -/
lemma fits_lowerByte (i : ℕ) (b : UInt8) :
    fits i (lowerByte b).toNat = true ↔
      Uuid.Fits (decide (i ∈ [8, 13, 18, 23])) (lowerByte b) := by
  unfold fits Uuid.Fits
  by_cases hi : i ∈ [8, 13, 18, 23]
  · simp only [hi, if_true, decide_true, decide_eq_true_eq]
    exact (UInt8.toNat_inj (b := 0x2D))
  · simp only [hi, if_false, decide_false, Bool.false_eq_true]
    exact isHex_lowerByte b

lemma ascii_of_hasLayout {bs : List UInt8} (h : Uuid.HasLayout bs) : Utf8.Ascii bs := by
  intro b hb
  obtain ⟨i, hi, rfl⟩ := List.getElem_of_mem hb
  have hfits := (List.forall₂_iff_get.mp h).2 i (h.length_eq ▸ hi : i < 36) hi
  simp only [Uuid.Fits] at hfits
  split at hfits
  · rw [show bs[i] = 0x2D from hfits]
    decide
  · obtain ⟨d, hd, heq⟩ := hfits
    rw [show bs[i] = Uuid.hexByte d from heq]
    interval_cases d <;> decide

lemma lt_of_lowerByte_lt {b : UInt8} (h : lowerByte b < 0x80) : b < 0x80 := by
  obtain ⟨⟨b⟩⟩ := b
  revert b
  decide +kernel

lemma lowerByte_lt {b : UInt8} (h : b < 0x80) : lowerByte b < 0x80 := by
  obtain ⟨⟨b⟩⟩ := b
  revert b
  decide +kernel

lemma isUUID_map_lowerByte_iff {bs : List UInt8} (h : Utf8.Ascii bs) :
    isUUID (bs.map lowerByte) = true ↔ Uuid.HasLayout (bs.map lowerByte) := by
  have hascii : Utf8.Ascii (bs.map lowerByte) := by
    intro b hb
    obtain ⟨c, hc, rfl⟩ := List.mem_map.mp hb
    exact lowerByte_lt (h c hc)
  rw [isUUID_iff_of_ascii hascii, Uuid.HasLayout, List.forall₂_iff_get, eq_comm]
  refine and_congr_right fun hlength => ⟨fun hall i h₁ h₂ => ?_, fun hall i hi => ?_⟩
  · have hfits := hall i h₂
    rw [List.getElem_map] at hfits
    simpa [layout_getElem] using (fits_lowerByte i _).mp hfits
  · have hfits := hall i (hlength ▸ hi : i < 36) hi
    rw [List.getElem_map]
    refine (fits_lowerByte i _).mpr ?_
    simpa [layout_getElem] using hfits

/-- **The accepted headers** are the texts of UUIDs, in any case. -/
theorem isUUID_toLower_iff {table : CaseTable} {bs : List UInt8} :
    isUUID (toLower table bs) = true ↔ Uuid.HasLayout (bs.map lowerByte) := by
  constructor
  · intro h
    have hascii := ascii_of_toLower h
    rw [toLower_of_ascii hascii] at h
    exact (isUUID_map_lowerByte_iff hascii).mp h
  · intro h
    have hascii : Utf8.Ascii bs := fun b hb =>
      lt_of_lowerByte_lt (ascii_of_hasLayout h _ (List.mem_map_of_mem hb))
    rw [toLower_of_ascii hascii]
    exact (isUUID_map_lowerByte_iff hascii).mpr h

end Header

/-! ## Texts as bytes -/

/-- A text is known by its bytes. -/
lemma utf8_inj {s t : String} : utf8 s = utf8 t ↔ s = t := by
  rw [← String.toByteArray_inj, ← String.utf8Encode_toList, ← String.utf8Encode_toList]
  exact List.toByteArray_inj.symm

lemma utf8_append (s t : String) : utf8 (s ++ t) = utf8 s ++ utf8 t := by
  simp [utf8]

lemma length_utf8 (s : String) : (utf8 s).length = s.utf8ByteSize := by
  rw [← String.size_toByteArray, ← String.utf8Encode_toList]
  exact List.size_toByteArray.symm

/-- The bytes of a character are ASCII only if it is, and then it is a byte of its own. -/
lemma utf8EncodeChar_of_lt {c : Char} (h : c.toNat < 0x80) :
    String.utf8EncodeChar c = [c.toNat.toUInt8] :=
  if_pos (Nat.le_of_lt_succ h)

lemma lt_of_utf8EncodeChar {c : Char} (h : Utf8.Ascii (String.utf8EncodeChar c)) :
    c.toNat < 0x80 := by
  by_contra hc
  have hc : ¬ c.val.toNat ≤ 127 := fun hle => hc (Nat.lt_succ_of_le hle)
  have hlead {n : ℕ} {bs : List UInt8} (hn : 128 ≤ n ∧ n < 256)
      (hascii : Utf8.Ascii (UInt8.ofNat n :: bs)) : False := by
    have hlt := UInt8.lt_iff_toNat_lt.mp (hascii (UInt8.ofNat n) List.mem_cons_self)
    simp at hlt
    omega
  unfold String.utf8EncodeChar at h
  dsimp only at h
  rw [if_neg hc] at h
  repeat' split at h
  · exact hlead (by omega) h
  · exact hlead (by omega) h
  · exact hlead (by omega) h

lemma ascii_utf8_iff {s : String} : Utf8.Ascii (utf8 s) ↔ ∀ c ∈ s.toList, c.toNat < 0x80 := by
  constructor
  · intro h c hc
    exact lt_of_utf8EncodeChar fun b hb => h b (List.mem_flatMap.mpr ⟨c, hc, hb⟩)
  · intro h b hb
    obtain ⟨c, hc, hb⟩ := List.mem_flatMap.mp hb
    have hlt := h c hc
    rw [utf8EncodeChar_of_lt hlt, List.mem_singleton] at hb
    rw [hb, UInt8.lt_iff_toNat_lt]
    simp
    omega

lemma utf8_of_ascii {s : String} (h : ∀ c ∈ s.toList, c.toNat < 0x80) :
    utf8 s = s.toList.map fun c => c.toNat.toUInt8 := by
  rw [utf8, List.map_eq_flatMap]
  exact List.flatMap_congr fun c hc => utf8EncodeChar_of_lt (h c hc)

/-- The bytes of a character are those of its rune. -/
lemma utf8EncodeChar_eq (c : Char) : String.utf8EncodeChar c = Utf8.encodeRune c.toNat := by
  obtain ⟨v, hv⟩ : ∃ v, c.val.toNat = v := ⟨_, rfl⟩
  have hvalid : ¬((0xD800 ≤ v ∧ v < 0xE000) ∨ 0x110000 ≤ v) := by
    have hchar := c.valid
    simp only [UInt32.isValidChar, Nat.isValidChar, hv] at hchar
    omega
  have hbyte : ∀ {m n : ℕ}, m = n → UInt8.ofNat m = UInt8.ofNat n := fun h => congrArg _ h
  rw [Char.toNat, Utf8.encodeRune, String.utf8EncodeChar]
  simp only [hv, if_neg hvalid, Nat.toUInt8_eq]
  by_cases hone : v < 0x80
  · rw [if_pos (by omega), if_pos hone]
  by_cases htwo : v < 0x800
  · rw [if_neg (by omega), if_pos (by omega), if_neg hone, if_pos htwo]
    simp only [List.cons.injEq, and_true]
    exact ⟨hbyte (by omega), hbyte (by omega)⟩
  by_cases hthree : v < 0x10000
  · rw [if_neg (by omega), if_neg (by omega), if_pos (by omega), if_neg hone, if_neg htwo,
      if_pos hthree]
    simp only [List.cons.injEq, and_true]
    exact ⟨hbyte (by omega), hbyte (by omega), hbyte (by omega)⟩
  · rw [if_neg (by omega), if_neg (by omega), if_neg (by omega), if_neg hone, if_neg htwo,
      if_neg hthree]
    simp only [List.cons.injEq, and_true]
    exact ⟨hbyte (by omega), hbyte (by omega), hbyte (by omega), hbyte (by omega)⟩

lemma scalar_toNat (c : Char) : Utf8.Scalar c.toNat := by
  have hchar := c.valid
  simp only [UInt32.isValidChar, Nat.isValidChar] at hchar
  change c.val.toNat < 0x110000 ∧ ¬(0xD800 ≤ c.val.toNat ∧ c.val.toNat < 0xE000)
  omega

/-- A text is UTF-8. -/
lemma valid_utf8 (s : String) : Utf8.valid (utf8 s) = true := by
  refine Utf8.valid_iff.mpr ⟨s.toList.map Char.toNat, fun r hr => ?_, ?_⟩
  · obtain ⟨c, -, rfl⟩ := List.mem_map.mp hr
    exact scalar_toNat c
  · rw [utf8, Utf8.encode, List.flatMap_map]
    exact List.flatMap_congr fun c _ => utf8EncodeChar_eq c
/-- The text whose bytes are these, if they are ASCII. -/
def asciiText (bs : List UInt8) : String := String.ofList (bs.map fun b => Char.ofNat b.toNat)

lemma toNat_ofNat_of_lt {b : UInt8} (h : b < 0x80) : (Char.ofNat b.toNat).toNat = b.toNat := by
  obtain ⟨⟨b⟩⟩ := b
  revert b
  decide +kernel

@[simp] lemma utf8_asciiText {bs : List UInt8} (h : Utf8.Ascii bs) : utf8 (asciiText bs) = bs := by
  have hascii : ∀ c ∈ (asciiText bs).toList, c.toNat < 0x80 := by
    intro c hc
    rw [asciiText, String.toList_ofList] at hc
    obtain ⟨b, hb, rfl⟩ := List.mem_map.mp hc
    rw [toNat_ofNat_of_lt (h b hb)]
    exact UInt8.lt_iff_toNat_lt.mp (h b hb)
  rw [utf8_of_ascii hascii, asciiText, String.toList_ofList, List.map_map]
  conv_rhs => rw [← List.map_id bs]
  exact List.map_congr_left fun b hb => by simp [toNat_ofNat_of_lt (h b hb)]

namespace Header

/-- The check of a character at a position. -/
lemma fits_toNat (i : ℕ) (c : Char) :
    fits i c.toNat = if i ∈ [8, 13, 18, 23] then c == '-' else Idemio.isHex c := by
  unfold fits
  split
  · rw [Bool.eq_iff_iff, decide_eq_true_eq, beq_iff_eq]
    exact ⟨fun h => Char.toNat_inj.mp h, fun h => h ▸ rfl⟩
  · rfl

/-- `isUUID` of a text, by its characters. -/
lemma isUUID_iff_chars {t : String} : Idemio.isUUID t = true ↔
    t.utf8ByteSize = 36 ∧
      ∀ (i : ℕ) (hi : i < t.toList.length), fits i (t.toList[i]).toNat = true := by
  rw [Idemio.isUUID, Bool.and_eq_true_iff, beq_iff_eq, List.all_eq_true]
  refine and_congr_right fun _ => ⟨fun hall i hi => ?_, fun hall e he => ?_⟩
  · rw [fits_toNat]
    exact hall (t.toList[i], i) (List.mk_mem_zipIdx_iff_getElem?.mpr (List.getElem?_eq_getElem hi))
  · obtain ⟨hi, heq⟩ := List.getElem?_eq_some_iff.mp (List.mk_mem_zipIdx_iff_getElem?.mp he)
    have hfits := hall e.2 hi
    rw [fits_toNat, heq] at hfits
    exact hfits

/-- On UTF-8 the bytes are accepted if the characters are. -/
lemma isUUID_utf8 (t : String) : isUUID (utf8 t) = Idemio.isUUID t := by
  rw [Bool.eq_iff_iff]
  by_cases hascii : ∀ c ∈ t.toList, c.toNat < 0x80
  · rw [isUUID_iff_of_ascii (ascii_utf8_iff.mpr hascii), isUUID_iff_chars, ← length_utf8]
    refine and_congr_right fun _ => ?_
    have hget (i : ℕ) (hi : i < (utf8 t).length) (hi' : i < t.toList.length) :
        ((utf8 t)[i]).toNat = (t.toList[i]).toNat := by
      have hlt := hascii _ (List.getElem_mem hi')
      simp only [utf8_of_ascii hascii, List.getElem_map]
      simp
      omega
    have hlength : (utf8 t).length = t.toList.length := by
      rw [utf8_of_ascii hascii, List.length_map]
    constructor
    · intro hall i hi
      rw [← hget i (hlength ▸ hi) hi]
      exact hall i _
    · intro hall i hi
      rw [hget i hi (hlength ▸ hi)]
      exact hall i _
  · refine iff_of_false (fun h => ?_) (fun h => ?_)
    · exact hascii (ascii_utf8_iff.mp (ascii_of_isUUID h))
    · refine hascii fun c hc => ?_
      obtain ⟨i, hi, rfl⟩ := List.getElem_of_mem hc
      exact (lt_of_fits ((isUUID_iff_chars.mp h).2 i hi)).1

lemma toLower_char {c : Char} (h : c.toNat < 0x80) :
    c.toLower.toNat < 0x80 ∧ c.toLower.toNat.toUInt8 = lowerByte c.toNat.toUInt8 := by
  have hall : ∀ n : Fin 128, (Char.ofNat n).toLower.toNat < 0x80 ∧
      (Char.ofNat n).toLower.toNat.toUInt8 = lowerByte (Char.ofNat n).toNat.toUInt8 := by
    decide +kernel
  have hc := hall ⟨c.toNat, h⟩
  rwa [Char.ofNat_toNat] at hc

lemma lt_of_toLower_char {c : Char} (h : c.toLower.toNat < 0x80) : c.toNat < 0x80 := by
  by_contra hc
  have heq : c.toLower = c := by
    refine dif_neg ?_
    rintro ⟨-, hle⟩
    exact hc (lt_of_le_of_lt (UInt32.le_iff_toNat_le.mp hle) (by decide))
  exact hc (heq ▸ h)

lemma ascii_toLower_iff {s : String} :
    (∀ c ∈ (Idemio.toLower s).toList, c.toNat < 0x80) ↔ ∀ c ∈ s.toList, c.toNat < 0x80 := by
  rw [Idemio.toLower, String.toList_ofList, List.forall_mem_map]
  exact forall₂_congr fun c _ => ⟨lt_of_toLower_char, fun h => (toLower_char h).1⟩

lemma toLower_utf8 {table : CaseTable} {s : String} (h : ∀ c ∈ s.toList, c.toNat < 0x80) :
    toLower table (utf8 s) = utf8 (Idemio.toLower s) := by
  rw [toLower_of_ascii (ascii_utf8_iff.mpr h), utf8_of_ascii h,
    utf8_of_ascii (ascii_toLower_iff.mpr h), Idemio.toLower, String.toList_ofList, List.map_map,
    List.map_map]
  exact List.map_congr_left fun c hc => (toLower_char (h c hc)).2.symm

/-- **The model of admission decides as the bytes of the header do.** -/
theorem isUUID_toLower_utf8 (table : CaseTable) (s : String) :
    isUUID (toLower table (utf8 s)) = Idemio.isUUID (Idemio.toLower s) := by
  by_cases hascii : ∀ c ∈ s.toList, c.toNat < 0x80
  · rw [toLower_utf8 hascii, isUUID_utf8]
  · rw [Bool.eq_iff_iff, ← isUUID_utf8]
    refine iff_of_false (fun h => ?_) (fun h => ?_)
    · exact hascii (ascii_utf8_iff.mp (ascii_of_toLower h))
    · exact hascii (ascii_toLower_iff.mp (ascii_utf8_iff.mp (ascii_of_isUUID h)))

/-- `handleWrite` accepts the header. -/
def Accepted (table : CaseTable) (header : List UInt8) : Prop :=
  isUUID (toLower table header) = true

/-- The key that `handleWrite` goes on with. -/
def key (table : CaseTable) (header : List UInt8) : String := asciiText (toLower table header)

variable {table : CaseTable} {header : List UInt8}

lemma Accepted.utf8_key (h : Accepted table header) :
    utf8 (key table header) = header.map lowerByte := by
  rw [key, utf8_asciiText (ascii_of_isUUID h), toLower_of_ascii (ascii_of_toLower h)]

/-- The key of an accepted header is the text of a UUID. -/
lemma Accepted.exists_text (h : Accepted table header) :
    ∃ n < 2 ^ 128, utf8 (key table header) = Uuid.text n := by
  rw [h.utf8_key]
  exact Uuid.hasLayout_iff.mp (isUUID_toLower_iff.mp h)

/-- The key of a header that `admission` accepts is the one that it goes on with. -/
lemma key_utf8 {s : String} (h : Idemio.isUUID (Idemio.toLower s) = true) :
    key table (utf8 s) = Idemio.toLower s := by
  have haccepted : Accepted table (utf8 s) := (isUUID_toLower_utf8 table s).trans h
  have hascii := ascii_of_toLower haccepted
  rw [← utf8_inj, key, utf8_asciiText (ascii_of_isUUID haccepted),
    toLower_utf8 (ascii_utf8_iff.mp hascii)]

end Header

/-! ## The three uses of a key -/

/-- The request of `Execute`. -/
structure ExecuteHTTP where
  method : String
  url : String
  headers : List (String × String)
  body : RawMessage
  deriving DecidableEq, Repr

/-- `CorrelationHeader`. -/
def correlationHeader : String := "X-Idemio-Correlation-Id"

/-- `Execute`, up to the call. -/
def executeHTTP (env : Env) (baseURL : String) (k : KeyID) (body : RawMessage) : ExecuteHTTP where
  method := "POST"
  url := baseURL ++ "/v1/execute"
  headers := [("Content-Type", "application/json"), (correlationHeader, correlationID env k)]
  body := body

/-- `idempotency_key::text`, as `selectStale` reads it. -/
def storedText (uuid : ℕ) : String := asciiText (Uuid.text uuid)

/-- What `correlation.ID` hashes. -/
def correlationInput (k : KeyID) : List UInt8 := utf8 (k.agentID ++ "\x00" ++ k.key)

lemma utf8_storedText {n : ℕ} (h : n < 2 ^ 128) : utf8 (storedText n) = Uuid.text n :=
  utf8_asciiText (Header.ascii_of_hasLayout (Uuid.hasLayout_iff.mpr ⟨n, h, rfl⟩))

/-- **A key is read back from its row as it was written.** -/
lemma storedText_key {table : CaseTable} {header : List UInt8} (h : Header.Accepted table header) :
    ∃ stored, Uuid.parse (utf8 (Header.key table header)) = some stored ∧
      storedText stored = Header.key table header := by
  obtain ⟨n, hn, htext⟩ := h.exists_text
  refine ⟨n, by rw [htext, Uuid.parse_text hn], ?_⟩
  rw [← utf8_inj, utf8_storedText hn, htext]

lemma hexDigit_inj {m n : ℕ} (hm : m < 16) (hn : n < 16) (h : hexDigit m = hexDigit n) :
    m = n := by
  have hall : ∀ m n : Fin 16, hexDigit m = hexDigit n → m = n := by decide +kernel
  exact Fin.mk.inj (hall ⟨m, hm⟩ ⟨n, hn⟩ h)

lemma hexEncode_inj {as bs : List UInt8} (h : hexEncode as = hexEncode bs) : as = bs := by
  induction as generalizing bs with
  | nil =>
    cases bs with
    | nil => rfl
    | cons b bs => cases String.ofList_inj.mp h
  | cons a as ih =>
    have h := String.ofList_inj.mp h
    cases bs with
    | nil => cases h
    | cons b bs =>
      simp only [List.flatMap_cons, List.cons_append, List.nil_append, List.cons.injEq] at h
      obtain ⟨hhigh, hlow, hrest⟩ := h
      have ha := a.toNat_lt
      have hb := b.toNat_lt
      have hdiv := hexDigit_inj (by omega) (by omega) hhigh
      have hmod := hexDigit_inj (by omega) (by omega) hlow
      rw [ih (congrArg String.ofList hrest), UInt8.toNat_inj.mp (by omega : a.toNat = b.toNat)]

/-- The input of the hash determines the agent and the key, because all keys have one length. -/
lemma correlationInput_inj {agent₁ agent₂ key₁ key₂ : String}
    (hlength : (utf8 key₁).length = (utf8 key₂).length)
    (h : correlationInput ⟨agent₁, key₁⟩ = correlationInput ⟨agent₂, key₂⟩) :
    agent₁ = agent₂ ∧ key₁ = key₂ := by
  simp only [correlationInput, utf8_append] at h
  obtain ⟨hagent, hkey⟩ := List.append_inj' h hlength
  exact ⟨utf8_inj.mp (List.append_cancel_right hagent), utf8_inj.mp hkey⟩

lemma Header.Accepted.length_key {table : CaseTable} {header : List UInt8}
    (h : Header.Accepted table header) : (utf8 (Header.key table header)).length = 36 := by
  rw [h.utf8_key]
  exact (Header.isUUID_toLower_iff.mp h).length_eq

/-- **Call, result object and probe use one identity.** For every header that `handleWrite`
accepts, `Execute` sends the correlation id that `Ref` contains and that the reconciler probes
with after it has read the key back. Two writes share it only if they are by one agent and their
headers are equal up to the case of the digits.

**Proof sketch.** An accepted header is the text of a UUID in any case, its lower case is what
Postgres prints for that UUID, and it has 36 bytes. -/
theorem one_identity (table : CaseTable) (env : Env) {inputs : Set (List UInt8)}
    (hinj : Set.InjOn (fun bs => (env.sha256 bs).take 16) inputs) :
    (∀ (c : ProbeClient) (baseURL path agentID : String) (body : RawMessage)
        (header : List UInt8), Header.Accepted table header →
      ∃ id stored,
        (executeHTTP env baseURL ⟨agentID, Header.key table header⟩ body).headers.lookup
            correlationHeader = some id ∧
        ref env ⟨agentID, Header.key table header⟩ = "results/" ++ id ++ ".json" ∧
        Uuid.parse (utf8 (Header.key table header)) = some stored ∧
        c.target env path ⟨agentID, storedText stored⟩ =
          c.baseURL ++ path ++ "?correlation_id=" ++ id) ∧
    ∀ (agent₁ agent₂ : String) (header₁ header₂ : List UInt8),
      Header.Accepted table header₁ → Header.Accepted table header₂ →
      correlationInput ⟨agent₁, Header.key table header₁⟩ ∈ inputs →
      correlationInput ⟨agent₂, Header.key table header₂⟩ ∈ inputs →
      (correlationID env ⟨agent₁, Header.key table header₁⟩ =
          correlationID env ⟨agent₂, Header.key table header₂⟩ ↔
        agent₁ = agent₂ ∧ header₁.map lowerByte = header₂.map lowerByte) := by
  constructor
  · intro c baseURL path agentID body header h
    obtain ⟨stored, hparse, htext⟩ := storedText_key h
    refine ⟨correlationID env ⟨agentID, Header.key table header⟩, stored, rfl, rfl, hparse, ?_⟩
    rw [htext]
    simp only [ProbeClient.target, String.append_assoc]
    rfl
  · intro agent₁ agent₂ header₁ header₂ h₁ h₂ hmem₁ hmem₂
    constructor
    · intro h
      have hinput := hinj hmem₁ hmem₂ (hexEncode_inj h)
      obtain ⟨hagent, hkey⟩ :=
        correlationInput_inj (h₁.length_key.trans h₂.length_key.symm) hinput
      exact ⟨hagent, by rw [← h₁.utf8_key, ← h₂.utf8_key, hkey]⟩
    · rintro ⟨rfl, hlower⟩
      have hkey : Header.key table header₁ = Header.key table header₂ := by
        rw [← utf8_inj, h₁.utf8_key, h₂.utf8_key, hlower]
      rw [hkey]

/-- A table with the two runes that have a lower case in ASCII. -/
def CaseTable.small : CaseTable where
  lower r := if r = 0x130 then 0x69 else if r = 0x212A then 0x6B else r
  lower_ascii := by
    intro r hr hlt
    split at hlt
    · exact .inl (by simp [*])
    · split at hlt
      · exact .inr (by simp [*])
      · omega

/-- The header of a UUID all of whose digits are `b`. -/
def Header.uniform (b : UInt8) : List UInt8 :=
  List.replicate 8 b ++ 0x2D :: List.replicate 4 b ++ 0x2D :: List.replicate 4 b ++
    0x2D :: List.replicate 4 b ++ 0x2D :: List.replicate 12 b

/-- The inputs of two agents with names of one letter differ in their first byte, which the small
environment keeps. -/
lemma injOn_small (key : String) :
    Set.InjOn (fun bs => (Env.small.sha256 bs).take 16)
      {correlationInput ⟨"a", key⟩, correlationInput ⟨"b", key⟩} := by
  have hne : ((correlationInput ⟨"a", key⟩).take 16).head? ≠
      ((correlationInput ⟨"b", key⟩).take 16).head? := by
    have ha : utf8 "a\x00" = [97, 0] := by decide
    have hb : utf8 "b\x00" = [98, 0] := by decide
    simp [correlationInput, utf8_append, ha, hb]
  rintro x (rfl | rfl) y (rfl | rfl) hxy
  · rfl
  · exact absurd (congrArg List.head? hxy) hne
  · exact absurd (congrArg List.head? hxy).symm hne
  · rfl

/-- An agent that sends `A` in place of `a` means the same write, another agent does not. The call,
the object and the probe of that write name it alike. -/
theorem one_identity_uniform :
    (∃ id stored,
      (executeHTTP .small "http://downstream" ⟨"a", Header.key .small (Header.uniform 0x41)⟩
          []).headers.lookup correlationHeader = some id ∧
      ref .small ⟨"a", Header.key .small (Header.uniform 0x41)⟩ = "results/" ++ id ++ ".json" ∧
      Uuid.parse (utf8 (Header.key .small (Header.uniform 0x41))) = some stored ∧
      (ProbeClient.answering []).target .small "/probe" ⟨"a", storedText stored⟩ =
        "http://downstream" ++ "/probe" ++ "?correlation_id=" ++ id) ∧
    correlationID .small ⟨"a", Header.key .small (Header.uniform 0x41)⟩ =
      correlationID .small ⟨"a", Header.key .small (Header.uniform 0x61)⟩ ∧
    correlationID .small ⟨"a", Header.key .small (Header.uniform 0x41)⟩ ≠
      correlationID .small ⟨"b", Header.key .small (Header.uniform 0x61)⟩ := by
  have hupper : Header.Accepted .small (Header.uniform 0x41) := by
    unfold Header.Accepted
    decide +kernel
  have hlower : Header.Accepted .small (Header.uniform 0x61) := by
    unfold Header.Accepted
    decide +kernel
  have hkey : Header.key .small (Header.uniform 0x41) =
      Header.key .small (Header.uniform 0x61) := by
    rw [← utf8_inj, hupper.utf8_key, hlower.utf8_key]
    decide
  obtain ⟨hname, hshare⟩ := one_identity .small .small
    (injOn_small (Header.key .small (Header.uniform 0x61)))
  refine ⟨hname (.answering []) _ "/probe" "a" [] _ hupper,
    (hshare "a" "a" _ _ hupper hlower ?_ ?_).mpr ⟨rfl, by decide⟩, fun h => ?_⟩
  · exact .inl (by rw [hkey])
  · exact .inl rfl
  · have hagent := ((hshare "a" "b" _ _ hupper hlower (.inl (by rw [hkey])) (.inr rfl)).mp h).1
    exact absurd hagent (by decide)

end Idemio
