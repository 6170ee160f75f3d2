import Idemio.Base.Base64
import Idemio.Base.Timestamp
import Idemio.Config
import Idemio.Identity

set_option relaxedAutoImplicit false
set_option autoImplicit false

/-!
# The window of a read

The endpoints that list intents and conflicts read a range of time in pages. `readWindow` takes the
range, the size of a page and the cursor from the query of the request. A cursor is the time and
the identifier of the last row of the page before, as text in base64.

Parameters are sequences of bytes, which need not be UTF-8. Times are nanoseconds.

## Main definitions

* `Idemio.Reads.encodeCursor`, `Idemio.Reads.decodeCursor` — a cursor as text, and back.
* `Idemio.Reads.readWindow` — what a request asks for, or what is wrong with it.

## Main results

* `Idemio.Reads.decodeCursor_encodeCursor` — a cursor is read back in the years 0 to 9999, and only
  then.
* `Idemio.Reads.readWindow_ok` — what an accepted window satisfies.
-/

namespace Idemio.Reads

/-! ## Cursors -/

/-- `cursor`. -/
structure Cursor where
  time : ℤ
  id : List UInt8
  deriving DecidableEq, Repr

/-- `encodeCursor`. -/
def encodeCursor (time : ℤ) (id : List UInt8) : List UInt8 :=
  Base64.encode (Timestamp.format time ++ 0x7C :: id)

/-- `strings.Cut`, at a single byte. -/
def cut (s : List UInt8) (sep : UInt8) : Option (List UInt8 × List UInt8) :=
  if sep ∈ s then some (s.takeWhile (· ≠ sep), (s.dropWhile (· ≠ sep)).tail) else none

/-- `decodeCursor`. -/
def decodeCursor (table : CaseTable) (raw : List UInt8) : Except String Cursor :=
  match Base64.decode raw with
  | none => .error "cursor is not valid base64url"
  | some decoded =>
    match cut decoded 0x7C with
    | none => .error "cursor is malformed"
    | some (text, id) =>
      match Timestamp.parse text with
      | none => .error "cursor carries no timestamp"
      | some time =>
        if Header.isUUID (Header.toLower table id) then .ok ⟨time, id⟩
        else .error "cursor carries no identifier"

lemma cut_append {s : List UInt8} {sep : UInt8} (h : sep ∉ s) (rest : List UInt8) :
    cut (s ++ sep :: rest) sep = some (s, rest) := by
  have hne : ∀ b ∈ s, decide (b ≠ sep) = true := fun b hb =>
    decide_eq_true fun heq => h (heq ▸ hb)
  rw [cut, if_pos (by simp), List.takeWhile_append_of_pos hne, List.dropWhile_append_of_pos hne]
  simp

/-- **A cursor is read back** if the year of its time has four digits, and is refused if not. -/
theorem decodeCursor_encodeCursor {table : CaseTable} {time : ℤ} {id : List UInt8}
    (hid : Header.isUUID (Header.toLower table id) = true) :
    decodeCursor table (encodeCursor time id) =
      if Timestamp.FourDigits time then .ok ⟨time, id⟩
      else .error "cursor carries no timestamp" := by
  have hbar : (0x7C : UInt8) ∉ Timestamp.format time := by
    intro hmem
    exact absurd (Timestamp.of_mem_format hmem) (by decide)
  rw [decodeCursor, encodeCursor, Base64.decode_encode]
  dsimp only
  rw [cut_append hbar]
  dsimp only
  by_cases hyear : Timestamp.FourDigits time
  · rw [Timestamp.parse_format hyear, if_pos hyear]
    exact if_pos hid
  · rw [Timestamp.parse_format_eq_none hyear, if_neg hyear]

/-! ## Parameters -/

/-- `url.Values`: names and values, the values of one name in their order. -/
abbrev Query := List (List UInt8 × List UInt8)

/-- The first value of a name, or no text if it has none. -/
def Query.first (query : Query) (name : List UInt8) : List UInt8 :=
  ((query.find? fun e => e.1 = name).map Prod.snd).getD []

/-- `Values.Get`. -/
def Query.get (query : Query) (name : String) : List UInt8 := query.first (utf8 name)

/-- `strconv.Atoi`. -/
def atoi (s : List UInt8) : Option ℤ :=
  let digits := if s.head? = some 0x2B ∨ s.head? = some 0x2D then s.tail else s
  let n : ℤ :=
    if s.head? = some 0x2D then -JsonDoc.natOfDigits digits else JsonDoc.natOfDigits digits
  if digits ≠ [] ∧ digits.all JsonDoc.isDigit ∧ -2 ^ 63 ≤ n ∧ n < 2 ^ 63 then some n else none

/-- `Time.Sub`: a difference too large for a duration is the largest one. -/
def timeSub (t u : ℤ) : Duration := Int64.ofInt (max (-2 ^ 63) (min (t - u) (2 ^ 63 - 1)))

/-- `Duration.Round(time.Hour)`, of a duration that is not negative. -/
def roundHour (d : Duration) : Duration :=
  let r := d.toInt % hour.toInt
  if r + r < hour.toInt then Int64.ofInt (d.toInt - r)
  else Int64.ofInt (min (d.toInt + hour.toInt - r) (2 ^ 63 - 1))

/-! ## Windows -/

/-- `window`. -/
structure Window where
  sinceTime : ℤ
  untilTime : ℤ
  limit : ℕ
  cursor : Option Cursor

/-- `defaultLimit`. -/
def defaultLimit : ℕ := 100

/-- `maxLimit`. -/
def maxLimit : ℕ := 1000

/-- `readWindow`: the end of the range, which is `now` if none is given. -/
def readUntil (now : ℤ) (query : Query) : Option ℤ :=
  if query.get "until" = [] then some now else Timestamp.parse (query.get "until")

/-- `readWindow`: the range. -/
def readRange (maxSpan : Duration) (now : ℤ) (query : Query) : Except String (ℤ × ℤ) :=
  if query.get "since" = [] then
    .error "since is required; an unbounded read scans every retained partition"
  else
    match Timestamp.parse (query.get "since") with
    | none => .error "since must be an RFC 3339 timestamp"
    | some sinceTime =>
      match readUntil now query with
      | none => .error "until must be an RFC 3339 timestamp"
      | some untilTime =>
        if untilTime ≤ sinceTime then .error "until must be after since"
        else if maxSpan < timeSub untilTime sinceTime then
          .error ("the range spans " ++ durationString (roundHour (timeSub untilTime sinceTime)) ++
            "; the maximum is " ++ durationString maxSpan ++
            ". Page with cursor rather than widening the window")
        else .ok (sinceTime, untilTime)

/-- `readWindow`: the limit. -/
def readLimit (query : Query) : Except String ℕ :=
  if query.get "limit" = [] then .ok defaultLimit
  else
    match atoi (query.get "limit") with
    | none => .error ("limit must be between 1 and " ++ toString maxLimit)
    | some limit =>
      if limit < 1 ∨ maxLimit < limit then
        .error ("limit must be between 1 and " ++ toString maxLimit)
      else .ok limit.toNat

/-- `readWindow`: the cursor. -/
def readCursor (table : CaseTable) (query : Query) : Except String (Option Cursor) :=
  if query.get "cursor" = [] then .ok none
  else (decodeCursor table (query.get "cursor")).map some

/-- `readWindow`. -/
def readWindow (table : CaseTable) (maxSpan : Duration) (now : ℤ) (query : Query) :
    Except String Window :=
  match readRange maxSpan now query with
  | .error problem => .error problem
  | .ok (sinceTime, untilTime) =>
    match readLimit query with
    | .error problem => .error problem
    | .ok limit => (readCursor table query).map fun cursor => ⟨sinceTime, untilTime, limit, cursor⟩

/-! ## What is accepted -/

lemma readRange_ok {maxSpan : Duration} {now : ℤ} {query : Query} {range : ℤ × ℤ}
    (h : readRange maxSpan now query = .ok range) :
    Timestamp.parse (query.get "since") = some range.1 ∧ readUntil now query = some range.2 := by
  unfold readRange at h
  split_ifs at h
  split at h
  · cases h
  · next sinceTime hsince =>
    split at h
    · cases h
    · next untilTime huntil =>
      split_ifs at h
      cases h
      exact ⟨hsince, huntil⟩

lemma readLimit_ok {query : Query} {limit : ℕ} (h : readLimit query = .ok limit) :
    1 ≤ limit ∧ limit ≤ maxLimit := by
  unfold readLimit at h
  split_ifs at h
  · cases h
    decide
  · split at h
    · cases h
    · split_ifs at h
      cases h
      omega

lemma readWindow_ok {table : CaseTable} {maxSpan : Duration} {now : ℤ} {query : Query}
    {w : Window} (h : readWindow table maxSpan now query = .ok w) :
    readRange maxSpan now query = .ok (w.sinceTime, w.untilTime) ∧
      readLimit query = .ok w.limit ∧ readCursor table query = .ok w.cursor := by
  unfold readWindow at h
  split at h
  · cases h
  · next sinceTime untilTime hrange =>
    split at h
    · cases h
    · next limit hlimit =>
      cases hcursor : readCursor table query with
      | error problem => rw [hcursor] at h; cases h
      | ok cursor =>
        rw [hcursor] at h
        cases h
        exact ⟨hrange, hlimit, rfl⟩

end Idemio.Reads
