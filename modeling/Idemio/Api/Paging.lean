import Idemio.Api.Reads

set_option relaxedAutoImplicit false
set_option autoImplicit false

/-!
# A client that follows the cursors

A client asks for a page and then, as long as there are more rows, for the page at the cursor that
the last one came with. All its requests are the same but for the cursor. An endpoint answers with
`pageOf` of a `Keyset.select`, and that is all that is assumed of it here.

## Main definitions

* `Idemio.Reads.ReadsHTTP.withCursor` — the request for the next page.
* `Idemio.Reads.Page.follow` — what the client takes from a page.
* `Idemio.Reads.Inserted` — a table that rows are inserted into.
* `Idemio.Reads.ServesPages` — an endpoint that answers with pages of what matches.
* `Idemio.Reads.AllAccepted` — `readWindow` accepts every request of the client.

## Main results

* `Idemio.Reads.decodeKey_encodeCursor` — a cursor that is accepted stands for the row it is of.
* `Idemio.Reads.ServesPages.serves` — such an endpoint serves a keyset.
* `Idemio.Reads.ServesPages.allAccepted` — when every request is accepted.
-/

namespace Idemio.Reads

/-! ## Cursors of rows -/

lemma lowerByte_of_fits {hyphen : Bool} {b : UInt8} (h : Uuid.Fits hyphen b) :
    lowerByte b = b := by
  unfold Uuid.Fits at h
  split_ifs at h
  · rw [h]
    decide
  · obtain ⟨d, hd, rfl⟩ := h
    interval_cases d <;> decide

/-- The text of a UUID is accepted as an identifier. -/
lemma isUUID_text (table : CaseTable) {id : ℕ} (hid : id < 2 ^ 128) :
    Header.isUUID (Header.toLower table (Uuid.text id)) = true := by
  have hlayout : Uuid.HasLayout (Uuid.text id) := Uuid.hasLayout_iff.mpr ⟨id, hid, rfl⟩
  rw [Header.isUUID_toLower_iff, Uuid.HasLayout, List.forall₂_map_right_iff]
  exact hlayout.imp fun hyphen b h => (lowerByte_of_fits h).symm ▸ h

/-- The key that a cursor stands for. -/
def decodeKey (table : CaseTable) (raw : List UInt8) : Key :=
  match decodeCursor table raw with
  | .ok cursor => toLex (micros cursor.time, (Uuid.parse cursor.id).getD 0)
  | .error _ => toLex (0, 0)

/-- **A cursor that is accepted stands for the row that it was made of**, as a key and as a
parameter. -/
lemma decodeKey_encodeCursor {table : CaseTable} {t : Time} {id : ℕ} {cursor : Cursor}
    (hid : id < 2 ^ 128)
    (h : decodeCursor table (encodeCursor (1000 * t) (Uuid.text id)) = .ok cursor) :
    decodeKey table (encodeCursor (1000 * t) (Uuid.text id)) = toLex (t, id) ∧
      cursorKey (some cursor) = some (some (toLex (t, id))) := by
  have hmicros : micros (1000 * t) = t := Int.mul_ediv_cancel_left t (by decide)
  rw [decodeKey, h]
  rw [decodeCursor_encodeCursor (isUUID_text table hid)] at h
  split_ifs at h
  cases h
  simp only [cursorKey, Uuid.parse_text hid, hmicros, Option.map_some, Option.getD_some, and_self]

lemma encodeCursor_ne_nil (time : ℤ) (id : List UInt8) : encodeCursor time id ≠ [] := by
  intro hnil
  have hdecode := Base64.decode_encode (Timestamp.format time ++ 0x7C :: id)
  rw [← encodeCursor, hnil] at hdecode
  simp [Base64.decode, Base64.decodeValues] at hdecode

/-! ## The requests of a client -/

/-- `Values.Set`. -/
def Query.set (query : Query) (name : String) (value : List UInt8) : Query :=
  (utf8 name, value) :: query.filter fun e => e.1 ≠ utf8 name

@[simp] lemma Query.get_set_self (query : Query) (name : String) (value : List UInt8) :
    (query.set name value).get name = value := by
  simp [Query.get, Query.first, Query.set]

lemma Query.first_set_of_ne (query : Query) {name : String} {other : List UInt8}
    (value : List UInt8) (h : other ≠ utf8 name) :
    (query.set name value).first other = query.first other := by
  simp only [Query.first, Query.set, List.find?_cons, h.symm, decide_false, List.find?_filter]
  congr 3
  funext e
  by_cases he : e.1 = other
  · simp [he, h]
  · simp [he]

lemma Query.get_set_of_ne (query : Query) {name other : String} (value : List UInt8)
    (h : other ≠ name) : (query.set name value).get other = query.get other :=
  query.first_set_of_ne value fun heq => h (utf8_inj.mp heq)

/-- The request for the page that `token` is the cursor of, or for the first one. -/
def ReadsHTTP.withCursor (r : ReadsHTTP) : Option (List UInt8) → ReadsHTTP
  | none => r
  | some token => { r with query := r.query.set "cursor" token }

@[simp] lemma withCursor_resourceType (r : ReadsHTTP) (token : Option (List UInt8)) :
    (r.withCursor token).resourceType = r.resourceType := by
  cases token <;> rfl

@[simp] lemma withCursor_resourceID (r : ReadsHTTP) (token : Option (List UInt8)) :
    (r.withCursor token).resourceID = r.resourceID := by
  cases token <;> rfl

/-- A parameter other than the cursor is the same in every request. -/
lemma get_withCursor (r : ReadsHTTP) (token : Option (List UInt8)) {name : String}
    (h : name ≠ "cursor") : (r.withCursor token).query.get name = r.query.get name := by
  cases token with
  | none => rfl
  | some token => exact Query.get_set_of_ne r.query token h

/-- What a client takes from a page. -/
def Page.follow {α : Type} (page : Page α) : List α × Option (List UInt8) :=
  (page.rows, if page.hasMore then page.nextCursor else none)

/-- Rows are inserted into a table with a primary key, finitely many in all. -/
structure Inserted {α : Type} (key : α → Key) (rows : ℕ → List α) (last : List α) : Prop where
  step : ∀ n, (rows n).Sublist (rows (n + 1))
  le_last : ∀ n, (rows n).Sublist last
  nodup : (last.map key).Nodup
  uuid : ∀ x ∈ last, (ofLex (key x)).2 < 2 ^ 128

lemma Inserted.mem_of_mem_zero {α : Type} {key : α → Key} {rows : ℕ → List α} {last : List α}
    (h : Inserted key rows last) (n : ℕ) {x : α} (hx : x ∈ rows 0) : x ∈ rows n := by
  induction n with
  | zero => exact hx
  | succ n ih => exact (h.step n).subset ih

/-! ## Pages that are selected -/

/-- **A page that is cut from what was selected is a page**, and its cursor is that of its last
row. -/
lemma isPage_pageOf {β : Type} {key : β → Key} {rows : List β} (hnodup : (rows.map key).Nodup)
    (cursor : Option Key) {limit : ℕ} (hlimit : 1 ≤ limit) (text : β → List UInt8)
    {page : List β × Option (List UInt8)}
    (hpage : page = (pageOf (Keyset.select key cursor (limit + 1) rows) limit text).follow) :
    Keyset.IsPage key (· ∈ rows) cursor page.1 page.2.isSome ∧
      ∀ token ∈ page.2, ∀ x ∈ page.1.getLast?, token = text x := by
  have hselect := Keyset.isPage_select hnodup cursor hlimit
  subst hpage
  unfold pageOf paginate
  split_ifs with hle
  · rw [List.take_of_length_le hle, decide_eq_false (not_lt.mpr hle)] at hselect
    exact ⟨hselect, by simp [Page.follow]⟩
  · rw [decide_eq_true (not_le.mp hle)] at hselect
    refine ⟨hselect, fun token htoken x hx => ?_⟩
    simp only [Page.follow, if_true, Option.mem_def, Option.some.injEq] at htoken hx
    rw [← htoken, hx, Option.map_some, Option.getD_some]

/-- The cursor of a request, as a parameter. -/
def IsCursor (table : CaseTable) (token : Option (List UInt8)) (cursor : Option Key) : Prop :=
  match token with
  | none => cursor = none
  | some raw => raw ≠ [] → ∃ c, decodeCursor table raw = .ok c ∧ cursorKey (some c) = some cursor

/-- What an endpoint answers to a client are pages of what matches at that time. -/
structure ServesPages {β : Type}
    (serve : ℕ → Option (List UInt8) → Option (List β × Option (List UInt8))) (key : β → Key)
    (text : β → List UInt8) (table : CaseTable) (matching : ℕ → List β) : Prop where
  page : ∀ n token page, serve n token = some page → ∃ limit cursor, 1 ≤ limit ∧
    IsCursor table token cursor ∧
    page = (pageOf (Keyset.select key cursor (limit + 1) (matching n)) limit text).follow
  text_eq : ∀ n, ∀ x ∈ matching n, ∃ t id, id < 2 ^ 128 ∧
    text x = encodeCursor (1000 * t) (Uuid.text id) ∧ key x = toLex (t, id)
  nodup : ∀ n, ((matching n).map key).Nodup

section ServesPages

variable {β : Type} {serve : ℕ → Option (List UInt8) → Option (List β × Option (List UInt8))}
  {key : β → Key} {text : β → List UInt8} {table : CaseTable} {matching : ℕ → List β}

/-- Every token that a client sends is the cursor of a row. -/
lemma ServesPages.exists_text (h : ServesPages serve key text table matching) {n : ℕ}
    {raw : List UInt8} (hrequested : Keyset.Requested serve n (some raw)) :
    ∃ m, ∃ x ∈ matching m, raw = text x := by
  cases hrequested with
  | @next m token rows raw _ hserve =>
    obtain ⟨limit, cursor, hlimit, -, heq⟩ := h.page m _ _ hserve
    obtain ⟨hpage, hlast⟩ := isPage_pageOf (h.nodup m) cursor hlimit text heq
    obtain ⟨x, hx⟩ : ∃ x, x ∈ rows.getLast? :=
      ⟨_, List.getLast?_eq_getLast_of_ne_nil (hpage.nonempty rfl)⟩
    exact ⟨m, x, (hpage.mem x (List.mem_of_mem_getLast? hx)).1, hlast raw rfl x hx⟩

/-- The cursor of a row stands for that row wherever it is accepted. -/
lemma ServesPages.key_of_isCursor (h : ServesPages serve key text table matching) {n : ℕ} {x : β}
    (hx : x ∈ matching n) {cursor : Option Key} (hcursor : IsCursor table (some (text x)) cursor) :
    decodeKey table (text x) = key x ∧ cursor = some (key x) := by
  obtain ⟨t, id, hid, htoken, hkey⟩ := h.text_eq n x hx
  rw [htoken] at hcursor ⊢
  obtain ⟨c, hdecode, hparam⟩ := hcursor (encodeCursor_ne_nil _ _)
  obtain ⟨hmeaning, hsome⟩ := decodeKey_encodeCursor hid hdecode
  rw [hsome] at hparam
  rw [hkey]
  exact ⟨hmeaning, (Option.some.inj hparam).symm⟩

/-- The cursor of every request is what its token stands for. -/
lemma ServesPages.isCursor_eq (h : ServesPages serve key text table matching) {n : ℕ}
    {token : Option (List UInt8)} (hrequested : Keyset.Requested serve n token)
    {cursor : Option Key} (hcursor : IsCursor table token cursor) :
    cursor = token.map (decodeKey table) := by
  cases token with
  | none => exact hcursor
  | some raw =>
    obtain ⟨m, x, hx, rfl⟩ := h.exists_text hrequested
    obtain ⟨hmeaning, rfl⟩ := h.key_of_isCursor hx hcursor
    rw [Option.map_some, hmeaning]

lemma ServesPages.serves (h : ServesPages serve key text table matching)
    (hanswered : ∀ n token, Keyset.Requested serve n token → (serve n token).isSome) :
    Keyset.Serves serve key (decodeKey table) fun n x => x ∈ matching n := by
  intro n token hrequested
  obtain ⟨page, hserve⟩ := Option.isSome_iff_exists.mp (hanswered n token hrequested)
  obtain ⟨limit, cursor, hlimit, hcursor, heq⟩ := h.page n token page hserve
  obtain rfl := h.isCursor_eq hrequested hcursor
  obtain ⟨hpage, hlast⟩ := isPage_pageOf (h.nodup n) _ hlimit text heq
  refine ⟨page.1, page.2, hserve, hpage, fun raw hraw x hx => ?_⟩
  obtain rfl := hlast raw hraw x hx
  -- the request with this cursor is answered too, so the cursor is accepted
  have hnext : Keyset.Requested serve (n + 1) (some (text x)) :=
    .next hrequested (hserve.trans (congrArg some (Prod.ext rfl hraw)))
  obtain ⟨page', hserve'⟩ := Option.isSome_iff_exists.mp (hanswered _ _ hnext)
  obtain ⟨_, cursor', -, hcursor', -⟩ := h.page _ _ page' hserve'
  exact (h.key_of_isCursor (hpage.mem x (List.mem_of_mem_getLast? hx)).1 hcursor').1

end ServesPages

/-! ## What matches -/

/-- The range of a request, in which nothing but the end depends on the time. -/
def rangeAt (now : ℤ) (query : Query) : Window :=
  ⟨(Timestamp.parse (query.get "since")).getD 0, (readUntil now query).getD 0, 0, none⟩

/-- The range of an accepted request. -/
lemma rangeAt_of_readWindow {table : CaseTable} {maxSpan : Duration} {now : ℤ} {r : ReadsHTTP}
    {token : Option (List UInt8)} {w : Window}
    (h : readWindow table maxSpan now (r.withCursor token).query = .ok w) :
    w.sinceTime = (rangeAt now r.query).sinceTime ∧
      w.untilTime = (rangeAt now r.query).untilTime := by
  obtain ⟨hsince, huntil⟩ := readRange_ok (readWindow_ok h).1
  rw [get_withCursor r token (by decide)] at hsince
  rw [readUntil, get_withCursor r token (by decide), ← readUntil] at huntil
  rw [rangeAt, hsince, huntil]
  exact ⟨rfl, rfl⟩

/-- The end of the range does not move back if the clock does not, and not at all if it is given. -/
lemma untilTime_le {now now' : ℤ} {query : Query} (h : query.get "until" = [] → now ≤ now') :
    (rangeAt now query).untilTime ≤ (rangeAt now' query).untilTime := by
  simp only [rangeAt, readUntil]
  split_ifs with hnone
  · exact h hnone
  · exact le_rfl

lemma cursor_of_first {table : CaseTable} {maxSpan : Duration} {now : ℤ} {r : ReadsHTTP}
    {w : Window} (hfirst : r.query.get "cursor" = [])
    (h : readWindow table maxSpan now (r.withCursor none).query = .ok w) : w.cursor = none := by
  have hread := (readWindow_ok h).2.2
  rw [readCursor, ReadsHTTP.withCursor, if_pos hfirst] at hread
  exact (Except.ok.inj hread).symm

lemma cursor_of_token {table : CaseTable} {maxSpan : Duration} {now : ℤ} {r : ReadsHTTP}
    {w : Window} {raw : List UInt8} (hne : raw ≠ [])
    (h : readWindow table maxSpan now (r.withCursor (some raw)).query = .ok w) :
    ∃ c, decodeCursor table raw = .ok c ∧ w.cursor = some c := by
  have hread := (readWindow_ok h).2.2
  rw [readCursor, ReadsHTTP.withCursor, Query.get_set_self, if_neg hne] at hread
  cases hdecode : decodeCursor table raw with
  | error problem =>
    rw [hdecode] at hread
    cases hread
  | ok c =>
    rw [hdecode] at hread
    exact ⟨c, rfl, (Except.ok.inj hread).symm⟩

/-- The cursor of an accepted request. -/
lemma isCursor_of_readWindow {table : CaseTable} {maxSpan : Duration} {now : ℤ} {r : ReadsHTTP}
    (hfirst : r.query.get "cursor" = []) {token : Option (List UInt8)} {w : Window}
    {cursor : Option Key}
    (h : readWindow table maxSpan now (r.withCursor token).query = .ok w)
    (hcursor : cursorKey w.cursor = some cursor) : IsCursor table token cursor := by
  cases token with
  | none =>
    rw [cursor_of_first hfirst h] at hcursor
    exact (Option.some.inj hcursor).symm
  | some raw =>
    intro hne
    obtain ⟨c, hdecode, heq⟩ := cursor_of_token hne h
    exact ⟨c, hdecode, heq ▸ hcursor⟩

/-! ## Requests that are accepted -/

/-- `readWindow` accepts every request that a client makes. -/
def AllAccepted {β : Type} (cfg : Settings) (now : ℕ → ℤ) (r : ReadsHTTP)
    (serve : ℕ → Option (List UInt8) → Option (List β × Option (List UInt8))) : Prop :=
  ∀ n token, Keyset.Requested serve n token →
    ∃ w, readWindow cfg.table cfg.readMaxSpan (now n) (r.withCursor token).query = .ok w

/-- A request with a cursor that a page gave, and whose window is accepted, has a cursor that the
statement takes. -/
lemma ServesPages.cursorKey_of_readWindow {β : Type}
    {serve : ℕ → Option (List UInt8) → Option (List β × Option (List UInt8))} {key : β → Key}
    {text : β → List UInt8} {table : CaseTable} {matching : ℕ → List β}
    (h : ServesPages serve key text table matching) {n : ℕ} {token : Option (List UInt8)}
    (hrequested : Keyset.Requested serve n token) {r : ReadsHTTP}
    (hfirst : r.query.get "cursor" = []) {maxSpan : Duration} {now : ℤ} {w : Window}
    (hwindow : readWindow table maxSpan now (r.withCursor token).query = .ok w) :
    ∃ cursor, cursorKey w.cursor = some cursor := by
  cases token with
  | none => exact ⟨none, by rw [cursor_of_first hfirst hwindow]; rfl⟩
  | some raw =>
    obtain ⟨m, x, hx, rfl⟩ := h.exists_text hrequested
    obtain ⟨t, id, hid, htoken, -⟩ := h.text_eq m x hx
    rw [htoken] at hwindow
    obtain ⟨c, hdecode, heq⟩ := cursor_of_token (encodeCursor_ne_nil _ _) hwindow
    exact ⟨_, heq ▸ (decodeKey_encodeCursor hid hdecode).2⟩

/-- The range and the limit are the same in every request. -/
lemma readWindow_withCursor {table : CaseTable} {maxSpan : Duration} {now : ℤ} {r : ReadsHTTP}
    {token : Option (List UInt8)} {range : ℤ × ℤ} {limit : ℕ} {cursor : Option Cursor}
    (hrange : readRange maxSpan now r.query = .ok range) (hlimit : readLimit r.query = .ok limit)
    (hcursor : readCursor table (r.withCursor token).query = .ok cursor) :
    ∃ w, readWindow table maxSpan now (r.withCursor token).query = .ok w := by
  have hrange' : readRange maxSpan now (r.withCursor token).query = .ok range := by
    rw [← hrange]
    simp only [readRange, readUntil, get_withCursor r token (by decide : "since" ≠ "cursor"),
      get_withCursor r token (by decide : "until" ≠ "cursor")]
  have hlimit' : readLimit (r.withCursor token).query = .ok limit := by
    rw [← hlimit]
    simp only [readLimit, get_withCursor r token (by decide : "limit" ≠ "cursor")]
  refine ⟨⟨range.1, range.2, limit, cursor⟩, ?_⟩
  rw [readWindow, hrange', hlimit', hcursor]
  rfl

/-- **All requests are accepted** if the range and the limit are, and the times of the rows are in
years of four digits. -/
lemma ServesPages.allAccepted {β : Type} {cfg : Settings} {now : ℕ → ℤ} {r : ReadsHTTP}
    {serve : ℕ → Option (List UInt8) → Option (List β × Option (List UInt8))} {key : β → Key}
    {text : β → List UInt8} {matching : ℕ → List β}
    (h : ServesPages serve key text cfg.table matching) (hfirst : r.query.get "cursor" = [])
    (hrange : ∀ n, ∃ range, readRange cfg.readMaxSpan (now n) r.query = .ok range)
    (hlimit : ∃ limit, readLimit r.query = .ok limit)
    (hyears : ∀ n, ∀ x ∈ matching n, Timestamp.FourDigits (1000 * (ofLex (key x)).1)) :
    AllAccepted cfg now r serve := by
  intro n token hrequested
  obtain ⟨range, hrange⟩ := hrange n
  obtain ⟨limit, hlimit⟩ := hlimit
  have hcursor : ∃ cursor, readCursor cfg.table (r.withCursor token).query = .ok cursor := by
    cases token with
    | none => exact ⟨none, if_pos hfirst⟩
    | some raw =>
      obtain ⟨m, x, hx, rfl⟩ := h.exists_text hrequested
      obtain ⟨t, id, hid, htoken, hkey⟩ := h.text_eq m x hx
      have hyear := hyears m x hx
      rw [hkey, ofLex_toLex] at hyear
      rw [readCursor, ReadsHTTP.withCursor, Query.get_set_self, htoken,
        if_neg (encodeCursor_ne_nil _ _), decodeCursor_encodeCursor (isUUID_text cfg.table hid)]
      exact ⟨_, by rw [if_pos hyear]; rfl⟩
  obtain ⟨cursor, hcursor⟩ := hcursor
  exact readWindow_withCursor hrange hlimit hcursor

end Idemio.Reads
