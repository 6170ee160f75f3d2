import Idemio.Maintenance.Archive

set_option relaxedAutoImplicit false
set_option autoImplicit false

/-!
# `Restore` and `Archive`

A successful `Restore` of an object that `Archive` wrote creates a table with the archived rows. For
one row this says that the query, the order of scanning, the list of values and the columns of the
`INSERT` agree in every position, and that each column is read and written in a way that fits its
type. From that the round trip of a row follows for any table.

A failed `Restore` leaves the table that it created, with the rows that it had inserted.

## Main definitions

* `Idemio.Archive.Kind`, `Idemio.Archive.Fits` — how a column is read and written, and that this
  fits its type.
* `Idemio.Archive.Layout` — a table with the four lists that belong to it, in agreement.
* `Idemio.Archive.SameRow` — two rows are the same, up to NULL in four columns.

## Main results

* `Idemio.Archive.Layout.exists_row` — one row goes through.
* `Idemio.Archive.restore_undoes_archive` — what a successful `Restore` creates.
* `Idemio.Archive.restore_error_iff` — which failed `Restore` leaves the database as it was.
-/

namespace Idemio.Archive

open Sql

variable {J B T : Type}

/-! ## Columns -/

/-- How a column is scanned and passed on. -/
inductive Kind
  | text
  | texts
  | int32
  | time
  | timePtr

/-- The argument that is made of a column of a result. -/
def Kind.arg : Kind → Datum J → Option Arg
  | .text, d => (scanText d).map .string
  | .texts, d => (scanTexts d).map .strings
  | .int32, d => (scanInt32 d).map .int32
  | .time, d => (scanTime d).map fun t => .time (unixMicro t).toInt
  | .timePtr, d => (scanTimePtr d).map fun t => .timePtr (fromMicros (micros t))

/-- The columns in which NULL is not told from an empty value. -/
def blankColumns : List String :=
  ["scope_selector", "intent_ids", "manifest_version", "stated_reason"]

/-- The instants that may be NULL. -/
def instantColumns : List String := ["published_at", "voided_at"]

/-- The column is selected, scanned and written in a way that fits its type. -/
inductive Fits : Column → Expr J → Kind → Prop
  | asText {name : String} {type : ColumnType} {notNull : Bool} :
    Fits ⟨name, type, notNull⟩ (.asText (.column name)) .text
  | text {name : String} {notNull : Bool} :
    Fits ⟨name, .text, notNull⟩ (.column name) .text
  | blankText {name : String} (hname : name ∈ blankColumns) :
    Fits ⟨name, .text, false⟩ (.coalesce (.column name) (.text [])) .text
  | blankTexts {name : String} (hname : name ∈ blankColumns) :
    Fits ⟨name, .textArray, false⟩ (.coalesce (.column name) (.textArray [])) .texts
  | blankUuids {name : String} (hname : name ∈ blankColumns) :
    Fits ⟨name, .uuidArray, false⟩ (.coalesce (.asTextArray (.column name)) (.textArray [])) .texts
  | int32 {name : String} {notNull : Bool} :
    Fits ⟨name, .integer, notNull⟩ (.column name) .int32
  | time {name : String} {notNull : Bool} :
    Fits ⟨name, .timestamptz, notNull⟩ (.column name) .time
  | timePtr {name : String} (hname : name ∈ instantColumns) :
    Fits ⟨name, .timestamptz, false⟩ (.column name) .timePtr

/-- The value of a column is the same after the round trip. -/
def SameColumn (c : Column) (d d' : Datum J) : Prop :=
  d = d' ∨ c.name ∈ blankColumns ∧ c.notNull = false ∧ SameOrEmpty c.type d d'

/-- The arguments are the same if a nil slice is not told from an empty one. -/
def SameArg (a a' : Arg) : Prop :=
  a = a' ∨ ∃ s s', a = .strings s ∧ a' = .strings s' ∧ s'.getD [] = s.getD []

/-- The stored value of the Unix epoch. -/
def epochDatum : Datum J := .timestamptz (storedInstant 0)

/-- An instant other than the epoch survives the sentinel for NULL. -/
lemma bind_of_timePtr {json : JsonFormat J} {d : Datum J} {t : Option ℤ}
    (h : scanTimePtr d = some t) (hepoch : d ≠ epochDatum) :
    (Arg.timePtr (fromMicros (micros t))).bind json .timestamptz = some d := by
  cases d with
  | null =>
    obtain rfl : none = t := Option.some.inj h
    rfl
  | timestamptz stored =>
    simp only [scanTimePtr, Option.map_eq_some_iff] at h
    obtain ⟨t, ht, rfl⟩ := h
    have hstored := storedInstant_of_instant ht
    have hne : unixMicro t ≠ 0 := by
      intro hzero
      refine hepoch ?_
      rw [epochDatum, ← hstored, ← unixMicro, hzero]
      rfl
    rw [micros, fromMicros, if_neg hne]
    exact congrArg (fun m => some (Datum.timestamptz m)) hstored
  | _ => simp [scanTimePtr] at h

/-- An instant survives being kept in 64 bits. -/
lemma bind_of_scanTime {json : JsonFormat J} {d : Datum J} {t : ℤ} (h : scanTime d = some t) :
    (Arg.time (unixMicro t).toInt).bind json .timestamptz = some d := by
  cases d with
  | timestamptz stored =>
    exact congrArg (fun m => some (Datum.timestamptz m)) (storedInstant_of_instant h)
  | _ => simp [scanTime] at h

variable {json : JsonFormat J} {row : Row J} {c : Column} {e : Expr J} {k : Kind} {a a' : Arg}

lemma sameArg_of_ne {b : Arg} (h : SameArg b a') (hne : ∀ s, b ≠ .strings s) : a' = b := by
  rcases h with rfl | ⟨s, s', hs, -⟩
  · rfl
  · exact absurd hs (hne s)

lemma sameArg_strings {s : Option (List Text)} (h : SameArg (.strings s) a') :
    ∃ s', a' = .strings s' ∧ s'.getD [] = s.getD [] := by
  rcases h with rfl | ⟨u, u', hu, hu', hsame⟩
  · exact ⟨s, rfl, rfl⟩
  · obtain rfl : s = u := Arg.strings.inj hu
    exact ⟨u', hu', hsame⟩

/-- **One column goes through.** -/
lemma Fits.bind (hfits : Fits c e k) (htype : (row c.name).HasType c.type)
    (hepoch : c.name ∈ instantColumns → row c.name ≠ epochDatum)
    (hread : (e.eval json row).bind k.arg = some a) (hsame : SameArg a a') :
    ∃ d, a'.bind json c.type = some d ∧ SameColumn c (row c.name) d := by
  cases hfits with
  | asText =>
    simp only [Expr.eval, Kind.arg, Option.bind_some, Option.bind_eq_some_iff,
      Option.map_eq_some_iff] at hread
    obtain ⟨d, hcast, t, hscan, rfl⟩ := hread
    obtain rfl := sameArg_of_ne hsame (by simp)
    exact ⟨_, bind_of_castText htype hcast hscan, .inl rfl⟩
  | text =>
    simp only [Expr.eval, Kind.arg, Option.bind_some, Option.map_eq_some_iff] at hread
    obtain ⟨t, hscan, rfl⟩ := hread
    obtain rfl := sameArg_of_ne hsame (by simp)
    exact ⟨_, bind_of_scanText hscan, .inl rfl⟩
  | blankText hname =>
    simp only [Expr.eval, Kind.arg, Option.map_some, Option.bind_some,
      Option.map_eq_some_iff] at hread
    obtain ⟨t, hscan, rfl⟩ := hread
    obtain rfl := sameArg_of_ne hsame (by simp)
    obtain ⟨d, hbind, hd⟩ := bind_of_orElse_text hscan
    exact ⟨d, hbind, .inr ⟨hname, rfl, hd⟩⟩
  | blankTexts hname =>
    simp only [Expr.eval, Kind.arg, Option.map_some, Option.bind_some,
      Option.map_eq_some_iff] at hread
    obtain ⟨s, hscan, rfl⟩ := hread
    obtain ⟨s', rfl, hs⟩ := sameArg_strings hsame
    obtain ⟨d, hbind, hd⟩ := bind_of_orElse_textArray hscan hs
    exact ⟨d, hbind, .inr ⟨hname, rfl, hd⟩⟩
  | blankUuids hname =>
    simp only [Expr.eval, Kind.arg, Option.bind_some, Option.bind_eq_some_iff,
      Option.map_eq_some_iff] at hread
    obtain ⟨_, ⟨d, hcast, rfl⟩, s, hscan, rfl⟩ := hread
    obtain ⟨s', rfl, hs⟩ := sameArg_strings hsame
    obtain ⟨d, hbind, hd⟩ := bind_of_orElse_uuidArray htype hcast hscan hs
    exact ⟨d, hbind, .inr ⟨hname, rfl, hd⟩⟩
  | int32 =>
    simp only [Expr.eval, Kind.arg, Option.bind_some, Option.map_eq_some_iff] at hread
    obtain ⟨n, hscan, rfl⟩ := hread
    obtain rfl := sameArg_of_ne hsame (by simp)
    exact ⟨_, bind_of_scanInt32 hscan, .inl rfl⟩
  | time =>
    simp only [Expr.eval, Kind.arg, Option.bind_some, Option.map_eq_some_iff] at hread
    obtain ⟨t, hscan, rfl⟩ := hread
    obtain rfl := sameArg_of_ne hsame (by simp)
    exact ⟨_, bind_of_scanTime hscan, .inl rfl⟩
  | timePtr hname =>
    simp only [Expr.eval, Kind.arg, Option.bind_some, Option.map_eq_some_iff] at hread
    obtain ⟨t, hscan, rfl⟩ := hread
    obtain rfl := sameArg_of_ne hsame (by simp)
    exact ⟨_, bind_of_timePtr hscan (hepoch hname), .inl rfl⟩

/-! ## Rows -/

/-- Two rows of a table are the same. -/
def SameRow (columns : List Column) (row row' : Row J) : Prop :=
  ∀ c ∈ columns, SameColumn c (row c.name) (row' c.name)

/-- The parameter of the `INSERT` and what is selected and scanned in its position belong to the
same column. -/
def Agrees (columns : List Column) (param : String × Option ColumnType) (p : Expr J × Kind) :
    Prop :=
  ∃ c, columns.find? (·.name = param.1) = some c ∧ param.2.getD c.type = c.type ∧ Fits c p.1 p.2

/-- What is selected and scanned in a position gives the argument there. -/
def Reads (json : JsonFormat J) (row : Row J) (p : Expr J × Kind) (a : Arg) : Prop :=
  (p.1.eval json row).bind p.2.arg = some a

/-- What is scanned in a position gives the argument there. -/
def Scans (p : Kind × Datum J) (a : Arg) : Prop := p.1.arg p.2 = some a

/-- A table with its query, its record and its `INSERT`, in agreement. -/
structure Layout (J T : Type) where
  columns : List Column
  select : List (Expr J)
  scan : List (Datum J) → Option T
  insert : Insert
  values : T → List Arg
  same : T → T → Prop
  kinds : List Kind
  agrees : List.Forall₂ (Agrees columns) insert (select.zip kinds)
  covers : ∀ c ∈ columns, c.name ∈ insert.map Prod.fst ∧
    columns.find? (·.name = c.name) = some c
  scans : ∀ {ds : List (Datum J)} {r : T}, scan ds = some r →
    List.Forall₂ Scans (kinds.zip ds) (values r)
  values_same : ∀ {r r' : T}, same r r' → List.Forall₂ SameArg (values r) (values r')

/-- Composition of two relations, element by element. -/
lemma forall₂_comp {α β γ : Type} {R : α → β → Prop} {S : β → γ → Prop} {Q : α → γ → Prop}
    (h : ∀ a b c, R a b → S b c → Q a c) {as : List α} {bs : List β} {cs : List γ}
    (hR : List.Forall₂ R as bs) (hS : List.Forall₂ S bs cs) : List.Forall₂ Q as cs := by
  induction hR generalizing cs with
  | nil =>
    cases hS
    exact .nil
  | cons hab _ ih =>
    cases hS with
    | cons hbc hrest => exact .cons (h _ _ _ hab hbc) (ih hrest)

lemma forall₂_of_mapM {α β : Type} {f : α → Option β} {as : List α} {bs : List β}
    (h : as.mapM f = some bs) : List.Forall₂ (fun a b => f a = some b) as bs := by
  induction as generalizing bs with
  | nil =>
    obtain rfl : [] = bs := by simpa using h
    exact .nil
  | cons a as ih =>
    simp only [List.mapM_cons, Option.bind_eq_bind, Option.bind_eq_some_iff] at h
    obtain ⟨b, hb, bs', hbs', hcons⟩ := h
    obtain rfl : b :: bs' = bs := by simpa using hcons
    exact .cons hb (ih hbs')

/-- What is selected and then scanned. -/
lemma forall₂_reads {select : List (Expr J)} {ds : List (Datum J)} {kinds : List Kind}
    {args : List Arg} (hselect : List.Forall₂ (fun e d => e.eval json row = some d) select ds)
    (hscan : List.Forall₂ Scans (kinds.zip ds) args) :
    List.Forall₂ (Reads json row) (select.zip kinds) args := by
  induction hselect generalizing kinds args with
  | nil =>
    rw [List.zip_nil_right] at hscan
    cases hscan
    exact .nil
  | cons heval _ ih =>
    cases kinds with
    | nil => simpa using hscan
    | cons k kinds =>
      rw [List.zip_cons_cons] at hscan ⊢
      cases hscan with
      | cons harg hrest =>
        refine .cons ?_ (ih hrest)
        rw [Reads, heval]
        exact harg

lemma Layout.reads (l : Layout J T) {r : T} (h : record json l.select l.scan row = some r) :
    List.Forall₂ (Reads json row) (l.select.zip l.kinds) (l.values r) := by
  obtain ⟨ds, hselect, hscan⟩ := Option.bind_eq_some_iff.mp h
  exact forall₂_reads (forall₂_of_mapM hselect) (l.scans hscan)

/-- **One row goes through.** -/
lemma Layout.exists_row (l : Layout J T) {r r' : T} (hrow : Sql.WellTyped l.columns row)
    (hepoch : ∀ c ∈ l.columns, c.name ∈ instantColumns → row c.name ≠ epochDatum)
    (hrecord : record json l.select l.scan row = some r) (hsame : l.same r r') :
    ∃ row', l.insert.row json l.columns (l.values r') = some row' ∧
      SameRow l.columns row row' := by
  -- the argument of each parameter has the value of its column
  have hargs : List.Forall₂ (Bound json l.columns fun name d =>
      ∃ c, l.columns.find? (·.name = name) = some c ∧ SameColumn c (row name) d)
      l.insert (l.values r') := by
    refine forall₂_comp ?_ l.agrees
      (forall₂_comp (Q := fun p a' => ∃ a, Reads json row p a ∧ SameArg a a') ?_
        (l.reads hrecord) (l.values_same hsame))
    · rintro param p a' ⟨c, hfind, hcast, hfits⟩ ⟨a, hread, ha⟩
      have hname : c.name = param.1 := by simpa using List.find?_some hfind
      have hmem := List.mem_of_find?_eq_some hfind
      obtain ⟨d, hbind, hd⟩ := hfits.bind (hrow c hmem).1 (hepoch c hmem) hread ha
      exact ⟨c, d, hfind, hcast, hbind, c, hfind, hname ▸ hd⟩
    · exact fun p a a' hread ha => ⟨a, hread, ha⟩
  have hnull : ∀ c ∈ l.columns, c.notNull = true → ¬∃ c',
      l.columns.find? (·.name = c.name) = some c' ∧ SameColumn c' (row c.name) .null := by
    rintro c hc hnot ⟨c', hfind, hc'⟩
    obtain rfl : c = c' := Option.some.inj ((l.covers c hc).2.symm.trans hfind)
    rcases hc' with hnull | ⟨-, hnull, -⟩
    · exact (hrow c hc).2 hnot hnull
    · simp [hnot] at hnull
  obtain ⟨row', hinsert, hrow'⟩ :=
    Insert.exists_row hargs (fun c hc => (l.covers c hc).1) hnull
  refine ⟨row', hinsert, fun c hc => ?_⟩
  obtain ⟨c', hfind, hc'⟩ := hrow' c hc
  obtain rfl : c = c' := Option.some.inj ((l.covers c hc).2.symm.trans hfind)
  exact hc'

/-! ## The three tables -/

/-- `write_intents`. -/
def intentLayout : Layout J IntentRecord where
  columns := intentColumns
  select := selectIntents
  scan := scanIntent
  insert := insertIntent
  values := intentValues
  same := IntentRecord.Same
  kinds := [.text, .text, .text, .text, .text, .text, .text, .texts, .text, .time, .timePtr,
    .timePtr]
  agrees := by
    refine .cons ⟨_, rfl, rfl, .asText⟩ <| .cons ⟨_, rfl, rfl, .text⟩ <|
      .cons ⟨_, rfl, rfl, .asText⟩ <| .cons ⟨_, rfl, rfl, .text⟩ <|
      .cons ⟨_, rfl, rfl, .text⟩ <| .cons ⟨_, rfl, rfl, .text⟩ <|
      .cons ⟨_, rfl, rfl, .asText⟩ <| .cons ⟨_, rfl, rfl, .blankTexts (by decide)⟩ <|
      .cons ⟨_, rfl, rfl, .asText⟩ <| .cons ⟨_, rfl, rfl, .time⟩ <|
      .cons ⟨_, rfl, rfl, .timePtr (by decide)⟩ <|
      .cons ⟨_, rfl, rfl, .timePtr (by decide)⟩ .nil
  covers := by decide
  scans := by
    intro ds r h
    unfold scanIntent at h
    split at h
    · iterate 12 obtain ⟨_, _, h⟩ := Option.bind_eq_some_iff.mp h
      obtain rfl := Option.some.inj h
      simp [intentValues, Scans, Kind.arg, *]
    · cases h
  values_same := by
    rintro r r' ⟨scope, rfl, hscope⟩
    simp [intentValues, SameArg, hscope]

/-- `conflicts`. -/
def conflictLayout : Layout J ConflictRecord where
  columns := conflictColumns
  select := selectConflicts
  scan := scanConflict
  insert := insertConflict
  values := conflictValues
  same := Eq
  kinds := [.text, .text, .text, .text, .text, .text, .text, .text, .text, .text, .time]
  agrees := by
    refine .cons ⟨_, rfl, rfl, .asText⟩ <| .cons ⟨_, rfl, rfl, .asText⟩ <|
      .cons ⟨_, rfl, rfl, .asText⟩ <| .cons ⟨_, rfl, rfl, .text⟩ <|
      .cons ⟨_, rfl, rfl, .text⟩ <| .cons ⟨_, rfl, rfl, .text⟩ <|
      .cons ⟨_, rfl, rfl, .text⟩ <| .cons ⟨_, rfl, rfl, .text⟩ <|
      .cons ⟨_, rfl, rfl, .asText⟩ <| .cons ⟨_, rfl, rfl, .blankText (by decide)⟩ <|
      .cons ⟨_, rfl, rfl, .time⟩ .nil
  covers := by decide
  scans := by
    intro ds r h
    unfold scanConflict at h
    split at h
    · iterate 11 obtain ⟨_, _, h⟩ := Option.bind_eq_some_iff.mp h
      obtain rfl := Option.some.inj h
      simp [conflictValues, Scans, Kind.arg, *]
    · cases h
  values_same := by
    rintro r _ rfl
    exact List.forall₂_same.mpr fun _ _ => .inl rfl

/-- `payload_access_audit`. -/
def auditLayout : Layout J AuditRecord where
  columns := auditColumns
  select := selectAudit
  scan := scanAuditRow
  insert := insertAudit
  values := auditValues
  same := AuditRecord.Same
  kinds := [.text, .text, .text, .text, .text, .int32, .texts, .text, .time]
  agrees := by
    refine .cons ⟨_, rfl, rfl, .asText⟩ <| .cons ⟨_, rfl, rfl, .text⟩ <|
      .cons ⟨_, rfl, rfl, .text⟩ <| .cons ⟨_, rfl, rfl, .text⟩ <|
      .cons ⟨_, rfl, rfl, .asText⟩ <| .cons ⟨_, rfl, rfl, .int32⟩ <|
      .cons ⟨_, rfl, rfl, .blankUuids (by decide)⟩ <|
      .cons ⟨_, rfl, rfl, .blankText (by decide)⟩ <| .cons ⟨_, rfl, rfl, .time⟩ .nil
  covers := by decide
  scans := by
    intro ds r h
    unfold scanAuditRow at h
    split at h
    · iterate 9 obtain ⟨_, _, h⟩ := Option.bind_eq_some_iff.mp h
      obtain rfl := Option.some.inj h
      simp [auditValues, Scans, Kind.arg, *]
    · cases h
  values_same := by
    rintro r r' ⟨ids, rfl, hids⟩
    simp [auditValues, SameArg, hids]

/-! ## Statements -/

variable {fault : Fault} {statement : Catalog J → Option (Catalog J)} {db db' : Catalog J}

lemma exec_true_iff :
    exec fault statement db = (true, db') ↔ fault = .none ∧ statement db = some db' := by
  unfold exec
  cases fault <;> cases hdb : statement db <;> simp

variable {into table : String} {relation : Relation J}

lemma createLike_eq_some_iff :
    createLike into table db = some db' ↔ db into = none ∧ ∃ like, db table = some like ∧
      db' = Function.update db into (some ⟨like.columns, []⟩) := by
  unfold createLike
  cases hinto : db into <;> cases htable : db table <;> simp [eq_comm]

lemma insertRow_of_eq_some {insert : Insert} {args : List Arg} (hinto : db into = some relation)
    (h : insertRow json into insert args db = some db') :
    ∃ row, insert.row json relation.columns args = some row ∧
      db' = Function.update db into (some { relation with rows := relation.rows ++ [row] }) := by
  simp only [insertRow, hinto, Option.bind_eq_bind, Option.bind_some, Option.bind_eq_some_iff,
    Option.pure_def, Option.some.injEq] at h
  obtain ⟨row, hrow, rfl⟩ := h
  exact ⟨row, hrow, rfl⟩

/-- **The loop inserts one row after the other.** -/
lemma insertRows_of_eq_true {faults : ℕ → Fault} {insert : Insert} {i : ℕ}
    {argss : List (List Arg)} (hinto : db into = some relation)
    (h : insertRows faults json into insert i argss db = (true, db')) :
    ∃ rows, List.Forall₂ (fun args row => insert.row json relation.columns args = some row)
        argss rows ∧
      db' = Function.update db into (some { relation with rows := relation.rows ++ rows }) := by
  induction argss generalizing db relation i with
  | nil =>
    obtain rfl : db = db' := by simpa [insertRows] using h
    refine ⟨[], .nil, ?_⟩
    rw [List.append_nil, ← hinto, Function.update_eq_self]
  | cons args argss ih =>
    rw [insertRows] at h
    cases hexec : exec (faults i) (insertRow json into insert args) db with
    | mk ok mid =>
      cases ok with
      | false => simp [hexec] at h
      | true =>
        simp only [hexec] at h
        obtain ⟨row, hrow, rfl⟩ := insertRow_of_eq_some hinto (exec_true_iff.mp hexec).2
        obtain ⟨rows, hrows, rfl⟩ := ih (Function.update_self ..) h
        refine ⟨row :: rows, .cons hrow hrows, ?_⟩
        simp

/-! ## The round trip -/

/-- **The rows of one table go through.** -/
lemma Layout.restoreRows_of_ok (l : Layout J T) {codec : Codec B T l.same} {faults : ℕ → Fault}
    {rows : List (Row J)} {records : List T} {body : B} {n : ℕ}
    (hrows : ∀ row ∈ rows, Sql.WellTyped l.columns row)
    (hepoch : ∀ row ∈ rows, ∀ c ∈ l.columns, c.name ∈ instantColumns → row c.name ≠ epochDatum)
    (hrecords : rows.mapM (record json l.select l.scan) = some records)
    (hwrite : codec.write records = some body) (hinto : db into = some ⟨l.columns, []⟩)
    (h : restoreRows codec faults json body into l.insert l.values db = (.ok n, db')) :
    ∃ rows', db' = Function.update db into (some ⟨l.columns, rows'⟩) ∧ rows'.length = n ∧
      List.Forall₂ (SameRow l.columns) rows rows' := by
  obtain ⟨records', hread, hsame⟩ := codec.lossless hwrite
  simp only [restoreRows, hread] at h
  cases hinsert : insertRows faults json into l.insert 1 (records'.map l.values) db with
  | mk ok last =>
    cases ok with
    | false => simp [hinsert] at h
    | true =>
      simp only [hinsert, Prod.mk.injEq, Except.ok.injEq] at h
      obtain ⟨rfl, rfl⟩ := h
      obtain ⟨rows', hrows', rfl⟩ := insertRows_of_eq_true hinto hinsert
      refine ⟨rows', rfl, by simpa using hrows'.length_eq.symm, ?_⟩
      rw [List.forall₂_map_left_iff] at hrows'
      -- each row has its record, what is read again of that, and what is inserted of it
      have hrecord := (List.forall₂_and_left rows records).mpr
        ⟨fun row hrow => hrow, forall₂_of_mapM hrecords⟩
      refine forall₂_comp ?_ hrecord (forall₂_comp
        (Q := fun r row' => ∃ r', l.same r r' ∧
          l.insert.row json l.columns (l.values r') = some row')
        (fun r r' row' hr hr' => ⟨r', hr, hr'⟩) hsame hrows')
      rintro row r row' ⟨hmem, hr⟩ ⟨r', hsame, hrow'⟩
      obtain ⟨row'', hrow'', hsameRow⟩ := l.exists_row (hrows row hmem) (hepoch row hmem) hr hsame
      obtain rfl : row'' = row' := Option.some.inj (hrow''.symm.trans hrow')
      exact hsameRow

/-- A `Restore` that returns without an error has created the table. -/
lemma restore_of_ok {f : Formats J B} {env : Surroundings B} {partition : String} {body : B}
    {n : ℕ} (hget : env.get (objectPath table partition) = some body)
    (h : restore f env table partition into db = (.ok n, db')) :
    ∃ mid, createLike into table db = some mid ∧
      restoreInto f env table body into mid = (.ok n, db') := by
  simp only [restore, hget] at h
  cases hcreate : exec (env.faults 0) (createLike into table) db with
  | mk ok mid =>
    cases ok with
    | false => simp [hcreate] at h
    | true =>
      simp only [hcreate] at h
      exact ⟨mid, (exec_true_iff.mp hcreate).2, h⟩

/-- **`Restore` undoes `Archive`.** Take the rows of a partition of one of the three tables, in none
of which `published_at` or `voided_at` is the Unix epoch. If `Archive` has read them in some order
and written its object, and a `Restore` from that object returns `n` without an error, it has
created a table with `n` rows, and up to the order these are the rows of the partition. -/
theorem restore_undoes_archive (f : Formats J B) (env : Surroundings B) (t : Table)
    {partition into : String} {rows scanned : List (Row J)} {body : B} {db db' : Catalog J}
    {like : Relation J} {n : ℕ} (hrows : ∀ row ∈ rows, Sql.WellTyped (columns t) row)
    (hepoch : ∀ row ∈ rows, ∀ c ∈ columns t, c.name ∈ instantColumns → row c.name ≠ epochDatum)
    (hscanned : scanned.Perm rows) (harchive : exportRows f scanned t = some body)
    (hget : env.get (objectName t partition) = some body)
    (hlike : db t.name = some like) (hcolumns : like.columns = columns t)
    (h : restore f env t.name partition into db = (.ok n, db')) :
    ∃ rows' order, db' = Function.update db into (some ⟨columns t, rows'⟩) ∧ rows'.length = n ∧
      order.Perm rows ∧ List.Forall₂ (SameRow (columns t)) order rows' := by
  obtain ⟨mid, hcreate, hinto⟩ := restore_of_ok hget h
  obtain ⟨-, like', hlike', rfl⟩ := createLike_eq_some_iff.mp hcreate
  obtain rfl : like = like' := Option.some.inj (hlike.symm.trans hlike')
  rw [hcolumns] at hinto
  have hrows' : ∀ row ∈ scanned, Sql.WellTyped (columns t) row := fun row hrow =>
    hrows row (hscanned.mem_iff.mp hrow)
  have hepoch' := fun row hrow => hepoch row (hscanned.mem_iff.mp hrow)
  suffices hlast : ∃ rows', db' = Function.update
      (Function.update db into (some ⟨columns t, []⟩)) into (some ⟨columns t, rows'⟩) ∧
      rows'.length = n ∧ List.Forall₂ (SameRow (columns t)) scanned rows' by
    obtain ⟨rows', hdb, hlength, hsame⟩ := hlast
    rw [Function.update_idem] at hdb
    exact ⟨rows', scanned, hdb, hlength, hscanned, hsame⟩
  cases t with
  | writeIntents =>
    obtain ⟨records, hrecords, hwrite⟩ := Option.bind_eq_some_iff.mp harchive
    exact intentLayout.restoreRows_of_ok hrows' hepoch' hrecords hwrite
      (Function.update_self ..) hinto
  | conflicts =>
    obtain ⟨records, hrecords, hwrite⟩ := Option.bind_eq_some_iff.mp harchive
    exact conflictLayout.restoreRows_of_ok hrows' hepoch' hrecords hwrite
      (Function.update_self ..) hinto
  | payloadAccessAudit =>
    obtain ⟨records, hrecords, hwrite⟩ := Option.bind_eq_some_iff.mp harchive
    exact auditLayout.restoreRows_of_ok hrows' hepoch' hrecords hwrite
      (Function.update_self ..) hinto

/-- A row of `write_intents` that was neither published nor voided. -/
def sampleRow : Row Text := fun name =>
  match name with
  | "intent_id" => .uuid 1
  | "agent_id" => .text (utf8 "agent")
  | "idempotency_key" => .uuid 2
  | "resource_type" => .text (utf8 "invoice")
  | "resource_id" => .text (utf8 "inv_1")
  | "operation" => .text (utf8 "cancel")
  | "operation_class" => .label (utf8 "mutate")
  | "payload" => .jsonb []
  | "emitted_at" => .timestamptz 0
  | _ => .null

/-- A row of `conflicts`, with or without the version of the manifest. -/
def sampleConflict (id : ℕ) (version : Datum Text) : Row Text := fun name =>
  match name with
  | "conflict_id" => .uuid id
  | "intent_id_a" => .uuid 1
  | "intent_id_b" => .uuid 3
  | "agent_id_a" => .text (utf8 "agent")
  | "agent_id_b" => .text (utf8 "other")
  | "resource_type" => .text (utf8 "invoice")
  | "resource_id" => .text (utf8 "inv_1")
  | "reason" => .text (utf8 "mutate/delete")
  | "resolution" => .label (utf8 "observed")
  | "detected_at" => .timestamptz 7
  | "manifest_version" => version
  | _ => .null

/-- Two rows of `conflicts`. -/
def sampleConflicts : List (Row Text) :=
  [sampleConflict 4 (.text (utf8 "1")), sampleConflict 5 .null]

/-- The records of an object. -/
abbrev SampleBody := List IntentRecord ⊕ List ConflictRecord

/-- Encodings that keep everything. -/
def sampleFormats : Formats Text SampleBody where
  json := ⟨id, some, fun _ => rfl⟩
  intents := ⟨fun rows => some (.inl rows), Sum.getLeft?, fun {rows body} h =>
    ⟨rows, Option.some.inj h ▸ rfl, List.forall₂_same.mpr fun r _ => ⟨r.scopeSelector, rfl, rfl⟩⟩⟩
  conflicts := ⟨fun rows => some (.inr rows), Sum.getRight?, fun {rows body} h =>
    ⟨rows, Option.some.inj h ▸ rfl, List.forall₂_same.mpr fun _ _ => rfl⟩⟩
  audit := ⟨fun _ => none, fun _ => none, fun h => by cases h⟩

/-- A database with two of the tables. -/
def sampleCatalog : Catalog Text := fun name =>
  if name = "write_intents" then some ⟨intentColumns, []⟩
  else if name = "conflicts" then some ⟨conflictColumns, []⟩
  else none

/-- The objects of the rows. -/
def sampleObjects : String → Option SampleBody := fun name =>
  if name = "write_intents/write_intents_20260105.parquet" then
    exportRows sampleFormats [sampleRow] .writeIntents
  else if name = "conflicts/conflicts_20260105.parquet" then
    exportRows sampleFormats sampleConflicts .conflicts
  else none

/-- A `Restore` of the intent, with these faults. -/
def sampleRestore (faults : ℕ → Fault) (db : Catalog Text) :
    Except RestoreError ℕ × Catalog Text :=
  restore sampleFormats ⟨sampleObjects, faults⟩ "write_intents" "write_intents_20260105" "restored"
    db

/-- A `Restore` of the conflicts. -/
def sampleRestoreConflicts (db : Catalog Text) : Except RestoreError ℕ × Catalog Text :=
  restore sampleFormats ⟨sampleObjects, fun _ => .none⟩ "conflicts" "conflicts_20260105" "again" db

/-- A restored intent that was neither published nor voided, and after it two conflicts, one of
which has no version of the manifest. -/
theorem restore_undoes_archive_sample :
    (∃ rows' order, (sampleRestore (fun _ => .none) sampleCatalog).2 =
        Function.update sampleCatalog "restored" (some ⟨intentColumns, rows'⟩) ∧
      rows'.length = 1 ∧ order.Perm [sampleRow] ∧
      List.Forall₂ (SameRow intentColumns) order rows') ∧
    ∃ rows' order, (sampleRestoreConflicts (sampleRestore (fun _ => .none) sampleCatalog).2).2 =
        Function.update (sampleRestore (fun _ => .none) sampleCatalog).2 "again"
          (some ⟨conflictColumns, rows'⟩) ∧
      rows'.length = 2 ∧ order.Perm sampleConflicts ∧
      List.Forall₂ (SameRow conflictColumns) order rows' := by
  constructor
  · have htyped : ∀ row ∈ [sampleRow], Sql.WellTyped (columns .writeIntents) row := by
      simp [Sql.WellTyped, columns, intentColumns, sampleRow, Datum.HasType, operationClass]
    have hepoch : ∀ row ∈ [sampleRow], ∀ c ∈ columns .writeIntents, c.name ∈ instantColumns →
        row c.name ≠ epochDatum := by
      simp [columns, intentColumns, instantColumns, sampleRow, epochDatum]
    have hrestore : sampleRestore (fun _ => .none) sampleCatalog =
        (.ok 1, (sampleRestore (fun _ => .none) sampleCatalog).2) := Prod.ext rfl rfl
    exact restore_undoes_archive sampleFormats ⟨sampleObjects, fun _ => .none⟩ .writeIntents htyped
      hepoch (List.Perm.refl _) rfl rfl rfl rfl hrestore
  · have htyped : ∀ row ∈ sampleConflicts, Sql.WellTyped (columns .conflicts) row := by
      simp [sampleConflicts, Sql.WellTyped, columns, conflictColumns, sampleConflict,
        Datum.HasType, conflictResolution]
    have hepoch : ∀ row ∈ sampleConflicts, ∀ c ∈ columns .conflicts, c.name ∈ instantColumns →
        row c.name ≠ epochDatum := by
      simp [sampleConflicts, columns, conflictColumns, instantColumns, epochDatum]
    generalize hdb : (sampleRestore (fun _ => .none) sampleCatalog).2 = db
    have hlike : db "conflicts" = some ⟨conflictColumns, []⟩ := by rw [← hdb]; rfl
    have hrestore : sampleRestoreConflicts db = (.ok 2, (sampleRestoreConflicts db).2) := by
      rw [← hdb]
      exact Prod.ext rfl rfl
    exact restore_undoes_archive sampleFormats ⟨sampleObjects, fun _ => .none⟩ .conflicts htyped
      hepoch (List.Perm.refl _) rfl rfl hlike rfl hrestore

/-! ## Failures -/

lemma exec_of_eq_none (h : statement db = none) : exec fault statement db = (false, db) := by
  cases fault <;> simp [exec, h]

lemma exec_of_eq_some (h : statement db = some db') (hfault : fault ≠ .failed) :
    exec fault statement db = (decide (fault = .none), db') := by
  cases fault <;> simp_all [exec]

/-- A table that is there stays there, if the statement keeps it. -/
lemma exec_ne_none (hkeeps : ∀ db', statement db = some db' → db' into ≠ none)
    (hinto : db into ≠ none) : (exec fault statement db).2 into ≠ none := by
  cases hdb : statement db with
  | none => rwa [exec_of_eq_none hdb]
  | some db' =>
    by_cases hfault : fault = .failed
    · simpa [exec, hfault] using hinto
    · rw [exec_of_eq_some hdb hfault]
      exact hkeeps db' hdb

lemma insertRow_ne_none {insert : Insert} {args : List Arg} (hinto : db into ≠ none)
    (h : insertRow json into insert args db = some db') : db' into ≠ none := by
  obtain ⟨relation, hrelation⟩ := Option.ne_none_iff_exists'.mp hinto
  obtain ⟨row, -, rfl⟩ := insertRow_of_eq_some hrelation h
  simp

/-- The loop keeps the table, wherever it stops. -/
lemma insertRows_ne_none {faults : ℕ → Fault} {insert : Insert} (i : ℕ) (argss : List (List Arg))
    (hinto : db into ≠ none) : (insertRows faults json into insert i argss db).2 into ≠ none := by
  induction argss generalizing db i with
  | nil => exact hinto
  | cons args argss ih =>
    have hexec : (exec (faults i) (insertRow json into insert args) db).2 into ≠ none :=
      exec_ne_none (fun _ h => insertRow_ne_none hinto h) hinto
    rw [insertRows]
    split
    · next hfalse => simpa [hfalse] using hexec
    · next htrue => exact ih (i + 1) (by simpa [htrue] using hexec)

lemma restoreRows_ne_none {same : T → T → Prop} {codec : Codec B T same} {faults : ℕ → Fault}
    {body : B} {insert : Insert} {values : T → List Arg} (hinto : db into ≠ none) :
    (restoreRows codec faults json body into insert values db).2 into ≠ none := by
  unfold restoreRows
  split
  · exact hinto
  · next rows _ =>
    have hrows : (insertRows faults json into insert 1 (rows.map values) db).2 into ≠ none :=
      insertRows_ne_none 1 (rows.map values) hinto
    split <;> next hlast => simpa [hlast] using hrows

lemma restoreInto_ne_none {f : Formats J B} {env : Surroundings B} {body : B}
    (hinto : db into ≠ none) : (restoreInto f env table body into db).2 into ≠ none := by
  unfold restoreInto
  split_ifs
  · exact restoreRows_ne_none hinto
  · exact restoreRows_ne_none hinto
  · exact restoreRows_ne_none hinto
  · exact hinto

variable {f : Formats J B} {env : Surroundings B} {partition : String}

/-- The table was created: the object was fetched, the statement went through, and it was not one
that failed without effect. -/
def Created (env : Surroundings B) (table partition into : String) (db : Catalog J) : Prop :=
  env.get (objectPath table partition) ≠ none ∧ env.faults 0 ≠ .failed ∧
    createLike into table db ≠ none

/-- Before the table is created, nothing is. -/
lemma restore_of_not_created (h : ¬Created env table partition into db) :
    ∃ e, restore f env table partition into db = (.error e, db) := by
  unfold restore
  cases hget : env.get (objectPath table partition) with
  | none => exact ⟨.fetch, rfl⟩
  | some body =>
    have hexec : exec (env.faults 0) (createLike into table) db = (false, db) := by
      cases hcreate : createLike into table db with
      | none => exact exec_of_eq_none hcreate
      | some mid =>
        have hfault : env.faults 0 = .failed := by
          by_contra hfault
          exact h ⟨by simp [hget], hfault, by simp [hcreate]⟩
        simp [exec, hfault]
    simp only [hexec]
    exact ⟨.create, rfl⟩

/-- Once the table is created, it stays. -/
lemma restore_ne_none (h : Created env table partition into db) :
    db into = none ∧ (restore f env table partition into db).2 into ≠ none := by
  obtain ⟨hget, hfault, hcreate⟩ := h
  obtain ⟨body, hbody⟩ := Option.ne_none_iff_exists'.mp hget
  obtain ⟨mid, hmid⟩ := Option.ne_none_iff_exists'.mp hcreate
  obtain ⟨hnone, like, -, rfl⟩ := createLike_eq_some_iff.mp hmid
  refine ⟨hnone, ?_⟩
  simp only [restore, hbody, exec_of_eq_some hmid hfault]
  split
  · next heq =>
    obtain rfl := (Prod.mk.inj heq).2
    simp
  · next heq =>
    obtain rfl := (Prod.mk.inj heq).2
    exact restoreInto_ne_none (by simp)

/-- A table that is there is not created. -/
lemma not_created_of_ne_none (hinto : db into ≠ none) : ¬Created env table partition into db := by
  rintro ⟨-, -, hcreate⟩
  obtain ⟨mid, hmid⟩ := Option.ne_none_iff_exists'.mp hcreate
  exact hinto (createLike_eq_some_iff.mp hmid).1

/-- **Which failed `Restore` leaves the database as it was.** A `Restore` that returns an error has
changed nothing, and can be repeated as if it had not been made, exactly if it has not come to
create its table. Otherwise the table stays, and every other `Restore` into it fails. -/
theorem restore_error_iff {e : RestoreError} {db' : Catalog J}
    (h : restore f env table partition into db = (.error e, db')) :
    ((db' = db ∧ ∀ env' n last, restore f env' table partition into db = (.ok n, last) →
        restore f env' table partition into db' = (.ok n, last)) ↔
      ¬Created env table partition into db) ∧
    (Created env table partition into db →
      ∀ env', ∃ e', restore f env' table partition into db' = (.error e', db')) := by
  by_cases hcreated : Created env table partition into db
  · obtain ⟨hnone, hsome⟩ := restore_ne_none (f := f) hcreated
    rw [h] at hsome
    refine ⟨iff_of_false ?_ (not_not.mpr hcreated), fun _ env' => ?_⟩
    · rintro ⟨rfl, -⟩
      exact hsome hnone
    · exact restore_of_not_created (not_created_of_ne_none hsome)
  · obtain ⟨e', hunchanged⟩ := restore_of_not_created (f := f) hcreated
    obtain rfl : db = db' := (Prod.mk.inj (hunchanged.symm.trans h)).2
    exact ⟨iff_of_true ⟨rfl, fun _ _ _ h => h⟩ hcreated, fun h => absurd h hcreated⟩

/-- The first `INSERT` fails. -/
def insertFails : ℕ → Fault := fun i => if i = 1 then .failed else .none

/-- **The counterexample.** An `INSERT` fails. The table is left behind, and the same `Restore`
without the fault fails on it, which on the database as it was succeeds. -/
theorem restore_leaves_table :
    (sampleRestore insertFails sampleCatalog).1 = .error .insert ∧
      (sampleRestore insertFails sampleCatalog).2 ≠ sampleCatalog ∧
      (sampleRestore (fun _ => .none) (sampleRestore insertFails sampleCatalog).2).1 =
        .error .create ∧
      (sampleRestore (fun _ => .none) sampleCatalog).1 = .ok 1 := by
  refine ⟨rfl, fun heq => ?_, rfl, rfl⟩
  have hinto : ((sampleRestore insertFails sampleCatalog).2 "restored").isSome = true := rfl
  rw [heq] at hinto
  exact absurd hinto (by decide)

/-- A `CREATE TABLE` that fails leaves everything as it was. -/
theorem restore_error_iff_create_fails :
    (sampleRestore (fun _ => .failed) sampleCatalog).1 = .error .create ∧
      ∀ env' n last, restore sampleFormats env' "write_intents" "write_intents_20260105" "restored"
          sampleCatalog = (.ok n, last) →
        restore sampleFormats env' "write_intents" "write_intents_20260105" "restored"
          (sampleRestore (fun _ => .failed) sampleCatalog).2 = (.ok n, last) := by
  have hfails : sampleRestore (fun _ => .failed) sampleCatalog =
      (.error .create, (sampleRestore (fun _ => .failed) sampleCatalog).2) := Prod.ext rfl rfl
  exact ⟨rfl, ((restore_error_iff hfails).1.mpr (by simp [Created])).2⟩

end Idemio.Archive
