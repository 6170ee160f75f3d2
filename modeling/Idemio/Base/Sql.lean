import Idemio.Base.Uuid
import Mathlib.Data.List.Basic
import Mathlib.Tactic.Lemma

set_option relaxedAutoImplicit false
set_option autoImplicit false

/-!
# Rows of a database and the values of a program

The columns of a table with their types, the rows of a table, the expressions that a query selects,
and the two ways between them and the values of a program: scanning the columns of a result into
variables, and binding arguments to the parameters of an `INSERT`.

Both ways are by position. The columns of a table are by name, so whether a value that is read from
one column and written again ends up in the same one depends on four lists that have to agree.

## Main definitions

* `Sql.ColumnType`, `Sql.Datum`, `Sql.Column`, `Sql.WellTyped` — columns and rows.
* `Sql.Expr.eval` — what a query selects.
* `Sql.scanText`, `Sql.scanTexts`, `Sql.scanTime`, `Sql.scanTimePtr`, `Sql.scanInt32` — scanning.
* `Sql.Arg.bind`, `Sql.Insert.row` — binding and inserting.

## Main results

* `Sql.bind_uuid`, `Sql.bind_label`, `Sql.bind_jsonb`, `Sql.bind_time` and so on — a value that was
  read from a column of a type and is bound to a parameter of that type is the value of the column.
-/

namespace Sql

/-- A text, by its bytes. -/
abbrev Text := List UInt8

/-! ## Columns and rows -/

/-- The type of a column. -/
inductive ColumnType
  | uuid
  | text
  | textArray
  | uuidArray
  | jsonb
  | integer
  | timestamptz
  | enum (labels : List Text)
  deriving DecidableEq

/-- A value in a column, over the values `J` of `jsonb`. An instant is a number of microseconds
since 2000. -/
inductive Datum (J : Type)
  | null
  | uuid (n : ℕ)
  | text (t : Text)
  | textArray (ts : List (Option Text))
  | uuidArray (ns : List (Option ℕ))
  | jsonb (j : J)
  | integer (n : Int32)
  | timestamptz (micros : Int64)
  | label (t : Text)

/-- How `jsonb` is printed and read. -/
structure JsonFormat (J : Type) where
  print : J → Text
  parse : Text → Option J
  parse_print : ∀ j, parse (print j) = some j

variable {J : Type}

/-- The value is one of the type. -/
def Datum.HasType : Datum J → ColumnType → Prop
  | .null, _ => True
  | .uuid n, .uuid => n < 2 ^ 128
  | .text _, .text => True
  | .textArray _, .textArray => True
  | .uuidArray ns, .uuidArray => ∀ n, some n ∈ ns → n < 2 ^ 128
  | .jsonb _, .jsonb => True
  | .integer _, .integer => True
  | .timestamptz _, .timestamptz => True
  | .label t, .enum labels => t ∈ labels
  | _, _ => False

/-- A column of a table. -/
structure Column where
  name : String
  type : ColumnType
  notNull : Bool
  deriving DecidableEq

/-- A row, by the names of the columns. -/
abbrev Row (J : Type) := String → Datum J

/-- The row is one of a table with these columns. -/
def WellTyped (columns : List Column) (row : Row J) : Prop :=
  ∀ c ∈ columns, (row c.name).HasType c.type ∧ (c.notNull = true → row c.name ≠ .null)

/-! ## Queries -/

/-- An expression that a query selects. -/
inductive Expr (J : Type)
  | column (name : String)
  | asText (e : Expr J)
  | asTextArray (e : Expr J)
  | coalesce (e : Expr J) (default : Datum J)

/-- The cast `::text`, for the types that it is used on. -/
def castText (json : JsonFormat J) : Datum J → Option (Datum J)
  | .null => some .null
  | .uuid n => some (.text (Uuid.text n))
  | .text t => some (.text t)
  | .jsonb j => some (.text (json.print j))
  | .label t => some (.text t)
  | _ => none

/-- The cast `::text[]`. -/
def castTextArray : Datum J → Option (Datum J)
  | .null => some .null
  | .textArray ts => some (.textArray ts)
  | .uuidArray ns => some (.textArray (ns.map (Option.map Uuid.text)))
  | _ => none

/-- The function `coalesce`. -/
def Datum.orElse : Datum J → Datum J → Datum J
  | .null, default => default
  | d, _ => d

/-- The value of an expression in a row. -/
def Expr.eval (json : JsonFormat J) (row : Row J) : Expr J → Option (Datum J)
  | .column name => some (row name)
  | .asText e => (e.eval json row).bind (castText json)
  | .asTextArray e => (e.eval json row).bind castTextArray
  | .coalesce e default => (e.eval json row).map (·.orElse default)

/-! ## Scanning -/

/-- Into a `string`. -/
def scanText : Datum J → Option Text
  | .text t => some t
  | _ => none

/-- Into a `[]string`, which may be nil. -/
def scanTexts : Datum J → Option (Option (List Text))
  | .null => some none
  | .textArray ts => (ts.mapM id).map some
  | _ => none

/-- Into an `int32`. -/
def scanInt32 : Datum J → Option Int32
  | .integer n => some n
  | _ => none

/-- The instant 2000-01-01 in microseconds since the epoch. -/
def epochToY2K : ℤ := 946684800000000

/-- The instant of a column, in microseconds since the epoch. The two values at the ends are the
infinities, which are no instants. -/
def instant (micros : Int64) : Option ℤ :=
  if micros = Int64.minValue ∨ micros = Int64.maxValue then none
  else some (micros.toInt + epochToY2K)

/-- Into a `time.Time`. -/
def scanTime : Datum J → Option ℤ
  | .timestamptz micros => instant micros
  | _ => none

/-- Into a `*time.Time`. -/
def scanTimePtr : Datum J → Option (Option ℤ)
  | .null => some none
  | .timestamptz micros => (instant micros).map some
  | _ => none

/-! ## Inserting -/

/-- An argument of a statement. -/
inductive Arg
  | string (t : Text)
  | strings (ts : Option (List Text))
  | int32 (n : Int32)
  | time (t : ℤ)
  | timePtr (t : Option ℤ)

/-- An instant as it is stored, in 64-bit arithmetic. -/
def storedInstant (t : ℤ) : Int64 := Int64.ofInt t - Int64.ofInt epochToY2K

/-- The value of an argument for a parameter of a type. -/
def Arg.bind (json : JsonFormat J) : Arg → ColumnType → Option (Datum J)
  | .string t, .uuid => (Uuid.parse t).map .uuid
  | .string t, .text => some (.text t)
  | .string t, .jsonb => (json.parse t).map .jsonb
  | .string t, .enum labels => if t ∈ labels then some (.label t) else none
  | .strings none, _ => some .null
  | .strings (some ts), .textArray => some (.textArray (ts.map some))
  | .strings (some ts), .uuidArray => (ts.mapM Uuid.parse).map fun ns => .uuidArray (ns.map some)
  | .int32 n, .integer => some (.integer n)
  | .time t, .timestamptz => some (.timestamptz (storedInstant t))
  | .timePtr none, _ => some .null
  | .timePtr (some t), .timestamptz => some (.timestamptz (storedInstant t))
  | _, _ => none

/-- An `INSERT` of one row: its columns, each with the cast of its parameter, if there is one. -/
abbrev Insert := List (String × Option ColumnType)

/-- The values of the arguments. Without a cast a parameter has the type of its column. -/
def Insert.bind (json : JsonFormat J) (columns : List Column) :
    Insert → List Arg → Option (List (String × Datum J))
  | [], [] => some []
  | (name, cast) :: insert, arg :: args => do
    let column ← columns.find? (·.name = name)
    if cast.getD column.type = column.type then
      let datum ← arg.bind json column.type
      let rest ← Insert.bind json columns insert args
      return (name, datum) :: rest
    else none
  | _, _ => none

/-- The row with these values, and NULL in the other columns. -/
def rowOf (values : List (String × Datum J)) : Row J := fun name =>
  (values.lookup name).getD .null

/-- The value is NULL. -/
def Datum.isNull : Datum J → Bool
  | .null => true
  | _ => false

/-- The row that is inserted, unless it violates a `NOT NULL`. -/
def Insert.row (json : JsonFormat J) (columns : List Column) (insert : Insert) (args : List Arg) :
    Option (Row J) := do
  let values ← insert.bind json columns args
  if columns.all fun c => !(c.notNull && (rowOf values c.name).isNull) then return rowOf values
  else none

section Insert

variable {json : JsonFormat J} {columns : List Column} {insert : Insert} {args : List Arg}
  {P : String → Datum J → Prop}

/-- The argument has a value in the column, and that satisfies `P`. -/
def Bound (json : JsonFormat J) (columns : List Column) (P : String → Datum J → Prop)
    (param : String × Option ColumnType) (arg : Arg) : Prop :=
  ∃ column d, columns.find? (·.name = param.1) = some column ∧
    param.2.getD column.type = column.type ∧ arg.bind json column.type = some d ∧ P param.1 d

lemma Insert.exists_bind (h : List.Forall₂ (Bound json columns P) insert args) :
    ∃ values, insert.bind json columns args = some values ∧
      values.map Prod.fst = insert.map Prod.fst ∧ ∀ v ∈ values, P v.1 v.2 := by
  induction h with
  | nil => exact ⟨[], rfl, rfl, by simp⟩
  | @cons param arg insert args hbound _ ih =>
    obtain ⟨column, d, hfind, hcast, hbind, hd⟩ := hbound
    obtain ⟨values, hvalues, hnames, hall⟩ := ih
    refine ⟨(param.1, d) :: values, ?_, by simp [hnames], ?_⟩
    · simp [Insert.bind, hfind, hcast, hbind, hvalues]
    · exact List.forall_mem_cons.mpr ⟨hd, hall⟩

lemma rowOf_mem {values : List (String × Datum J)} {name : String}
    (h : name ∈ values.map Prod.fst) : (name, rowOf values name) ∈ values := by
  induction values with
  | nil => simp at h
  | cons v values ih =>
    obtain ⟨first, d⟩ := v
    by_cases hname : name = first
    · subst hname
      simp [rowOf]
    · have hmem : name ∈ values.map Prod.fst := by simpa [hname] using h
      have hrow : rowOf ((first, d) :: values) name = rowOf values name := by
        simp [rowOf, List.lookup_cons, beq_false_of_ne hname]
      rw [hrow]
      exact List.mem_cons_of_mem _ (ih hmem)

/-- **An `INSERT` whose arguments have values in all columns of the table goes through**, and the
row has these values. -/
lemma Insert.exists_row (h : List.Forall₂ (Bound json columns P) insert args)
    (hall : ∀ c ∈ columns, c.name ∈ insert.map Prod.fst)
    (hnull : ∀ c ∈ columns, c.notNull = true → ¬P c.name .null) :
    ∃ row, insert.row json columns args = some row ∧ ∀ c ∈ columns, P c.name (row c.name) := by
  obtain ⟨values, hbind, hnames, hvalues⟩ := Insert.exists_bind h
  have hrow : ∀ c ∈ columns, P c.name (rowOf values c.name) := fun c hc =>
    hvalues _ (rowOf_mem (hnames ▸ hall c hc))
  refine ⟨rowOf values, ?_, hrow⟩
  have hcheck : ∀ c ∈ columns, c.notNull = true → (rowOf values c.name).isNull = false := by
    intro c hc hnot
    have hc' := hrow c hc
    cases hd : rowOf values c.name with
    | null => exact absurd (hd ▸ hc') (hnull c hc hnot)
    | _ => rfl
  simpa [Insert.row, hbind] using hcheck

end Insert

/-! ## From a column to a parameter -/

variable {json : JsonFormat J} {d e : Datum J} {type : ColumnType} {t : Text}
  {s s' : Option (List Text)}

/-- The empty value of a type. -/
def ColumnType.empty : ColumnType → Datum J
  | .textArray => .textArray []
  | .uuidArray => .uuidArray []
  | _ => .text []

/-- The values are the same if NULL is not told from the empty value. -/
def SameOrEmpty (type : ColumnType) (d d' : Datum J) : Prop :=
  d = d' ∨ d = .null ∧ d' = type.empty ∨ d = type.empty ∧ d' = .null

/-- A text that was read is written. -/
lemma bind_of_scanText (h : scanText d = some t) : (Arg.string t).bind json .text = some d := by
  cases d <;> simp_all [scanText, Arg.bind]

/-- The text of a value is read as that value. -/
lemma bind_of_castText (htype : d.HasType type) (hcast : castText json d = some e)
    (h : scanText e = some t) : (Arg.string t).bind json type = some d := by
  cases d <;> simp only [castText, Option.some.injEq, reduceCtorEq] at hcast <;> subst hcast <;>
    simp only [scanText, Option.some.injEq, reduceCtorEq] at h <;> subst h <;>
    cases type <;> simp_all [Datum.HasType, Arg.bind, Uuid.parse_text, JsonFormat.parse_print]

lemma bind_of_scanInt32 {n : Int32} (h : scanInt32 d = some n) :
    (Arg.int32 n).bind json .integer = some d := by
  cases d <;> simp_all [scanInt32, Arg.bind]

/-- A text that may be missing. -/
lemma bind_of_orElse_text (h : scanText (d.orElse (.text [])) = some t) :
    ∃ d', (Arg.string t).bind json .text = some d' ∧ SameOrEmpty .text d d' := by
  refine ⟨.text t, rfl, ?_⟩
  cases d with
  | null =>
    obtain rfl : [] = t := by simpa [Datum.orElse, scanText] using h
    exact .inr (.inl ⟨rfl, rfl⟩)
  | text u =>
    obtain rfl : u = t := by simpa [Datum.orElse, scanText] using h
    exact .inl rfl
  | _ => simp [Datum.orElse, scanText] at h

/-- A slice that was scanned from an array without NULLs is what it holds. -/
lemma eq_of_mapM_id {α : Type} {ts : List (Option α)} {xs : List α} (h : ts.mapM id = some xs) :
    ts = xs.map some := by
  induction ts generalizing xs with
  | nil =>
    obtain rfl : [] = xs := by simpa using h
    rfl
  | cons t ts ih =>
    simp only [List.mapM_cons, id_eq, Option.bind_eq_bind, Option.bind_eq_some_iff] at h
    obtain ⟨x, rfl, ys, hys, hxs⟩ := h
    obtain rfl : x :: ys = xs := by simpa using hxs
    rw [ih hys, List.map_cons]

/-- An array that may be missing: what is written is what was read, if a nil slice is not told from
an empty one. -/
lemma bind_strings {xs : List Text} (htype : type = .textArray ∨ type = .uuidArray)
    (h : d = .null ∧ xs = [] ∨ (Arg.strings (some xs)).bind json type = some d)
    (hs : s'.getD [] = xs) :
    ∃ d', (Arg.strings s').bind json type = some d' ∧ SameOrEmpty type d d' := by
  have hempty : (Arg.strings (some [])).bind json type = some type.empty := by
    rcases htype with rfl | rfl <;> simp [Arg.bind, ColumnType.empty]
  cases s' with
  | none =>
    obtain rfl : [] = xs := hs
    refine ⟨.null, by cases type <;> rfl, ?_⟩
    rcases h with ⟨rfl, -⟩ | h
    · exact .inl rfl
    · exact .inr (.inr ⟨Option.some.inj (h.symm.trans hempty), rfl⟩)
  | some ts =>
    obtain rfl : ts = xs := hs
    rcases h with ⟨rfl, rfl⟩ | h
    · exact ⟨type.empty, hempty, .inr (.inl ⟨rfl, rfl⟩)⟩
    · exact ⟨d, h, .inl rfl⟩

/-- What a slice holds that was scanned with the empty array in place of NULL. -/
lemma scanTexts_orElse (h : scanTexts (d.orElse (.textArray [])) = some s) :
    d = .null ∧ s.getD [] = [] ∨ d = .textArray ((s.getD []).map some) := by
  cases d with
  | null =>
    obtain rfl : some [] = s := by simpa [Datum.orElse, scanTexts] using h
    exact .inl ⟨rfl, rfl⟩
  | textArray ts =>
    simp only [Datum.orElse, scanTexts, Option.map_eq_some_iff] at h
    obtain ⟨xs, hxs, rfl⟩ := h
    exact .inr (congrArg Datum.textArray (eq_of_mapM_id hxs))
  | _ => simp [Datum.orElse, scanTexts] at h

lemma bind_of_orElse_textArray (h : scanTexts (d.orElse (.textArray [])) = some s)
    (hs : s'.getD [] = s.getD []) :
    ∃ d', (Arg.strings s').bind json .textArray = some d' ∧ SameOrEmpty .textArray d d' := by
  refine bind_strings (.inl rfl) ?_ hs
  rcases scanTexts_orElse h with hnull | rfl
  · exact .inl hnull
  · exact .inr rfl

/-- The texts of identifiers are read as these. -/
lemma mapM_parse_text {ns : List ℕ} (h : ∀ n ∈ ns, n < 2 ^ 128) :
    (ns.map Uuid.text).mapM Uuid.parse = some ns := by
  induction ns with
  | nil => rfl
  | cons n ns ih =>
    rw [List.forall_mem_cons] at h
    simp [Uuid.parse_text h.1, ih h.2]

/-- If no image is NULL, no element was. -/
lemma exists_of_map_eq_map_some {α β : Type} {f : α → β} {as : List (Option α)} {bs : List β}
    (h : as.map (Option.map f) = bs.map some) :
    ∃ xs : List α, as = xs.map some ∧ bs = xs.map f := by
  induction as generalizing bs with
  | nil =>
    obtain rfl : bs = [] := by simpa using h.symm
    exact ⟨[], rfl, rfl⟩
  | cons a as ih =>
    cases bs with
    | nil => simp at h
    | cons b bs =>
      simp only [List.map_cons, List.cons.injEq] at h
      obtain ⟨x, rfl, rfl⟩ := Option.map_eq_some_iff.mp h.1
      obtain ⟨xs, rfl, rfl⟩ := ih h.2
      exact ⟨x :: xs, rfl, rfl⟩

lemma bind_of_orElse_uuidArray (htype : d.HasType .uuidArray) (hcast : castTextArray d = some e)
    (h : scanTexts (e.orElse (.textArray [])) = some s) (hs : s'.getD [] = s.getD []) :
    ∃ d', (Arg.strings s').bind json .uuidArray = some d' ∧ SameOrEmpty .uuidArray d d' := by
  refine bind_strings (.inr rfl) ?_ hs
  have hscan := scanTexts_orElse h
  cases d with
  | null =>
    obtain rfl : .null = e := Option.some.inj hcast
    exact .inl (by simpa using hscan)
  | uuidArray ns =>
    obtain rfl : .textArray (ns.map (Option.map Uuid.text)) = e := Option.some.inj hcast
    obtain ⟨ms, rfl, hms⟩ := exists_of_map_eq_map_some
      (show ns.map (Option.map Uuid.text) = (s.getD []).map some by simpa using hscan)
    have hlt : ∀ m ∈ ms, m < 2 ^ 128 := fun m hm => htype m (List.mem_map_of_mem hm)
    right
    simp [Arg.bind, hms, mapM_parse_text hlt]
  | _ => simp [Datum.HasType] at htype

/-! ## Instants -/

/-- An instant that is kept as a 64-bit number of microseconds since the epoch, which may have
wrapped around, is stored as it was. -/
lemma storedInstant_of_instant {micros : Int64} {t : ℤ} (h : instant micros = some t) :
    storedInstant (Int64.ofInt t).toInt = micros := by
  rw [instant] at h
  split_ifs at h with hinf
  obtain rfl : micros.toInt + epochToY2K = t := Option.some.inj h
  rw [storedInstant, Int64.ofInt_toInt, Int64.ofInt_add, Int64.ofInt_toInt, Int64.add_sub_cancel]

end Sql
