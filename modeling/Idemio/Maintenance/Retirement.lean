import Idemio.Maintenance.Pass

set_option relaxedAutoImplicit false
set_option autoImplicit false

/-!
# Retirement loses no row

Any number of reconcilers run passes on one database and one object store, while other
transactions write to the attached partitions. A pass works on a partition only after it has
detached it, which no second pass can then do, and nobody writes to a detached partition. So what
is exported is all of the partition, and when the partition is dropped, the object that holds
its rows is there.

## Main definitions

* `Idemio.Relations` — the partitions by name, attached or detached, and the archive.
* `Idemio.Retiring` — the system.
* `Idemio.Working` — what a pass knows of the partition that it works on.
* `Idemio.Preserved` — the rows of a partition are in a table or in an archive object.

## Main results

* `Idemio.working_of_reachable` — **the invariant**: every pass knows its partition, and no two
  passes work on the same one.
* `Idemio.retirement_keeps_rows` — no row is lost, and no partition is detached before its time.
-/

namespace Idemio

open Transition

/-! ## The catalog -/

/-- A partition, attached to its table or detached from it. -/
structure Relation (ρ : Type) where
  table : Table
  upper : Option Time
  attached : Bool
  rows : List ρ
  deriving DecidableEq

/-- The partitions of all tables by name, and the objects in the archive. -/
structure Relations (ρ : Type) where
  relations : AList (fun _ : String => Relation ρ)
  objects : String → Option (List ρ)

variable {ρ : Type}

/-- The row of `expiredPartitions` for a partition. -/
def Relation.listed (t : Table) (name : String) (rel : Relation ρ) :
    Option (String × Option Time) :=
  if rel.attached ∧ rel.table = t then some (name, rel.upper) else none

/-- `ALTER TABLE ... DETACH PARTITION`. -/
def Relations.detach (t : Table) (name : String) (s : Relations ρ) : Option (Relations ρ) :=
  match s.relations.lookup name with
  | none => none
  | some rel =>
    if rel.attached ∧ rel.table = t then
      some { s with relations := s.relations.insert name { rel with attached := false } }
    else none

/-- `DROP TABLE`. -/
def Relations.drop (name : String) (s : Relations ρ) : Option (Relations ρ) :=
  if (s.relations.lookup name).isSome then
    some { s with relations := s.relations.erase name }
  else none

/-- The upload of an object. -/
def Relations.put (name : String) (rows : List ρ) (s : Relations ρ) : Relations ρ :=
  { s with objects := Function.update s.objects name (some rows) }

/-- The statements of a pass on the catalog. -/
def catalog : Storage (Relations ρ) ρ where
  partitions t s := s.relations.entries.filterMap fun e => e.2.listed t e.1
  detach := Relations.detach
  scan name s := (s.relations.lookup name).map (·.rows)
  put := Relations.put
  drop := Relations.drop

/-- Another transaction adds a row to an attached partition. -/
def Relations.write (name : String) (row : ρ) (s : Relations ρ) : Option (Relations ρ) :=
  match s.relations.lookup name with
  | none => none
  | some rel =>
    if rel.attached then
      some { s with relations := s.relations.insert name { rel with rows := rel.rows ++ [row] } }
    else none

/-! ## The system -/

/-- What can happen: a step of a pass, or a write by somebody else. -/
inductive RetireAction (ρ : Type)
  | pass (a : PassAction)
  | write (name : String) (row : ρ)

/-- A state of the system. -/
abbrev Retiring (ρ : Type) := Interleave.Config Pid (Relations ρ) (Pass ρ)

variable (r : Retention) (archiver : Pid → Archiver)

/-- The step of one pass. -/
def retireAct (p : Pid) (s : Relations ρ) (pass : Pass ρ) :
    RetireAction ρ → Option (Relations ρ × Pass ρ)
  | .pass a => pass.step catalog s r (archiver p) a
  | .write name row => (s.write name row).map (·, pass)

/-- One step of the system. -/
def retireStep : Retiring ρ → Pid × RetireAction ρ → Option (Retiring ρ) :=
  Interleave.step (retireAct r archiver)

variable {r : Retention} {archiver : Pid → Archiver} {p q : Pid} {s s' : Relations ρ}
  {pass pass' : Pass ρ} {a : RetireAction ρ} {name : String}

/-- What a process can do. -/
inductive RetireRule (r : Retention) (archiver : Pid → Archiver) (p : Pid) (s : Relations ρ)
    (pass : Pass ρ) : RetireAction ρ → Relations ρ → Pass ρ → Prop
  | pass {a : PassAction} {s' : Relations ρ} {pass' : Pass ρ}
      (hrule : PassRule catalog r (archiver p) s pass a s' pass') :
      RetireRule r archiver p s pass (.pass a) s' pass'
  | write {name : String} {row : ρ} {s' : Relations ρ} (hwrite : s.write name row = some s') :
      RetireRule r archiver p s pass (.write name row) s' pass

/-- Every step of a process follows a rule. -/
lemma retireRule_of_act (h : retireAct r archiver p s pass a = some (s', pass')) :
    RetireRule r archiver p s pass a s' pass' := by
  cases a with
  | pass a => exact .pass (passRule_of_step h)
  | write name row =>
    obtain ⟨s₁, hwrite, heq⟩ := Option.map_eq_some_iff.mp h
    cases heq
    exact .write hwrite

/-! ## What a step does to a partition and to an object -/

/-- What a step of a process at `pass` does to the partition `name`. -/
inductive RelationChange (s : Relations ρ) (pass : Pass ρ) (name : String) (s' : Relations ρ) :
    Prop
  | same (hlookup : s'.relations.lookup name = s.relations.lookup name)
  | detach {c : Cursor} {names : List String} {rel : Relation ρ} (hpass : pass = .loop c)
      (hc : c.expired = name :: names) (hrel : s.relations.lookup name = some rel)
      (hattached : rel.attached = true) (htable : rel.table = c.table)
      (hlookup : s'.relations.lookup name = some { rel with attached := false })
  | drop {c : Cursor} (hpass : pass = .drop name c)
      (hlookup : s'.relations.lookup name = none)
  | write {rel : Relation ρ} {row : ρ} (hrel : s.relations.lookup name = some rel)
      (hattached : rel.attached = true)
      (hlookup : s'.relations.lookup name = some { rel with rows := rel.rows ++ [row] })

/-- What a `DETACH PARTITION` does. -/
lemma detach_eq_some {t : Table} (h : s.detach t name = some s') :
    ∃ rel, s.relations.lookup name = some rel ∧ rel.attached = true ∧ rel.table = t ∧
      s' = { s with relations := s.relations.insert name { rel with attached := false } } := by
  unfold Relations.detach at h
  split at h
  · cases h
  · next rel hrel =>
    split at h
    · next hatt =>
      cases h
      exact ⟨rel, hrel, hatt.1, hatt.2, rfl⟩
    · cases h

/-- What a `DROP TABLE` does. -/
lemma drop_eq_some (h : s.drop name = some s') :
    s' = { s with relations := s.relations.erase name } := by
  unfold Relations.drop at h
  split at h
  · exact (Option.some.inj h).symm
  · cases h

/-- What a write does. -/
lemma write_eq_some {row : ρ} (h : s.write name row = some s') :
    ∃ rel, s.relations.lookup name = some rel ∧ rel.attached = true ∧
      s' = { s with
        relations := s.relations.insert name { rel with rows := rel.rows ++ [row] } } := by
  unfold Relations.write at h
  split at h
  · cases h
  · next rel hrel =>
    split at h
    · next hatt =>
      cases h
      exact ⟨rel, hrel, hatt, rfl⟩
    · cases h

/-- A detached partition is changed as such, the others are left alone. -/
lemma relationChange_of_detach {c : Cursor} {name' : String} {names : List String}
    (hc : c.expired = name' :: names) (h : s.detach c.table name' = some s') :
    RelationChange s (.loop c) name s' := by
  obtain ⟨rel, hrel, hattached, htable, rfl⟩ := detach_eq_some h
  by_cases hname : name = name'
  · subst hname
    exact .detach rfl hc hrel hattached htable (AList.lookup_insert _)
  · exact .same (AList.lookup_insert_ne hname)

/-- A dropped partition is gone, the others are left alone. -/
lemma relationChange_of_drop {c : Cursor} {name' : String} (h : s.drop name' = some s') :
    RelationChange s (.drop name' c) name s' := by
  rw [drop_eq_some h]
  by_cases hname : name = name'
  · subst hname
    exact .drop rfl (AList.lookup_erase _ _)
  · exact .same (AList.lookup_erase_ne hname)

/-- **What a step does to a partition.** -/
lemma relationChange_of_act (h : retireAct r archiver p s pass a = some (s', pass'))
    (name : String) : RelationChange s pass name s' := by
  cases retireRule_of_act h with
  | @write name' _ _ hwrite =>
    obtain ⟨rel, hrel, hattached, rfl⟩ := write_eq_some hwrite
    by_cases hname : name = name'
    · subst hname
      exact .write hrel hattached (AList.lookup_insert _)
    · exact .same (AList.lookup_insert_ne hname)
  | pass hrule =>
    cases hrule with
    | detach _ hs => exact relationChange_of_detach rfl hs
    | detachUnseen _ hs => exact relationChange_of_detach rfl hs
    | drop hs => exact relationChange_of_drop hs
    | dropUnseen hs => exact relationChange_of_drop hs
    | _ => exact .same rfl

/-- **What a step does to an object**: nothing, or it uploads the rows of a partition. -/
lemma objects_of_act (h : retireAct r archiver p s pass a = some (s', pass')) (n : String) :
    s'.objects n = s.objects n ∨ ∃ name rows c, pass = .put name rows c ∧
      n = objectName c.table name ∧ s'.objects n = some rows := by
  cases retireRule_of_act h with
  | write hwrite =>
    obtain ⟨rel, -, -, rfl⟩ := write_eq_some hwrite
    exact .inl rfl
  | pass hrule =>
    have hput : ∀ {name : String} {rows : List ρ} {c : Cursor},
        (s.put (objectName c.table name) rows).objects n = s.objects n ∨
          n = objectName c.table name ∧
            (s.put (objectName c.table name) rows).objects n = some rows := by
      intro name rows c
      by_cases hn : n = objectName c.table name
      · exact .inr ⟨hn, by simp [Relations.put, hn]⟩
      · exact .inl (Function.update_of_ne hn _ _)
    cases hrule with
    | detach _ hs | detachUnseen _ hs =>
      obtain ⟨rel, -, -, -, rfl⟩ := detach_eq_some hs
      exact .inl rfl
    | drop hs | dropUnseen hs =>
      rw [drop_eq_some hs]
      exact .inl rfl
    | put | putUnseen =>
      rcases hput with hn | hn
      · exact .inl hn
      · exact .inr ⟨_, _, _, rfl, hn⟩
    | _ => exact .inl rfl

/-! ## What a pass knows -/

/-- The partition `name` of the table of a cursor is detached. -/
structure Detached (s : Relations ρ) (name : String) (c : Cursor) (rel : Relation ρ) : Prop where
  lookup : s.relations.lookup name = some rel
  detached : rel.attached = false
  table : rel.table = c.table

/-- What a pass knows of the partition that it works on: it is detached, what is about to be
uploaded are its rows, and what is about to be dropped is in the archive. -/
def Working (s : Relations ρ) : Pass ρ → Prop
  | .archive name c => ∃ rel, Detached s name c rel
  | .put name rows c => ∃ rel, Detached s name c rel ∧ rel.rows = rows
  | .drop name c => ∃ rel, Detached s name c rel ∧
      s.objects (objectName c.table name) = some rel.rows
  | _ => True

/-- The partition that a pass works on is detached. -/
lemma Working.detached (h : Working s pass) (hname : pass.partition = some name) :
    ∃ rel, s.relations.lookup name = some rel ∧ rel.attached = false := by
  cases pass with
  | archive n c =>
    obtain ⟨rel, hrel⟩ := h
    cases hname
    exact ⟨rel, hrel.lookup, hrel.detached⟩
  | put n rows c =>
    obtain ⟨rel, hrel, -⟩ := h
    cases hname
    exact ⟨rel, hrel.lookup, hrel.detached⟩
  | drop n c =>
    obtain ⟨rel, hrel, -⟩ := h
    cases hname
    exact ⟨rel, hrel.lookup, hrel.detached⟩
  | _ => cases hname

/-- A pass takes on a partition only if that was attached until then. -/
lemma partition_of_act (h : retireAct r archiver p s pass a = some (s', pass'))
    (hname : pass'.partition = some name) :
    pass.partition = some name ∨
      ∃ rel, s.relations.lookup name = some rel ∧ rel.attached = true := by
  cases retireRule_of_act h with
  | write => exact .inl hname
  | pass hrule =>
    rcases hrule.partition_cases hname with hold | ⟨t, hs⟩
    · exact .inl hold
    · obtain ⟨rel, hrel, hattached, -, -⟩ := detach_eq_some hs
      exact .inr ⟨rel, hrel, hattached⟩

/-- A partition that is detached is changed only by the pass that drops it. -/
lemma Detached.stable {c : Cursor} {rel : Relation ρ} (h : Detached s name c rel)
    (hact : retireAct r archiver p s pass a = some (s', pass'))
    (hpass : ∀ c, pass ≠ .drop name c) : Detached s' name c rel := by
  refine ⟨?_, h.detached, h.table⟩
  cases relationChange_of_act hact name with
  | same hlookup => exact hlookup.trans h.lookup
  | detach _ _ hrel hattached =>
    cases hrel.symm.trans h.lookup
    cases hattached.symm.trans h.detached
  | drop hdrop => exact absurd hdrop (hpass _)
  | write hrel hattached =>
    cases hrel.symm.trans h.lookup
    cases hattached.symm.trans h.detached

/-- What a pass knows stays so while others act on other partitions. -/
lemma Working.stable {pass₁ : Pass ρ} (h : Working s pass₁)
    (hact : retireAct r archiver p s pass a = some (s', pass'))
    (hother : ∀ name, pass₁.partition = some name → pass.partition ≠ some name) :
    Working s' pass₁ := by
  have hdrop : ∀ {name : String}, pass₁.partition = some name → ∀ c, pass ≠ .drop name c := by
    rintro name hname c rfl
    exact hother name hname rfl
  cases pass₁ with
  | archive name c =>
    obtain ⟨rel, hrel⟩ := h
    exact ⟨rel, hrel.stable hact (hdrop rfl)⟩
  | put name rows c =>
    obtain ⟨rel, hrel, hrows⟩ := h
    exact ⟨rel, hrel.stable hact (hdrop rfl), hrows⟩
  | drop name c =>
    obtain ⟨rel, hrel, hobject⟩ := h
    refine ⟨rel, hrel.stable hact (hdrop rfl), ?_⟩
    rcases objects_of_act hact (objectName c.table name) with heq | ⟨name', rows, c', rfl, hn, -⟩
    · exact heq.trans hobject
    · exact absurd (congrArg some (objectName_inj hn).2.symm) (hother name rfl)
  | _ => trivial

/-- A step of a pass keeps what it knows of its own partition. -/
lemma Working.step (h : Working s pass)
    (hact : retireAct r archiver p s pass a = some (s', pass')) :
    Working s' pass' := by
  cases retireRule_of_act hact with
  | @write name row _ hwrite =>
    -- As far as the pass is concerned, the write might be anybody's.
    have hidle : retireAct r archiver p s .idle (.write name row) = some (s', .idle) :=
      Option.map_eq_some_iff.mpr ⟨s', hwrite, rfl⟩
    exact h.stable hidle fun _ _ hnone => by cases hnone
  | pass hrule =>
    cases hrule with
    | detach _ hs =>
      obtain ⟨rel, hrel, -, htable, rfl⟩ := detach_eq_some hs
      exact ⟨_, AList.lookup_insert _, rfl, htable⟩
    | «export» _ hrows =>
      obtain ⟨rel, hrel⟩ := h
      obtain ⟨rel', hrel', rfl⟩ := Option.map_eq_some_iff.mp hrows
      cases hrel.lookup.symm.trans hrel'
      exact ⟨rel, hrel, rfl⟩
    | put =>
      obtain ⟨rel, hrel, rfl⟩ := h
      exact ⟨rel, ⟨hrel.lookup, hrel.detached, hrel.table⟩, Function.update_self _ _ _⟩
    | _ => trivial

variable {c c₀ c' : Retiring ρ} {ok : Retiring ρ → Pid × RetireAction ρ → Prop}

/-- Every pass knows its partition, and no two passes work on the same one. -/
structure AllWorking (c : Retiring ρ) : Prop where
  working : ∀ p, Working c.shared (c.procs p)
  distinct : ∀ p q name, p ≠ q → (c.procs p).partition = some name →
    (c.procs q).partition ≠ some name

/-- A step keeps `AllWorking`.

**Proof sketch.** The pass that acts keeps what it knows of its own partition, and does nothing
to that of another pass. If it takes on a new partition, that one was attached before, and so no
other pass was working on it. -/
lemma AllWorking.step (h : AllWorking c) (hstep : retireStep r archiver c (p, a) = some c') :
    AllWorking c' := by
  obtain ⟨s', pass', hact, rfl⟩ := Interleave.step_eq_some.mp hstep
  have htaken : ∀ q name, q ≠ p → pass'.partition = some name →
      (c.procs q).partition ≠ some name := by
    intro q name hq hname hname'
    rcases partition_of_act hact hname with hold | ⟨rel, hrel, hattached⟩
    · exact h.distinct p q name (Ne.symm hq) hold hname'
    · obtain ⟨rel', hrel', hdetached⟩ := (h.working q).detached hname'
      cases hrel.symm.trans hrel'
      cases hattached.symm.trans hdetached
  refine ⟨fun q => ?_, fun q₁ q₂ name hq hname hname' => ?_⟩
  · by_cases hq : q = p
    · subst hq
      simpa using (h.working q).step hact
    · simp only [Function.update_of_ne hq]
      exact (h.working q).stable hact fun name hname => h.distinct q p name hq hname
  · dsimp only at hname hname'
    by_cases h₁ : q₁ = p
    · subst h₁
      rw [Function.update_self] at hname
      rw [Function.update_of_ne (Ne.symm hq)] at hname'
      exact htaken q₂ name (Ne.symm hq) hname hname'
    · rw [Function.update_of_ne h₁] at hname
      by_cases h₂ : q₂ = p
      · subst h₂
        rw [Function.update_self] at hname'
        exact htaken q₁ name h₁ hname' hname
      · rw [Function.update_of_ne h₂] at hname'
        exact h.distinct q₁ q₂ name hq hname hname'

/-- **In every run from a state in which no pass has begun**, every pass knows its partition, and
no two passes work on the same one. -/
theorem working_of_reachable (hidle : ∀ p, c₀.procs p = .idle)
    (h : Reachable (retireStep r archiver) ok c₀ c) : AllWorking c := by
  refine h.invariant (I := AllWorking) ⟨fun p => ?_, fun p q name _ hname => ?_⟩ ?_
  · rw [hidle p]
    trivial
  · rw [hidle p] at hname
    cases hname
  · rintro c ⟨p, a⟩ c' - hc - hstep
    exact hc.step hstep

/-! ## No row is lost -/

/-- The rows of a partition are all in its table, attached or detached, or the table was dropped
and they are all in its archive object. -/
def Preserved (name : String) (rel : Relation ρ) (s : Relations ρ) : Prop :=
  (∃ rel', s.relations.lookup name = some rel' ∧ rel'.table = rel.table ∧
    rel.rows.Subperm rel'.rows) ∨
  s.relations.lookup name = none ∧
    ∃ rows, s.objects (objectName rel.table name) = some rows ∧ rel.rows.Subperm rows

/-- **No step loses a row.** -/
lemma Preserved.step {rel : Relation ρ} (h : Preserved name rel c.shared) (hc : AllWorking c)
    (hstep : retireStep r archiver c (p, a) = some c') : Preserved name rel c'.shared := by
  obtain ⟨s', pass', hact, rfl⟩ := Interleave.step_eq_some.mp hstep
  rcases h with ⟨rel', hrel', htable, hrows⟩ | ⟨hnone, rows, hobject, hrows⟩
  · cases relationChange_of_act hact name with
    | same hlookup => exact .inl ⟨rel', hlookup.trans hrel', htable, hrows⟩
    | detach _ _ hrel _ _ hlookup =>
      cases hrel.symm.trans hrel'
      exact .inl ⟨_, hlookup, htable, hrows⟩
    | write hrel _ hlookup =>
      cases hrel.symm.trans hrel'
      exact .inl ⟨_, hlookup, htable, hrows.trans (List.sublist_append_left _ _).subperm⟩
    | @drop cur hpass hlookup =>
      -- What is dropped is in the archive.
      have hworking := hc.working p
      rw [hpass] at hworking hact
      obtain ⟨rel'', hdetached, hobject⟩ := hworking
      cases hdetached.lookup.symm.trans hrel'
      refine .inr ⟨hlookup, rel'.rows, ?_, hrows⟩
      rcases objects_of_act hact (objectName rel.table name) with heq | ⟨_, _, _, hput, -⟩
      · rw [← htable, hdetached.table] at heq ⊢
        exact heq.trans hobject
      · cases hput
  · have hlookup : s'.relations.lookup name = none := by
      cases relationChange_of_act hact name with
      | same hlookup => exact hlookup.trans hnone
      | drop _ hlookup => exact hlookup
      | detach _ _ hrel => cases hrel.symm.trans hnone
      | write hrel => cases hrel.symm.trans hnone
    refine .inr ⟨hlookup, rows, ?_, hrows⟩
    rcases objects_of_act hact (objectName rel.table name) with heq |
      ⟨name', rows', cur, hput, hn, -⟩
    · exact heq.trans hobject
    · -- Nobody uploads under this name: the partition is gone.
      obtain ⟨-, rfl⟩ := objectName_inj hn
      obtain ⟨rel', hrel', -⟩ := (hc.working p).detached (by rw [hput]; rfl)
      cases hrel'.symm.trans hnone

/-! ## No partition is detached before its time -/

/-- The partition is past retention at `now`. -/
def Relation.past (r : Retention) (now : Time) (rel : Relation ρ) : Prop :=
  ∃ upper, rel.upper = some upper ∧ upper ≤ now - r.window rel.table

/-- The partitions that a pass has still to retire belong to its table, and were past retention
when it listed them. -/
def Listed (r : Retention) (s : Relations ρ) (pass : Pass ρ) : Prop :=
  ∀ cur, pass.cursor = some cur → ∀ name ∈ cur.expired, ∀ rel,
    s.relations.lookup name = some rel → rel.table = cur.table ∧ rel.past r cur.now

/-- The attached partitions of a table, with their bounds. -/
lemma mem_partitions {t : Table} {bound : Option Time} :
    (name, bound) ∈ catalog.partitions t s ↔ ∃ rel, s.relations.lookup name = some rel ∧
      rel.attached = true ∧ rel.table = t ∧ rel.upper = bound := by
  simp only [catalog, List.mem_filterMap, Relation.listed]
  constructor
  · rintro ⟨⟨name', rel⟩, hmem, hlisted⟩
    split at hlisted
    · next hrel =>
      cases hlisted
      exact ⟨rel, AList.mem_lookup_iff.mpr hmem, hrel.1, hrel.2, rfl⟩
    · cases hlisted
  · rintro ⟨rel, hrel, hattached, htable, rfl⟩
    refine ⟨⟨name, rel⟩, AList.mem_lookup_iff.mp hrel, ?_⟩
    simp [hattached, htable]

/-- A step leaves the table and the bound of a partition as they are. -/
lemma RelationChange.bounds (h : RelationChange s pass name s') {rel' : Relation ρ}
    (hrel' : s'.relations.lookup name = some rel') :
    ∃ rel, s.relations.lookup name = some rel ∧ rel.table = rel'.table ∧
      rel.upper = rel'.upper := by
  cases h with
  | same hlookup => exact ⟨rel', hlookup.symm.trans hrel', rfl, rfl⟩
  | detach _ _ hrel _ _ hlookup =>
    cases hlookup.symm.trans hrel'
    exact ⟨_, hrel, rfl, rfl⟩
  | drop _ hlookup => cases hlookup.symm.trans hrel'
  | write hrel _ hlookup =>
    cases hlookup.symm.trans hrel'
    exact ⟨_, hrel, rfl, rfl⟩

/-- What was listed stays so, whoever acts. -/
lemma Listed.stable {pass₁ : Pass ρ} (h : Listed r s pass₁)
    (hact : retireAct r archiver p s pass a = some (s', pass')) : Listed r s' pass₁ := by
  intro cur hcur name hname rel' hrel'
  obtain ⟨rel, hrel, htable, hupper⟩ := (relationChange_of_act hact name).bounds hrel'
  obtain ⟨htable', upper, hupper', hle⟩ := h cur hcur name hname rel hrel
  exact ⟨htable ▸ htable', upper, hupper ▸ hupper', htable ▸ hle⟩

/-- A pass goes on with what it has listed, or lists a table. -/
lemma Listed.step (h : Listed r s pass)
    (hact : retireAct r archiver p s pass a = some (s', pass')) :
    Listed r s' pass' := by
  have hstable : Listed r s' pass := h.stable hact
  cases retireRule_of_act hact with
  | write => exact hstable
  | pass hrule =>
    intro cur hcur name hname rel hrel
    rcases hrule.listed_cases hcur hname with
      ⟨cur₀, hcur₀, hname₀, htable, hnow⟩ | ⟨upper, hmem, hle⟩
    · rw [← htable, ← hnow]
      exact hstable cur₀ hcur₀ name hname₀ rel hrel
    · obtain ⟨rel', hrel', -, htable, hupper⟩ := mem_partitions.mp hmem
      cases hrel.symm.trans hrel'
      exact ⟨htable, upper, hupper, htable ▸ hle⟩

/-- **Every pass retires only what was past retention when it was listed.** -/
lemma listed_of_reachable (hidle : ∀ p, c₀.procs p = .idle)
    (h : Reachable (retireStep r archiver) ok c₀ c) (p : Pid) : Listed r c.shared (c.procs p) := by
  refine Interleave.invariant_procs (P := fun _ s pass => Listed r s pass) ?_ ?_ ?_ h p
  · intro q cur hcur
    rw [hidle q] at hcur
    cases hcur
  · exact fun c p a s' pass' _ hlisted _ hact => (hlisted p).step hact
  · exact fun c p a s' pass' q _ _ hlisted _ hact => (hlisted q).stable hact

/-- **Retirement loses no row and comes not too early.** In every run of passes of any number of
reconcilers, with statements that fail and processes that crash anywhere: whatever rows a
partition has at some time, they are at any later time in its table, attached or detached, or
all in its archive object. And a partition that a step of a pass detaches was past retention at
the time that the pass went by. -/
theorem retirement_keeps_rows (hidle : ∀ p, c₀.procs p = .idle)
    (h : Reachable (retireStep r archiver) ok c₀ c) :
    (∀ c' name rel, Reachable (retireStep r archiver) ok c c' →
      c.shared.relations.lookup name = some rel → Preserved name rel c'.shared) ∧
    (∀ p a c' name rel, retireStep r archiver c (p, a) = some c' →
      c.shared.relations.lookup name = some rel → rel.attached = true →
      (∀ rel', c'.shared.relations.lookup name = some rel' → rel'.attached = false) →
      ∃ cur, (c.procs p).cursor = some cur ∧ rel.past r cur.now) := by
  refine ⟨fun c' name rel hrun hrel => ?_, fun p a c' name rel hstep hrel hattached hgone => ?_⟩
  · have hinv : AllWorking c' ∧ Preserved name rel c'.shared := by
      refine hrun.invariant (I := fun c => AllWorking c ∧ Preserved name rel c.shared)
        ⟨working_of_reachable hidle h, .inl ⟨rel, hrel, rfl, .refl _⟩⟩ ?_
      rintro c ⟨p, a⟩ c' - ⟨hworking, hpreserved⟩ - hstep
      exact ⟨hworking.step hstep, hpreserved.step hworking hstep⟩
    exact hinv.2
  · obtain ⟨s', pass', hact, rfl⟩ := Interleave.step_eq_some.mp hstep
    cases relationChange_of_act hact name with
    | same hlookup => cases hattached.symm.trans (hgone rel (hlookup.trans hrel))
    | write hrel' hattached' hlookup =>
      have hdetached := hgone _ hlookup
      cases hattached'.symm.trans hdetached
    | @drop cur hpass =>
      obtain ⟨rel', hrel', hdetached⟩ :=
        ((working_of_reachable hidle h).working p).detached (by rw [hpass]; rfl)
      cases hrel.symm.trans hrel'
      cases hattached.symm.trans hdetached
    | @detach cur names rel' hpass hexpired =>
      have hlisted := listed_of_reachable hidle h p cur (by rw [hpass]; rfl) name
        (by rw [hexpired]; exact List.mem_cons_self) rel hrel
      exact ⟨cur, by rw [hpass]; rfl, hlisted.2⟩

/-- A table with one partition of two rows, and no pass has begun. -/
def Retiring.small : Retiring Nat :=
  ⟨⟨AList.insert "write_intents_20200101" ⟨.writeIntents, some 7, true, [1, 2]⟩ ∅, fun _ => none⟩,
    fun _ => .idle⟩

/-- Rows of intents are kept for 90 time units, and every pass has an archive. -/
abbrev Retiring.smallStep : Retiring Nat → Pid × RetireAction Nat → Option (Retiring Nat) :=
  retireStep ⟨90, 365, 365⟩ fun _ => .holding .new

/-- The steps of a pass until it has listed the partition of `Retiring.small`. -/
def listSteps (p : Pid) : List (Pid × RetireAction Nat) :=
  [(p, .pass .start), (p, .pass (.list 100 [("write_intents_20200101", some 7)]))]

/-- A pass detaches the partition, exports it and drops it. -/
theorem retirement_keeps_rows_dropped : ∃ c c₁ c₂ rel cur,
    Reachable Retiring.smallStep (fun _ _ => True) Retiring.small c ∧
    c.shared.relations.lookup "write_intents_20200101" = some rel ∧ rel.rows = [1, 2] ∧
    Retiring.smallStep c (0, .pass (.detach .ok)) = some c₁ ∧
    (c.procs 0).cursor = some cur ∧ rel.past ⟨90, 365, 365⟩ cur.now ∧
    Reachable Retiring.smallStep (fun _ _ => True) c c₂ ∧
    c₂.shared.relations.lookup "write_intents_20200101" = none ∧
    Preserved "write_intents_20200101" rel c₂.shared := by
  obtain ⟨c, hrun, hc⟩ := exists_run_of_exec Retiring.smallStep (fun _ _ => True) Retiring.small
    (listSteps 0)
    (fun c => (c.shared.relations.lookup "write_intents_20200101").any fun rel =>
      rel.rows = [1, 2] && rel.attached &&
      (Retiring.smallStep c (0, .pass (.detach .ok))).any fun c₁ =>
        ((c₁.shared.relations.lookup "write_intents_20200101").all fun rel' => !rel'.attached) &&
        (exec Retiring.smallStep (fun _ _ => True) c₁
          [(0, .pass (.export true)), (0, .pass (.put .ok)), (0, .pass (.drop .ok))]).any fun c₂ =>
          (c₂.shared.relations.lookup "write_intents_20200101").isNone)
    (by decide +kernel)
  obtain ⟨rel, hrel, hc⟩ := (Option.any_eq_true _ _).mp hc
  simp only [Bool.and_eq_true, decide_eq_true_eq] at hc
  obtain ⟨⟨hrows, hattached⟩, hc⟩ := hc
  obtain ⟨c₁, hstep, hc⟩ := (Option.any_eq_true _ _).mp hc
  simp only [Bool.and_eq_true] at hc
  obtain ⟨hgone, hc⟩ := hc
  obtain ⟨c₂, hexec, hnone⟩ := (Option.any_eq_true _ _).mp hc
  have hreach : Reachable Retiring.smallStep (fun _ _ => True) Retiring.small c := ⟨_, hrun⟩
  obtain ⟨hkept, hpast⟩ := retirement_keeps_rows (fun _ => rfl) hreach
  obtain ⟨cur, hcur, hpast⟩ := hpast 0 _ c₁ _ rel hstep hrel hattached fun rel' hrel' => by
    simpa [hrel'] using hgone
  have hrun₂ : Reachable Retiring.smallStep (fun _ _ => True) c c₂ :=
    ⟨_, .cons trivial hstep (run_of_exec hexec)⟩
  exact ⟨c, c₁, c₂, rel, cur, hreach, hrel, hrows, hstep, hcur, hpast, hrun₂,
    Option.isNone_iff_eq_none.mp hnone, hkept c₂ _ rel hrun₂ hrel⟩

end Idemio
