import Idemio.Maintenance.Retirement

set_option relaxedAutoImplicit false
set_option autoImplicit false

/-!
# What a further pass makes good, and passes without an archive

A pass looks for attached partitions. One that an earlier pass has detached and then failed to
archive, or to drop, is not attached, and so no later pass comes to it again: it stays where it
is.

A pass without an archive is to leave every partition attached. The check for it compares an
interface with nil, and in `cmd/reconciler` the interface holds the pointer that `archive.New`
returns. An interface that holds a nil pointer is not nil, the partition is detached, and the
export reads a field of the archive that is not there.

## Main definitions

* `Idemio.Further` — one pass acts alone, and its archiver succeeds on every call.
* `Idemio.Stage` — how far a partition past retention has come in such a pass.
* `Idemio.runMaintenance`, `Idemio.wiredArchiver` — the wiring of `cmd/reconciler`.
* `Idemio.Finds` — a pass comes to a partition past retention.

## Main results

* `Idemio.recovery_iff` — a further pass retires everything past retention exactly if nothing past
  retention was left detached.
* `Idemio.unarchived_pass_iff` — a pass without an archive goes well exactly if it finds nothing.
-/

namespace Idemio

open Transition

variable {ρ : Type} {r : Retention} {archiver : Pid → Archiver} {p : Pid}
  {a : RetireAction ρ} {name : String} {c c₀ c₁ c₂ : Retiring ρ} {rel : Relation ρ}
  {ok : Retiring ρ → Pid × RetireAction ρ → Prop} {nows : Table → Time}

/-! ## A further pass -/

/-- The archiver succeeds on this call, if the action is one. -/
def PassAction.archives : PassAction → Bool
  | .export ok => ok
  | .put outcome => outcome = .ok
  | _ => true

/-- The step of a pass, if the action is one. -/
def RetireAction.ofPass : RetireAction ρ → Option PassAction
  | .pass a => some a
  | .write _ _ => none

/-- A pass that lists the table `t` does so at the time `nows t`. -/
def Pass.onTime (nows : Table → Time) : Pass ρ → PassAction → Bool
  | .tables (t :: _), .list now _ => now = nows t
  | _, _ => true

/-- The pass `p` acts alone. It lists the table `t` at the time `nows t`, and its archiver
succeeds on every call. -/
def Further (p : Pid) (nows : Table → Time) (c : Retiring ρ) (ia : Pid × RetireAction ρ) : Prop :=
  ia.1 = p ∧ (ia.2.ofPass.any fun a => a.archives && (c.procs p).onTime nows a) = true

instance (p : Pid) (nows : Table → Time) (c : Retiring ρ) (ia : Pid × RetireAction ρ) :
    Decidable (Further p nows c ia) :=
  inferInstanceAs (Decidable (_ ∧ _))

/-- A step of a further pass is a step of a pass, and goes well. -/
lemma Further.pass {ia : Pid × RetireAction ρ} (h : Further p nows c ia) :
    ∃ b, ia = (p, .pass b) ∧ b.archives = true ∧ (c.procs p).onTime nows b = true := by
  obtain ⟨q, a⟩ := ia
  obtain ⟨rfl, hany⟩ := h
  obtain ⟨b, hb, hgood⟩ := (Option.any_eq_true _ _).mp hany
  cases a with
  | write => cases hb
  | pass b =>
    cases hb
    simp only [Bool.and_eq_true] at hgood
    exact ⟨b, rfl, hgood.1, hgood.2⟩

/-- The pass has ended before its end. -/
def Pass.over : Pass ρ → Bool
  | .failed => true
  | .panicked => true
  | .crashed => true
  | _ => false

/-- The pass has still to come to the partition `name` of the table `t`. -/
def Pass.Ahead (t : Table) (name : String) : Pass ρ → Prop
  | .idle => True
  | .tables todo => t ∈ todo
  | .loop cur => t = cur.table ∧ name ∈ cur.expired ∨ t ∈ cur.todo
  | .archive _ cur => t = cur.table ∧ name ∈ cur.expired ∨ t ∈ cur.todo
  | .put _ _ cur => t = cur.table ∧ name ∈ cur.expired ∨ t ∈ cur.todo
  | .drop _ cur => t = cur.table ∧ name ∈ cur.expired ∨ t ∈ cur.todo
  | _ => False

/-- How far a partition has come that was attached and past retention when the pass began. -/
inductive Stage (name : String) (rel : Relation ρ) (s : Relations ρ) (pass : Pass ρ) : Prop
  | ahead (hlookup : s.relations.lookup name = some rel) (hahead : pass.Ahead rel.table name)
  | work (hlookup : s.relations.lookup name = some { rel with attached := false })
      (hname : pass.partition = some name)
  | archived (hlookup : s.relations.lookup name = none)
      (hobject : s.objects (objectName rel.table name) = some rel.rows)

/-- Every table is one of those that a pass goes through. -/
lemma mem_tables (t : Table) : t ∈ tables := by
  cases t <;> decide

/-- A partition that the pass detaches is what it works on, the others stay where they are. -/
lemma Stage.detach {s s' : Relations ρ} {t : Table} {now : Time} {name' : String}
    {names : List String} {todo : List Table}
    (h : Stage name rel s (.loop ⟨t, now, name' :: names, todo⟩))
    (hs : s.detach t name' = some s') :
    Stage name rel s' (.archive name' ⟨t, now, names, todo⟩) := by
  obtain ⟨rel', hrel', hattached, htable, rfl⟩ := detach_eq_some hs
  by_cases hname : name = name'
  · subst hname
    cases h with
    | ahead hlookup =>
      cases hlookup.symm.trans hrel'
      exact .work (AList.lookup_insert _) rfl
    | work _ hpartition => cases hpartition
    | archived hlookup => cases hlookup.symm.trans hrel'
  · have hsame : (s.relations.insert name' { rel' with attached := false }).lookup name =
        s.relations.lookup name := AList.lookup_insert_ne hname
    cases h with
    | ahead hlookup hahead =>
      refine .ahead (hsame.trans hlookup) ?_
      rcases hahead with ⟨ht, hmem⟩ | hmem
      · exact .inl ⟨ht, (List.mem_cons.mp hmem).resolve_left hname⟩
      · exact .inr hmem
    | work _ hpartition => cases hpartition
    | archived hlookup hobject => exact .archived (hsame.trans hlookup) hobject

/-- A partition that the pass drops is archived, the others stay where they are. -/
lemma Stage.drop {s s' : Relations ρ} {name' : String} {cur : Cursor}
    (h : Stage name rel s (.drop name' cur)) (hw : Working s (.drop name' cur))
    (hs : s.drop name' = some s') : Stage name rel s' (.loop cur) := by
  obtain ⟨rel', hdetached, hobject'⟩ := hw
  rw [drop_eq_some hs]
  by_cases hname : name = name'
  · subst hname
    refine .archived (AList.lookup_erase _ _) ?_
    cases h with
    | ahead hlookup =>
      cases hlookup.symm.trans hdetached.lookup
      rw [hdetached.table]
      exact hobject'
    | work hlookup =>
      cases hlookup.symm.trans hdetached.lookup
      have htable : rel.table = cur.table := hdetached.table
      rw [htable]
      exact hobject'
    | archived _ hobject => exact hobject
  · have hsame : (s.relations.erase name').lookup name = s.relations.lookup name :=
      AList.lookup_erase_ne hname
    cases h with
    | ahead hlookup hahead => exact .ahead (hsame.trans hlookup) hahead
    | work _ hpartition => exact absurd (Option.some.inj hpartition).symm hname
    | archived hlookup hobject => exact .archived (hsame.trans hlookup) hobject

/-- An upload leaves the archive objects of other partitions alone. -/
lemma Stage.put {s : Relations ρ} {name' : String} {rows : List ρ} {cur : Cursor}
    (h : Stage name rel s (.put name' rows cur)) (hw : Working s (.put name' rows cur)) :
    Stage name rel (s.put (objectName cur.table name') rows) (.drop name' cur) := by
  obtain ⟨rel', hdetached, -⟩ := hw
  cases h with
  | ahead hlookup hahead => exact .ahead hlookup hahead
  | work hlookup hpartition => exact .work hlookup hpartition
  | archived hlookup hobject =>
    refine .archived hlookup ((Function.update_of_ne (fun heq => ?_) _ _).trans hobject)
    obtain ⟨-, rfl⟩ := objectName_inj heq
    cases hdetached.lookup.symm.trans hlookup

/-- What a listing returns includes a partition that is attached and past retention. -/
lemma Stage.list {s : Relations ρ} {t : Table} {todo : List Table}
    {rows : List (String × Option Time)} {names : List String}
    (h : Stage name rel s (.tables (t :: todo))) (hattached : rel.attached = true)
    (hpast : rel.past r (nows rel.table)) (hrows : rows.Perm (catalog.partitions t s))
    (hnames : expired (nows t - r.window t) rows = some names) :
    Stage name rel s (.loop ⟨t, nows t, names, todo⟩) := by
  cases h with
  | ahead hlookup hahead =>
    refine .ahead hlookup ?_
    rcases List.mem_cons.mp hahead with ht | hmem
    · obtain ⟨upper, hupper, hle⟩ := hpast
      refine .inl ⟨ht, (mem_expired hnames).mpr ⟨upper, ?_, ht ▸ hle⟩⟩
      exact hrows.mem_iff.mpr (mem_partitions.mpr ⟨rel, hlookup, hattached, ht, hupper⟩)
    · exact .inr hmem
  | work _ hpartition => cases hpartition
  | archived hlookup hobject => exact .archived hlookup hobject

/-- **A step of a further pass**: a partition that was attached and past retention when the pass
began is still ahead, is worked on, or is archived and gone. -/
lemma Stage.step {s s' : Relations ρ} {pass pass' : Pass ρ} {a : PassAction} {arch : Archiver}
    (h : Stage name rel s pass) (hw : Working s pass)
    (hrule : PassRule catalog r arch s pass a s' pass') (harch : arch ≠ .nil)
    (ha : a.archives = true)
    (hnow : pass.onTime nows a = true)
    (hattached : rel.attached = true) (hpast : rel.past r (nows rel.table))
    (hover : pass'.over = false) : Stage name rel s' pass' := by
  cases hrule with
  | crash | fail | unbounded | detachUnseen | detachFailed | panic | dropUnseen | dropFailed =>
    cases hover
  | putRefused | putUnseen => cases ha
  | skip hnil => exact absurd hnil harch
  | list hrows hnames =>
    obtain rfl := of_decide_eq_true hnow
    exact h.list hattached hpast hrows hnames
  | detach _ hs => exact h.detach hs
  | put => exact h.put hw
  | drop hs => exact h.drop hw hs
  | exportFailed hok =>
    obtain ⟨rel', hdetached⟩ := hw
    have hnone : (s.relations.lookup _).map (·.rows) = none := hok ha
    rw [hdetached.lookup] at hnone
    cases hnone
  | start =>
    cases h with
    | ahead hlookup => exact .ahead hlookup (mem_tables _)
    | work _ hpartition => cases hpartition
    | archived hlookup hobject => exact .archived hlookup hobject
  | finish =>
    cases h with
    | ahead _ hahead => cases hahead
    | work _ hpartition => cases hpartition
    | archived hlookup hobject => exact .archived hlookup hobject
  | next =>
    cases h with
    | ahead hlookup hahead =>
      refine .ahead hlookup (hahead.resolve_left fun hmem => ?_)
      cases hmem.2
    | work _ hpartition => cases hpartition
    | archived hlookup hobject => exact .archived hlookup hobject
  | «export» =>
    cases h with
    | ahead hlookup hahead => exact .ahead hlookup hahead
    | work hlookup hpartition => exact .work hlookup hpartition
    | archived hlookup hobject => exact .archived hlookup hobject

/-- A pass that has ended early takes no step. -/
lemma PassRule.over {s s' : Relations ρ} {pass pass' : Pass ρ} {a : PassAction} {arch : Archiver}
    (h : PassRule catalog r arch s pass a s' pass') (hover : pass'.over = false) :
    pass.over = false := by
  cases h with
  | crash => cases hover
  | _ => rfl

/-- What a detached partition is, it stays: a further pass does not come to it. -/
lemma detached_of_further (hp : (c.procs p).partition = none)
    (hrel : c.shared.relations.lookup name = some rel) (hdetached : rel.attached = false)
    (hrun : Reachable (retireStep r archiver) (Further p nows) c c₁) :
    c₁.shared.relations.lookup name = some rel := by
  have hinv : c₁.shared.relations.lookup name = some rel ∧
      (c₁.procs p).partition ≠ some name := by
    refine hrun.invariant (I := fun c => c.shared.relations.lookup name = some rel ∧
      (c.procs p).partition ≠ some name) ⟨hrel, by simp [hp]⟩ ?_
    rintro c ⟨q, a⟩ c' - ⟨hlookup, hpartition⟩ ⟨hq, -⟩ hstep
    obtain rfl : q = p := hq
    have hact := Interleave.act_of_step hstep
    refine ⟨?_, fun hname => ?_⟩
    · cases relationChange_of_act hact name with
      | same heq => exact heq.trans hlookup
      | detach _ _ hrel' hattached | write hrel' hattached =>
        cases hrel'.symm.trans hlookup
        cases hattached.symm.trans hdetached
      | drop hpass => exact absurd (by rw [hpass]; rfl) hpartition
    · rcases partition_of_act hact hname with hold | ⟨rel', hrel', hattached⟩
      · exact hpartition hold
      · cases hrel'.symm.trans hlookup
        cases hattached.symm.trans hdetached
  exact hinv.1

/-- In a further pass that has not ended early, every partition that was attached and past
retention has its stage. -/
lemma stage_of_further (hworking : AllWorking c) (hp : c.procs p = .idle)
    (harch : archiver p ≠ .nil) (hrel : c.shared.relations.lookup name = some rel)
    (hattached : rel.attached = true) (hpast : rel.past r (nows rel.table))
    (hrun : Reachable (retireStep r archiver) (Further p nows) c c₁) :
    (c₁.procs p).over = false → Stage name rel c₁.shared (c₁.procs p) := by
  have hinv : AllWorking c₁ ∧
      ((c₁.procs p).over = false → Stage name rel c₁.shared (c₁.procs p)) := by
    refine hrun.invariant (I := fun c => AllWorking c ∧
      ((c.procs p).over = false → Stage name rel c.shared (c.procs p)))
      ⟨hworking, fun _ => .ahead hrel (by rw [hp]; trivial)⟩ ?_
    rintro c ia c' - ⟨hworking, hstage⟩ hfurther hstep
    obtain ⟨b, rfl, hsucc, hnow⟩ := hfurther.pass
    refine ⟨hworking.step hstep, fun hover => ?_⟩
    have hact : retireAct r archiver p c.shared (c.procs p) (.pass b) =
        some (c'.shared, c'.procs p) := Interleave.act_of_step hstep
    have hrule := passRule_of_step hact
    exact (hstage (hrule.over hover)).step (hworking.working p) hrule harch hsucc hnow hattached
      hpast hover
  exact hinv.2

/-- **What a further pass makes good.** After any history of passes, let one more pass run alone
and return, and let its archiver succeed on every call. It leaves every partition past retention
archived and dropped exactly if none of these was left detached before. -/
theorem recovery_iff (hidle : ∀ p, c₀.procs p = .idle)
    (h : Reachable (retireStep r archiver) ok c₀ c) (hp : c.procs p = .idle)
    (harch : archiver p ≠ .nil) (hrun : Reachable (retireStep r archiver) (Further p nows) c c₁)
    (hreturned : c₁.procs p = .returned) :
    (∀ name rel, c.shared.relations.lookup name = some rel → rel.past r (nows rel.table) →
      c₁.shared.relations.lookup name = none ∧
        c₁.shared.objects (objectName rel.table name) = some rel.rows) ↔
    ∀ name rel, c.shared.relations.lookup name = some rel → rel.attached = false →
      ¬ rel.past r (nows rel.table) := by
  have hworking := working_of_reachable hidle h
  constructor
  · intro hall name rel hrel hdetached hpast
    have hkept := detached_of_further (by rw [hp]; rfl) hrel hdetached hrun
    cases hkept.symm.trans (hall name rel hrel hpast).1
  · intro hnone name rel hrel hpast
    have hattached : rel.attached = true := by
      cases hatt : rel.attached with
      | true => rfl
      | false => exact absurd hpast (hnone name rel hrel hatt)
    have hstage := stage_of_further hworking hp harch hrel hattached hpast hrun
      (by rw [hreturned]; rfl)
    rw [hreturned] at hstage
    cases hstage with
    | ahead _ hahead => cases hahead
    | work _ hpartition => cases hpartition
    | archived hlookup hobject => exact ⟨hlookup, hobject⟩

/-- The steps of a pass from its first table on that finds nothing to retire there, to its end. -/
def restSteps (p : Pid) : List (Pid × RetireAction Nat) :=
  [(p, .pass .next), (p, .pass (.list 100 [])), (p, .pass .next), (p, .pass (.list 100 [])),
    (p, .pass .next), (p, .pass .next)]

/-- A first pass archives and drops the partition. -/
theorem recovery_first_pass : ∃ c₁,
    Reachable Retiring.smallStep (Further 0 fun _ => 100) Retiring.small c₁ ∧
    c₁.procs 0 = .returned ∧ c₁.shared.relations.lookup "write_intents_20200101" = none ∧
    c₁.shared.objects "write_intents/write_intents_20200101.parquet" = some [1, 2] := by
  obtain ⟨c₁, hrun, hc⟩ := exists_run_of_exec Retiring.smallStep (Further 0 fun _ => 100)
    Retiring.small
    (
      listSteps 0 ++
      [(0, .pass (.detach .ok)), (0, .pass (.export true)), (0, .pass (.put .ok)),
        (0, .pass (.drop .ok))] ++ restSteps 0)
    (fun c₁ => c₁.procs 0 = .returned) (by decide +kernel)
  have hreturned : c₁.procs 0 = .returned := by simpa using hc
  have hbegin : Reachable Retiring.smallStep (fun _ _ => True) Retiring.small Retiring.small :=
    .refl _
  have hall := (recovery_iff (fun _ => rfl) hbegin rfl (by decide) ⟨_, hrun⟩ hreturned).mpr
  have hattached : ∀ name rel, Retiring.small.shared.relations.lookup name = some rel →
      rel.attached = true := by
    intro name rel hrel
    by_cases hname : name = "write_intents_20200101"
    · subst hname
      cases hrel
      rfl
    · rw [Retiring.small, AList.lookup_insert_ne hname] at hrel
      cases hrel
  refine ⟨c₁, ⟨_, hrun⟩, hreturned, ?_⟩
  refine hall (fun name rel hrel hdetached => ?_) "write_intents_20200101" _ rfl
    ⟨7, rfl, by decide⟩
  cases (hattached name rel hrel).symm.trans hdetached

/-- **A partition is never archived.** The archiver of a first pass fails after the partition was
detached. The archiver of the next pass would succeed, but this pass does not come to the
partition: it stays past retention, detached, and in no archive. -/
theorem detached_partition_stays : ∃ c c₁ rel,
    Reachable Retiring.smallStep (fun _ _ => True) Retiring.small c ∧ c.procs 1 = .idle ∧
    c.shared.relations.lookup "write_intents_20200101" = some rel ∧
    rel.past ⟨90, 365, 365⟩ 100 ∧
    Reachable Retiring.smallStep (Further 1 fun _ => 100) c c₁ ∧ c₁.procs 1 = .returned ∧
    c₁.shared.relations.lookup "write_intents_20200101" = some rel ∧
    c₁.shared.objects "write_intents/write_intents_20200101.parquet" = none := by
  obtain ⟨c, hrun, hc⟩ := exists_run_of_exec Retiring.smallStep (fun _ _ => True) Retiring.small
    (
      listSteps 0 ++ [(0, .pass (.detach .ok)), (0, .pass (.export false))] ++ restSteps 0)
    (fun c => c.procs 1 = .idle &&
      (c.shared.relations.lookup "write_intents_20200101").any fun rel =>
        rel.upper = some 7 && rel.table = .writeIntents &&
        (exec Retiring.smallStep (Further 1 fun _ => 100) c
          ([(1, .pass .start), (1, .pass (.list 100 []))] ++ restSteps 1)).any fun c₁ =>
            c₁.procs 1 = .returned &&
            c₁.shared.relations.lookup "write_intents_20200101" = some rel &&
            c₁.shared.objects "write_intents/write_intents_20200101.parquet" = none)
    (by decide +kernel)
  simp only [Bool.and_eq_true, decide_eq_true_eq] at hc
  obtain ⟨hidle, hc⟩ := hc
  obtain ⟨rel, hrel, hc⟩ := (Option.any_eq_true _ _).mp hc
  simp only [Bool.and_eq_true, decide_eq_true_eq] at hc
  obtain ⟨⟨hupper, htable⟩, hc⟩ := hc
  obtain ⟨c₁, hexec, hc⟩ := (Option.any_eq_true _ _).mp hc
  simp only [Bool.and_eq_true, decide_eq_true_eq] at hc
  obtain ⟨⟨hreturned, hkept⟩, hobject⟩ := hc
  refine ⟨c, c₁, rel, ⟨_, hrun⟩, hidle, hrel, ⟨7, hupper, ?_⟩, ⟨_, run_of_exec hexec⟩, hreturned,
    hkept, hobject⟩
  rw [htable]
  decide

/-! ## Passes without an archive -/

/-- The archiver that `run` of `cmd/reconciler` hands on: the pointer that `archive.New` returns,
as a value of the interface type. -/
def wiredArchiver (objects : Bool) : Archiver := .holding (archiveNew objects)

/-- `runMaintenance`, from its own check of the archiver on. What `EnsurePartitions` and
`ExpireKeys` have done before is in the state that it begins with. -/
def runMaintenance (archiver : Archiver) : Pass ρ :=
  if archiver.isNil then .returned else .tables tables

/-- The pass `p` acts alone, and lists the table `t` at the time `nows t`. -/
def Alone (p : Pid) (nows : Table → Time) (c : Retiring ρ) (ia : Pid × RetireAction ρ) : Prop :=
  ia.1 = p ∧ (ia.2.ofPass.any fun a => (c.procs p).onTime nows a) = true

instance (p : Pid) (nows : Table → Time) (c : Retiring ρ) (ia : Pid × RetireAction ρ) :
    Decidable (Alone p nows c ia) :=
  inferInstanceAs (Decidable (_ ∧ _))

/-- The pass has come to an end, by itself or by a crash. -/
def Pass.ended : Pass ρ → Bool
  | .returned => true
  | .failed => true
  | .crashed => true
  | _ => false

/-- What a pass without an archive is to be like, in a state that it reaches from `s`: no nil
pointer was dereferenced, every attached partition is still attached, and the pass has ended or
can do so. -/
structure Harmless (r : Retention) (nows : Table → Time) (p : Pid) (s : Relations ρ)
    (c : Retiring ρ) : Prop where
  sound : c.procs p ≠ .panicked
  attached : ∀ name rel, s.relations.lookup name = some rel → rel.attached = true →
    ∃ rel', c.shared.relations.lookup name = some rel' ∧ rel'.attached = true
  completes : ∃ c', Reachable (retireStep r fun _ => wiredArchiver false) (Alone p nows) c c' ∧
    (c'.procs p).ended = true

/-- The pass comes to a partition past retention: a table has one that is attached, and neither
this table nor one before it has an attached partition without an upper bound, at which the pass
would end. -/
def Finds (r : Retention) (nows : Table → Time) (s : Relations ρ) : List Table → Prop
  | [] => False
  | t :: todo => (∀ name, (name, none) ∉ catalog.partitions t s) ∧
    ((∃ name upper, (name, some upper) ∈ catalog.partitions t s ∧
      upper ≤ nows t - r.window t) ∨ Finds r nows s todo)

section Alone

variable {t : Table} {todo : List Table}

/-- One step of a pass that acts alone. -/
lemma reachable_of_passStep {arch : Archiver} (b : PassAction) (s' : Relations ρ)
    (pass' : Pass ρ) (hstep : (c.procs p).step catalog c.shared r arch b = some (s', pass'))
    (htime : (c.procs p).onTime nows b = true) :
    Reachable (retireStep r fun _ => arch) (Alone p nows) c
      ⟨s', Function.update c.procs p pass'⟩ := by
  refine (Reachable.refl c).snoc (a := (p, .pass b)) ⟨rfl, ?_⟩ ?_
  · simpa [RetireAction.ofPass] using htime
  · exact Interleave.step_eq_some.mpr ⟨s', pass', hstep, rfl⟩

/-- The listing of a table whose partitions have upper bounds. -/
lemma list_step {arch : Archiver} {names : List String} (hp : c.procs p = .tables (t :: todo))
    (hnames : expired (nows t - r.window t) (catalog.partitions t c.shared) = some names) :
    Reachable (retireStep r fun _ => arch) (Alone p nows) c
      ⟨c.shared, Function.update c.procs p (.loop ⟨t, nows t, names, todo⟩)⟩ := by
  refine reachable_of_passStep (.list (nows t) (catalog.partitions t c.shared)) c.shared _ ?_ ?_
  · rw [hp, Pass.step]
    simp [hnames]
  · simp [hp, Pass.onTime]

/-- A table in which nothing is past retention is done with. -/
lemma skip_table {arch : Archiver} (hp : c.procs p = .tables (t :: todo))
    (hnames : expired (nows t - r.window t) (catalog.partitions t c.shared) = some []) :
    ∃ c', Reachable (retireStep r fun _ => arch) (Alone p nows) c c' ∧ c'.shared = c.shared ∧
      c'.procs p = .tables todo := by
  refine ⟨_, (list_step hp hnames).trans (reachable_of_passStep .next
    c.shared (.tables todo) ?_ ?_), rfl, ?_⟩
  · simp [Pass.step]
  · simp [Pass.onTime]
  · simp

/-- A listing is empty exactly if nothing is past retention. -/
lemma expired_eq_nil {s : Relations ρ} {rows : List (String × Option Time)} {names : List String}
    (hrows : rows.Perm (catalog.partitions t s))
    (hnames : expired (nows t - r.window t) rows = some names) (h : ¬ Finds r nows s (t :: todo)) :
    names = [] ∧ ¬ Finds r nows s todo := by
  have hbounded : ∀ name, (name, none) ∉ catalog.partitions t s := by
    intro name hmem
    have hnone : expired (nows t - r.window t) rows = none :=
      expired_eq_none.mpr ⟨name, hrows.mem_iff.mpr hmem⟩
    cases hnone.symm.trans hnames
  refine ⟨List.eq_nil_iff_forall_not_mem.mpr fun name hmem => ?_, fun htodo => ?_⟩
  · obtain ⟨upper, hlisted, hle⟩ := (mem_expired hnames).mp hmem
    exact h ⟨hbounded, .inl ⟨name, upper, hrows.mem_iff.mp hlisted, hle⟩⟩
  · exact h ⟨hbounded, .inr htodo⟩

/-- A pass that finds nothing comes to its end. -/
lemma completes_of_not_finds {arch : Archiver} (todo : List Table) :
    ∀ c : Retiring ρ, c.procs p = .tables todo → ¬ Finds r nows c.shared todo →
      ∃ c', Reachable (retireStep r fun _ => arch) (Alone p nows) c c' ∧
        (c'.procs p).ended = true := by
  induction todo with
  | nil =>
    intro c hp _
    refine ⟨_, reachable_of_passStep .next c.shared .returned ?_ ?_, ?_⟩
    · rw [hp]
      rfl
    · rw [hp]
      rfl
    · simp [Pass.ended]
  | cons t todo ih =>
    intro c hp hnot
    cases hnames : expired (nows t - r.window t) (catalog.partitions t c.shared) with
    | none =>
      refine ⟨_, reachable_of_passStep (.list (nows t) (catalog.partitions t c.shared))
        c.shared .failed ?_ ?_, ?_⟩
      · rw [hp, Pass.step]
        simp [hnames]
      · simp [hp, Pass.onTime]
      · simp [Pass.ended]
    | some names =>
      obtain ⟨rfl, htodo⟩ := expired_eq_nil (.refl _) hnames hnot
      obtain ⟨c₁, hrun, hshared, hp₁⟩ := skip_table hp hnames
      obtain ⟨c', hrest, hended⟩ := ih c₁ hp₁ (hshared ▸ htodo)
      exact ⟨c', hrun.trans hrest, hended⟩

/-- A pass with a nil archive that finds a partition past retention panics. -/
lemma panics_of_finds (todo : List Table) :
    ∀ c : Retiring ρ, c.procs p = .tables todo → Finds r nows c.shared todo →
      ∃ c', Reachable (retireStep r fun _ => wiredArchiver false) (Alone p nows) c c' ∧
        c'.procs p = .panicked := by
  induction todo with
  | nil => exact fun _ _ hfinds => hfinds.elim
  | cons t todo ih =>
    rintro c hp ⟨hbounded, hfinds⟩
    have hsome : expired (nows t - r.window t) (catalog.partitions t c.shared) ≠ none :=
      fun hnone => (expired_eq_none.mp hnone).elim hbounded
    obtain ⟨names, hnames⟩ := Option.ne_none_iff_exists'.mp hsome
    cases names with
    | nil =>
      have htodo : Finds r nows c.shared todo := by
        refine hfinds.resolve_left ?_
        rintro ⟨name, upper, hlisted, hle⟩
        cases (mem_expired hnames).mpr ⟨upper, hlisted, hle⟩
      obtain ⟨c₁, hrun, hshared, hp₁⟩ := skip_table hp hnames
      obtain ⟨c', hrest, hpanicked⟩ := ih c₁ hp₁ (hshared ▸ htodo)
      exact ⟨c', hrun.trans hrest, hpanicked⟩
    | cons name names =>
      -- The interface is not nil, so the partition is detached, and the export panics.
      obtain ⟨upper, hlisted, -⟩ := (mem_expired hnames).mp List.mem_cons_self
      obtain ⟨rel, hlookup, hattached, htable, -⟩ := mem_partitions.mp hlisted
      have hdetach : ∃ s', catalog.detach t name c.shared = some s' := by
        refine ⟨{ c.shared with
          relations := c.shared.relations.insert name { rel with attached := false } }, ?_⟩
        simp [catalog, Relations.detach, hlookup, hattached, htable]
      obtain ⟨s', hs'⟩ := hdetach
      refine ⟨_, ((list_step hp hnames).trans (reachable_of_passStep (.detach .ok)
        s' (.archive name ⟨t, nows t, names, todo⟩) ?_ ?_)).trans
        (reachable_of_passStep (.export true) s' .panicked ?_ ?_), ?_⟩
      · simp [Pass.step, wiredArchiver, Archiver.isNil, detachPartition, hs']
      · simp [Pass.onTime]
      · simp [Pass.step, wiredArchiver, archiveNew, exportPartition]
      · simp [Pass.onTime]
      · simp

/-- Where a pass stands that has found nothing. -/
def Pass.Calm (r : Retention) (nows : Table → Time) (s : Relations ρ) : Pass ρ → Prop
  | .tables todo => ¬ Finds r nows s todo
  | .loop cur => cur.expired = [] ∧ ¬ Finds r nows s cur.todo
  | .returned => True
  | .failed => True
  | .crashed => True
  | _ => False

/-- A pass that has found nothing changes nothing. -/
lemma Pass.Calm.step {s s' : Relations ρ} {pass pass' : Pass ρ} {a : PassAction} {arch : Archiver}
    (h : pass.Calm r nows s) (hrule : PassRule catalog r arch s pass a s' pass')
    (hnow : pass.onTime nows a = true) : s' = s ∧ pass'.Calm r nows s := by
  cases hrule with
  | crash | finish | fail | unbounded => exact ⟨rfl, trivial⟩
  | list hrows hnames =>
    obtain rfl := of_decide_eq_true hnow
    exact ⟨rfl, expired_eq_nil hrows hnames h⟩
  | next => exact ⟨rfl, h.2⟩
  | skip | detach | detachUnseen | detachFailed => cases h.1
  | start | panic | «export» | exportFailed | put | putRefused | putUnseen | drop | dropUnseen
  | dropFailed => exact h.elim

/-- A pass that has found nothing can come to its end. -/
lemma Pass.Calm.completes {arch : Archiver} (h : (c.procs p).Calm r nows c.shared) :
    ∃ c', Reachable (retireStep r fun _ => arch) (Alone p nows) c c' ∧
      (c'.procs p).ended = true := by
  cases hp : c.procs p with
  | tables todo =>
    rw [hp] at h
    exact completes_of_not_finds todo c hp h
  | loop cur =>
    rw [hp] at h
    obtain ⟨t, now, names, todo⟩ := cur
    obtain ⟨rfl, hnot⟩ : names = [] ∧ ¬ Finds r nows c.shared todo := h
    have hrun : Reachable (retireStep r fun _ => arch) (Alone p nows) c
        ⟨c.shared, Function.update c.procs p (.tables todo)⟩ := by
      refine reachable_of_passStep .next c.shared _ ?_ ?_ <;> rw [hp] <;> rfl
    obtain ⟨c', hrest, hended⟩ := completes_of_not_finds todo
      ⟨c.shared, Function.update c.procs p (.tables todo)⟩ (Function.update_self ..) hnot
    exact ⟨c', hrun.trans hrest, hended⟩
  | returned | failed | crashed => exact ⟨c, .refl c, by rw [hp]; rfl⟩
  | idle | archive | put | drop | panicked =>
    rw [hp] at h
    exact h.elim

end Alone

/-- **A pass without an archive.** With no object store configured, a pass as `cmd/reconciler`
wires it dereferences no nil pointer, completes and leaves every partition attached exactly if it
does not come to a partition past retention. -/
theorem unarchived_pass_iff {s : Relations ρ} :
    (∀ c, Reachable (retireStep r fun _ => wiredArchiver false) (Alone p nows)
      ⟨s, fun _ => runMaintenance (wiredArchiver false)⟩ c → Harmless r nows p s c) ↔
    ¬ Finds r nows s tables := by
  constructor
  · intro hall hfinds
    obtain ⟨c, hrun, hpanicked⟩ := panics_of_finds (p := p) tables
      ⟨s, fun _ => runMaintenance (wiredArchiver false)⟩ rfl hfinds
    exact (hall c hrun).sound hpanicked
  · intro hnot c hrun
    have hinv : c.shared = s ∧ (c.procs p).Calm r nows s := by
      refine hrun.invariant (I := fun c => c.shared = s ∧ (c.procs p).Calm r nows s)
        ⟨rfl, hnot⟩ ?_
      rintro c ⟨q, a⟩ c' - ⟨rfl, hcalm⟩ ⟨hq, htime⟩ hstep
      obtain rfl : q = p := hq
      obtain ⟨b, hb, htime⟩ := (Option.any_eq_true _ _).mp htime
      cases a with
      | write => cases hb
      | pass b =>
        cases hb
        have hact : retireAct r (fun _ => wiredArchiver false) q c.shared (c.procs q) (.pass b) =
            some (c'.shared, c'.procs q) := Interleave.act_of_step hstep
        exact hcalm.step (passRule_of_step hact) htime
    obtain ⟨rfl, hcalm⟩ := hinv
    refine ⟨fun hpanicked => ?_, fun name rel hrel hattached => ⟨rel, hrel, hattached⟩,
      hcalm.completes⟩
    rw [hpanicked] at hcalm
    exact hcalm

/-- **A pass without an archive panics.** There is no object store, and the partition is past
retention: the pass detaches it, and then dereferences a nil pointer. -/
theorem unarchived_pass_panics : ∃ c,
    Reachable (retireStep ⟨90, 365, 365⟩ fun _ => wiredArchiver false) (Alone 0 fun _ => 100)
      ⟨Retiring.small.shared, fun _ => runMaintenance (wiredArchiver false)⟩ c ∧
    c.procs 0 = .panicked ∧
    (Retiring.small.shared.relations.lookup "write_intents_20200101").any (·.attached) = true ∧
    (c.shared.relations.lookup "write_intents_20200101").any (·.attached) = false := by
  obtain ⟨c, hrun, hc⟩ := exists_run_of_exec
    (retireStep ⟨90, 365, 365⟩ fun _ => wiredArchiver false) (Alone 0 fun _ => 100)
    ⟨Retiring.small.shared, fun _ => runMaintenance (wiredArchiver false)⟩
    ((listSteps 0).tail ++ [(0, .pass (.detach .ok)), (0, .pass (.export true))])
    (fun c => c.procs 0 = .panicked &&
      !(c.shared.relations.lookup "write_intents_20200101").any (·.attached))
    (by decide +kernel)
  simp only [Bool.and_eq_true, decide_eq_true_eq, Bool.not_eq_true'] at hc
  exact ⟨c, ⟨_, hrun⟩, hc.1, by decide +kernel, hc.2⟩

end Idemio
