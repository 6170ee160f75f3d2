import Idemio.Manifest
import Idemio.System.Step

set_option relaxedAutoImplicit false
set_option autoImplicit false

/-!
# The activation log

A process records each snapshot that it activates in `manifest_activations`, so that one can tell
later which version it was serving. It activates the snapshot that it boots with, and then every
one whose version differs from the one that it serves. The table has one row for each process and
version, though, and an insert of a second one does nothing. So a version that comes back after
another one leaves no trace, and the last row of the process names the other one.

## Main definitions

* `Idemio.ActivationLog` — the table with its unique index, in the order of its inserts.
* `Idemio.Serving`, `Idemio.boot`, `Idemio.Serving.step` — a process, its start, and one event.
* `Idemio.Serving.LogNamesServed` — the last row of the process names what it serves.
* `Idemio.loadedVersions` — the versions that a process reads from its directory.

## Main results

* `Idemio.log_names_served_iff` — the log names the version that is served at all times exactly
  if no version comes back.
-/

namespace Idemio

/-! ## The table -/

/-- A row of `manifest_activations`. -/
structure ActivationRow where
  manifestVersion : String
  principal : String
  resourceTypes : List String
  deriving DecidableEq, Repr

/-- The columns of the unique index. -/
def ActivationRow.indexed (r : ActivationRow) : String × String := (r.principal, r.manifestVersion)

/-- `manifest_activations`, in the order of `activated_at`. -/
structure ActivationLog where
  rows : List ActivationRow
  unique : (rows.map ActivationRow.indexed).Nodup

/-- `INSERT ... ON CONFLICT (principal, manifest_version) DO NOTHING`. -/
def ActivationLog.insert (log : ActivationLog) (row : ActivationRow) : ActivationLog :=
  if h : row.indexed ∈ log.rows.map ActivationRow.indexed then log
  else ⟨log.rows ++ [row], by
    rw [List.map_append]
    exact List.Nodup.append log.unique (List.nodup_singleton _)
      (List.disjoint_singleton.mpr h)⟩

/-- `RecordActivation`. -/
def recordActivation (log : ActivationLog) (snapshot : ManifestSnapshot) (principal : String) :
    ActivationLog :=
  log.insert ⟨snapshot.version, principal, snapshot.types⟩

/-- The versions that a process has recorded, in order. -/
def ActivationLog.versions (log : ActivationLog) (principal : String) : List String :=
  (log.rows.filter fun r => r.principal = principal).map ActivationRow.manifestVersion

/-! ## The process -/

/-- What happens while a process serves: its `Watch` reads the directory, or another process
inserts a row. -/
inductive WatchEvent (principal : String)
  | tick (d : Directory)
  | foreign (row : ActivationRow) (hother : row.principal ≠ principal)

/-- A process with its `Store`, and the table. -/
structure Serving where
  store : ManifestStore
  log : ActivationLog

/-- The start of a process: it records the snapshot that it boots with. -/
def boot (env : Env) (principal : String) (log : ActivationLog) (d : Directory) :
    Except LoadError Serving :=
  (newStore env d).map fun s => ⟨s, recordActivation log s.current principal⟩

/-- One event: a snapshot that is activated is recorded. -/
def Serving.step (env : Env) (principal : String) (p : Serving) :
    WatchEvent principal → Serving
  | .tick d =>
    match p.store.reload env d with
    | .error _ => p
    | .ok (store, snapshot) => ⟨store, recordActivation p.log snapshot principal⟩
  | .foreign row _ => { p with log := p.log.insert row }

/-- The last row of the process names the version that it serves. -/
def Serving.LogNamesServed (principal : String) (p : Serving) : Prop :=
  (p.log.versions principal).getLast? = some p.store.current.version

/-- The version that an event reads, if the contents of the directory are valid. -/
def WatchEvent.version? (env : Env) {principal : String} : WatchEvent principal → Option String
  | .tick d => (load env d).toOption.map ManifestSnapshot.version
  | .foreign _ _ => none

/-- The versions that a process reads: the one that it boots with, and those of its events. -/
def loadedVersions (env : Env) {principal : String} (d : Directory)
    (events : List (WatchEvent principal)) : List String :=
  (.tick d :: events).filterMap (WatchEvent.version? env)

/-! ## What is recorded -/

section Insert

variable {log : ActivationLog} {principal : String} {row : ActivationRow}

/-- A version is recorded if it is indexed. -/
lemma ActivationLog.mem_versions_iff :
    row.manifestVersion ∈ log.versions row.principal ↔
      row.indexed ∈ log.rows.map ActivationRow.indexed := by
  simp only [ActivationLog.versions, ActivationRow.indexed, List.mem_map, List.mem_filter,
    decide_eq_true_eq, Prod.mk.injEq]
  tauto

lemma ActivationLog.nodup_versions (log : ActivationLog) (principal : String) :
    (log.versions principal).Nodup := by
  refine List.Nodup.map_on ?_ (List.Nodup.filter _ (List.Nodup.of_map _ log.unique))
  intro r hr r' hr' heq
  simp only [List.mem_filter, decide_eq_true_eq] at hr hr'
  exact List.inj_on_of_nodup_map log.unique hr.1 hr'.1
    (Prod.ext (hr.2.trans hr'.2.symm) heq)

/-- An insert of another process leaves the versions of this one alone. -/
lemma ActivationLog.versions_insert_of_ne (hother : row.principal ≠ principal) :
    (log.insert row).versions principal = log.versions principal := by
  unfold ActivationLog.insert
  split
  · rfl
  · simp [ActivationLog.versions, hother]

/-- A version is appended unless it was recorded before. -/
lemma ActivationLog.versions_insert :
    (log.insert row).versions row.principal =
      if row.manifestVersion ∈ log.versions row.principal then log.versions row.principal
      else log.versions row.principal ++ [row.manifestVersion] := by
  unfold ActivationLog.insert
  simp only [ActivationLog.mem_versions_iff]
  split
  · rfl
  · simp [ActivationLog.versions]

end Insert

/-! ## Versions that come back -/

/-- A version stands before and after another one. -/
def ComesBack (versions : List String) : Prop :=
  ∃ v w, v ≠ w ∧ [v, w, v].Sublist versions

/-- The versions that are recorded, after a version is recorded. -/
def record (recorded : List String) (v : String) : List String :=
  if v ∈ recorded then recorded else recorded ++ [v]

/-- The recorded versions are those that were read, with the same one last, and none of them came
back. -/
structure KeepsTrack (recorded read : List String) : Prop where
  mem_iff : ∀ v, v ∈ recorded ↔ v ∈ read
  last : recorded.getLast? = read.getLast?
  once : ¬ ComesBack read

section ComesBack

variable {recorded l : List String} {v w : String}

lemma ComesBack.append (h : ComesBack l) (l' : List String) : ComesBack (l ++ l') := by
  obtain ⟨v, w, hne, hsub⟩ := h
  exact ⟨v, w, hne, hsub.trans (List.sublist_append_left l l')⟩

lemma not_comesBack_of_nodup (h : l.Nodup) : ¬ ComesBack l := by
  rintro ⟨v, w, -, hsub⟩
  simpa using h.sublist hsub

/-- A sequence that ends with another version than the list ends before that. -/
lemma sublist_of_concat_sublist {l₀ : List String} (h : (l₀ ++ [w]).Sublist (l ++ [v])) :
    (l₀ ++ [w]).Sublist l ∨ l₀.Sublist l ∧ w = v := by
  obtain ⟨l₁, l₂, heq, h₁, h₂⟩ := List.sublist_append_iff.mp h
  rcases List.sublist_singleton.mp h₂ with rfl | rfl
  · rw [List.append_nil] at heq
    exact .inl (heq ▸ h₁)
  · obtain ⟨rfl, hv⟩ := List.append_inj' heq rfl
    exact .inr ⟨h₁, List.singleton_inj.mp hv⟩

/-- The version that was read last does not come back by being read again. -/
lemma not_comesBack_concat_last (h : ¬ ComesBack l) (hlast : l.getLast? = some v) :
    ¬ ComesBack (l ++ [v]) := by
  rintro ⟨x, w, hne, hsub⟩
  have hsub' : ([x, w] ++ [x]).Sublist (l ++ [v]) := hsub
  rcases sublist_of_concat_sublist hsub' with hback | ⟨hpair, rfl⟩
  · exact h ⟨x, w, hne, hback⟩
  · obtain ⟨l', rfl⟩ := List.getLast?_eq_some_iff.mp hlast
    have hpair' : ([x] ++ [w]).Sublist (l' ++ [x]) := hpair
    rcases sublist_of_concat_sublist hpair' with hpair | ⟨-, heq⟩
    · exact h ⟨x, w, hne, hpair.append (List.Sublist.refl [x])⟩
    · exact hne heq.symm

/-- A version that was not read before does not come back. -/
lemma not_comesBack_concat_new (h : ¬ ComesBack l) (hnew : v ∉ l) : ¬ ComesBack (l ++ [v]) := by
  rintro ⟨x, w, hne, hsub⟩
  have hsub' : ([x, w] ++ [x]).Sublist (l ++ [v]) := hsub
  rcases sublist_of_concat_sublist hsub' with hback | ⟨hpair, rfl⟩
  · exact h ⟨x, w, hne, hback⟩
  · exact hnew (hpair.subset List.mem_cons_self)

/-- One that was read before another one does. -/
lemma comesBack_concat_of_mem (hmem : v ∈ l) (hlast : l.getLast? = some w) (hne : v ≠ w) :
    ComesBack (l ++ [v]) := by
  obtain ⟨l', rfl⟩ := List.getLast?_eq_some_iff.mp hlast
  have hmem' : v ∈ l' := by simpa [hne] using hmem
  have hsub : ([v] ++ [w]).Sublist (l' ++ [w]) :=
    (List.singleton_sublist.mpr hmem').append (List.Sublist.refl [w])
  exact ⟨v, w, hne, hsub.append (List.Sublist.refl [v])⟩

/-- Recording a version keeps track of what was read, unless the version comes back; then another
one stays last. -/
lemma KeepsTrack.record (h : KeepsTrack recorded l) (v : String) :
    KeepsTrack (record recorded v) (l ++ [v]) ∨
      (Idemio.record recorded v).getLast? ≠ some v ∧ ComesBack (l ++ [v]) := by
  unfold Idemio.record
  by_cases hmem : v ∈ recorded
  · rw [if_pos hmem]
    have hread := (h.mem_iff v).mp hmem
    by_cases hlast : recorded.getLast? = some v
    · refine .inl ⟨fun x => ?_, ?_, not_comesBack_concat_last h.once (h.last ▸ hlast)⟩
      · rw [h.mem_iff, List.mem_append, List.mem_singleton]
        exact ⟨.inl, fun hx => hx.elim id fun hx => hx ▸ hread⟩
      · rw [hlast, List.getLast?_concat]
    · have hw := List.getLast?_eq_some_getLast (List.ne_nil_of_mem hmem)
      set w := recorded.getLast (List.ne_nil_of_mem hmem)
      have hne : v ≠ w := fun heq => hlast (heq ▸ hw)
      exact .inr ⟨hlast, comesBack_concat_of_mem hread (h.last ▸ hw) hne⟩
  · rw [if_neg hmem]
    have hnew : v ∉ l := fun hv => hmem ((h.mem_iff v).mpr hv)
    refine .inl ⟨fun x => ?_, ?_, not_comesBack_concat_new h.once hnew⟩
    · rw [List.mem_append, List.mem_append, h.mem_iff]
    · rw [List.getLast?_concat, List.getLast?_concat]

end ComesBack

/-! ## Runs -/

section Runs

variable {env : Env} {principal : String} {p : Serving} {read : List String}

/-- An event that reads a version makes the process serve it, and the version is recorded. If it
is the one that is served already, that was recorded before. -/
lemma Serving.step_of_version {e : WatchEvent principal} {v : String}
    (hversion : e.version? env = some v)
    (hserved : p.store.current.version ∈ p.log.versions principal) :
    (p.step env principal e).store.current.version = v ∧
      (p.step env principal e).log.versions principal = record (p.log.versions principal) v := by
  cases e with
  | foreign row hother => cases hversion
  | tick d =>
    cases hload : load env d with
    | error err => simp [WatchEvent.version?, hload, Except.toOption] at hversion
    | ok snapshot =>
      have hv : snapshot.version = v := by
        simpa [WatchEvent.version?, hload, Except.toOption] using hversion
      simp only [Serving.step, ManifestStore.reload, hload]
      by_cases hsame : snapshot.version = p.store.current.version
      · rw [if_pos hsame]
        have hcurrent : p.store.current.version = v := hsame ▸ hv
        exact ⟨hcurrent, (if_pos (hcurrent ▸ hserved)).symm⟩
      · rw [if_neg hsame]
        subst hv
        exact ⟨rfl, @ActivationLog.versions_insert p.log
          ⟨snapshot.version, principal, snapshot.types⟩⟩

/-- Any other event leaves what is served and what is recorded alone. -/
lemma Serving.step_of_none {e : WatchEvent principal} (hversion : e.version? env = none) :
    (p.step env principal e).store = p.store ∧
      (p.step env principal e).log.versions principal = p.log.versions principal := by
  cases e with
  | foreign row hother => exact ⟨rfl, ActivationLog.versions_insert_of_ne hother⟩
  | tick d =>
    cases hload : load env d with
    | ok snapshot => simp [WatchEvent.version?, hload, Except.toOption] at hversion
    | error err => simp [Serving.step, ManifestStore.reload, hload]

/-- The log names the version that is served through all events exactly if no version comes back,
as long as it has kept track so far.

**Proof sketch.** Induction on the events. An event that reads a version extends what was read.
Either the log keeps track, and the rest of the events decides, or the version comes back and the
log names another one from then on. -/
lemma logNamesServed_iff_of_tracks (htracks : KeepsTrack (p.log.versions principal) read)
    (hserved : read.getLast? = some p.store.current.version)
    (events : List (WatchEvent principal)) :
    (∀ n, Serving.LogNamesServed principal ((events.take n).foldl (Serving.step env principal) p)) ↔
      ¬ ComesBack (read ++ events.filterMap (WatchEvent.version? env)) := by
  induction events generalizing p read with
  | nil =>
    simp only [List.take_nil, List.foldl_nil, List.filterMap_nil, List.append_nil]
    exact ⟨fun _ => htracks.once, fun _ _ => htracks.last.trans hserved⟩
  | cons e events ih =>
    have hsplit : (∀ n, Serving.LogNamesServed principal
        (((e :: events).take n).foldl (Serving.step env principal) p)) ↔
        ∀ n, Serving.LogNamesServed principal
          ((events.take n).foldl (Serving.step env principal) (p.step env principal e)) := by
      refine ⟨fun h n => h (n + 1), fun h n => ?_⟩
      cases n with
      | zero => exact htracks.last.trans hserved
      | succ n => exact h n
    rw [hsplit]
    cases hversion : e.version? env with
    | none =>
      obtain ⟨hstore, hlog⟩ := p.step_of_none hversion
      rw [List.filterMap_cons_none hversion]
      exact ih (hlog ▸ htracks) (hstore ▸ hserved)
    | some v =>
      have hmem : p.store.current.version ∈ p.log.versions principal :=
        (htracks.mem_iff _).mpr (List.mem_of_getLast? hserved)
      obtain ⟨hstore, hlog⟩ := p.step_of_version hversion hmem
      rw [List.filterMap_cons_some hversion, List.append_cons]
      rcases htracks.record v with htracks' | ⟨hlast, hback⟩
      · exact ih (hlog ▸ htracks') (by rw [hstore, List.getLast?_concat])
      · refine ⟨fun h => ?_, fun h => absurd (hback.append _) h⟩
        have hfirst := h 0
        unfold Serving.LogNamesServed at hfirst
        simp only [List.take_zero, List.foldl_nil, hlog, hstore] at hfirst
        exact absurd hfirst hlast

/-- **The log names the version that is served exactly if no version comes back.** After a process
has booted, and after each reload that activates a snapshot and each other event, its last row in
`manifest_activations` names the version that it serves, exactly if no version comes back among
those that its principal had recorded before and those that it reads. -/
theorem log_names_served_iff {log : ActivationLog} {d : Directory}
    (hboot : boot env principal log d = .ok p) (events : List (WatchEvent principal)) :
    (∀ n, Serving.LogNamesServed principal ((events.take n).foldl (Serving.step env principal) p)) ↔
      ¬ ComesBack (log.versions principal ++ loadedVersions env d events) := by
  cases hload : load env d with
  | error err => simp [boot, newStore, hload, Except.map] at hboot
  | ok snapshot =>
    have hp : p = ⟨⟨snapshot⟩, recordActivation log snapshot principal⟩ := by
      simpa [boot, newStore, hload, Except.map, eq_comm] using hboot
    have hlog : p.log.versions principal = record (log.versions principal) snapshot.version := by
      rw [hp]
      exact @ActivationLog.versions_insert log ⟨snapshot.version, principal, snapshot.types⟩
    have hversion : (WatchEvent.tick d : WatchEvent principal).version? env =
        some snapshot.version := by
      simp [WatchEvent.version?, hload, Except.toOption]
    have htracks : KeepsTrack (log.versions principal) (log.versions principal) :=
      ⟨fun _ => Iff.rfl, rfl, not_comesBack_of_nodup (log.nodup_versions principal)⟩
    rw [loadedVersions, List.filterMap_cons_some hversion, List.append_cons]
    rcases htracks.record snapshot.version with htracks' | ⟨hlast, hback⟩
    · exact logNamesServed_iff_of_tracks (hlog ▸ htracks') (by rw [hp, List.getLast?_concat]) events
    · refine ⟨fun h => ?_, fun h => absurd (hback.append _) h⟩
      have hfirst := h 0
      unfold Serving.LogNamesServed at hfirst
      simp only [List.take_zero, List.foldl_nil, hlog] at hfirst
      rw [hp] at hfirst
      exact absurd hfirst hlast

end Runs

/-! ## Going back to an earlier version -/

/-- A manifest for the resource type `a`, if that is the letter:
`{"resource_type":"a","conflict_window_ms":1,"probe_path":"/","operations":`
`{"put":{"class":"append"}},"errors":{"definitive":[{"from":200,"to":299}]}}`. -/
def manifestText (letter : UInt8) : RawMessage :=
  [123, 34, 114, 101, 115, 111, 117, 114, 99, 101, 95, 116, 121, 112, 101, 34, 58, 34, letter, 34,
   44, 34, 99, 111, 110, 102, 108, 105, 99, 116, 95, 119, 105, 110, 100, 111, 119, 95, 109, 115,
   34, 58, 49, 44, 34, 112, 114, 111, 98, 101, 95, 112, 97, 116, 104, 34, 58, 34, 47, 34, 44, 34,
   111, 112, 101, 114, 97, 116, 105, 111, 110, 115, 34, 58, 123, 34, 112, 117, 116, 34, 58, 123,
   34, 99, 108, 97, 115, 115, 34, 58, 34, 97, 112, 112, 101, 110, 100, 34, 125, 125, 44, 34, 101,
   114, 114, 111, 114, 115, 34, 58, 123, 34, 100, 101, 102, 105, 110, 105, 116, 105, 118, 101, 34,
   58, 91, 123, 34, 102, 114, 111, 109, 34, 58, 50, 48, 48, 44, 34, 116, 111, 34, 58, 50, 57, 57,
   125, 93, 125, 125]

/-- A directory with one manifest. -/
def Directory.small (resourceType : String) (letter : UInt8) : Directory :=
  ⟨[(resourceType ++ ".json", .ok (manifestText letter))], List.nodup_singleton _⟩

/-- What is loaded from it. -/
def ManifestSnapshot.small (version resourceType : String) : ManifestSnapshot :=
  ⟨version, [(resourceType, ⟨resourceType, millisecond, false, "/", [("put", ⟨"append", .nil⟩)],
    ⟨[⟨200, 299⟩], []⟩⟩)]⟩

/-- An environment whose digest is the first eight bytes. -/
def Env.digest : Env := { Env.small with sha256 := fun bytes => bytes.take 8 }

lemma load_small_a : load .digest (.small "a" 97) = .ok (.small "617b227265736f75" "a") := by
  decide +kernel

lemma load_small_b : load .digest (.small "b" 98) = .ok (.small "627b227265736f75" "b") := by
  decide +kernel

/-- The table without rows. -/
def ActivationLog.empty : ActivationLog := ⟨[], List.nodup_nil⟩

/-- The process that boots with the first version. -/
def Serving.small : Serving :=
  ⟨⟨.small "617b227265736f75" "a"⟩,
    recordActivation .empty (.small "617b227265736f75" "a") "host/1"⟩

lemma boot_small : boot .digest "host/1" .empty (.small "a" 97) = .ok .small := by
  simp [boot, newStore, load_small_a, Except.map, Serving.small]

/-- A process that goes on from one version to another records both. -/
theorem log_names_served_two : boot .digest "host/1" .empty (.small "a" 97) = .ok .small ∧
    ∀ n, Serving.LogNamesServed "host/1"
      (([.tick (.small "b" 98)].take n).foldl (Serving.step .digest "host/1") .small) := by
  refine ⟨boot_small, (log_names_served_iff boot_small _).mpr (not_comesBack_of_nodup ?_)⟩
  simp [loadedVersions, WatchEvent.version?, load_small_a, load_small_b, Except.toOption,
    ActivationLog.versions, ActivationLog.empty, ManifestSnapshot.small]

/-- A process that boots with one version, activates another one and goes back to the first: its
last row names the other one. -/
theorem earlier_version_not_named : boot .digest "host/1" .empty (.small "a" 97) = .ok .small ∧
    ¬ Serving.LogNamesServed "host/1"
      (([.tick (.small "b" 98), .tick (.small "a" 97)] : List (WatchEvent "host/1")).foldl
        (Serving.step .digest "host/1") .small) := by
  refine ⟨boot_small, ?_⟩
  simp [Serving.LogNamesServed, Serving.step, ManifestStore.reload, load_small_a, load_small_b,
    Serving.small, ManifestSnapshot.small, recordActivation, ActivationLog.insert,
    ActivationLog.empty, ActivationLog.versions, ActivationRow.indexed]

end Idemio
