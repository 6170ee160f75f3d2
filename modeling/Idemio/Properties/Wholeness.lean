import Mathlib.Data.List.Forall2
import Idemio.Properties.Activation

set_option relaxedAutoImplicit false
set_option autoImplicit false

/-!
# A served manifest is whole and unambiguous

`Load` goes on after a problem and fills its map with definitions of files that have failed. What
it returns is made of good files only all the same, because one problem anywhere discards all of
it. So a process serves, at all times, the definitions of one directory in which every file was
valid.

## Main definitions

* `Idemio.Declares` — a file passed validation and gave a definition.
* `Idemio.ManifestDefinition.Unambiguous` — what validation promises of a definition.
* `Idemio.ManifestStore.watch` — a store after a sequence of reloads.

## Main results

* `Idemio.load_ok` — a snapshot has one definition for each file of its directory.
* `Idemio.served_manifest_whole` — this holds of every snapshot that is ever served.
-/

namespace Idemio

/-- The file passed validation and gave this entry of the map. -/
def Declares (file : String × Except String RawMessage) (entry : String × ManifestDefinition) :
    Prop :=
  ∃ raw doc, file.2 = .ok raw ∧ decodeDocument raw = some doc ∧ doc.validate (stem file.1) = [] ∧
    entry = (doc.resourceType, doc.definition)

/-- What validation promises of the definition of a type. -/
structure ManifestDefinition.Unambiguous (name : String) (definition : ManifestDefinition) : Prop
    where
  type : definition.type = name
  exclusive : ∀ status : Int, ¬(definition.errors.isDefinitive status = true ∧
    definition.errors.isNotExecuted status = true)
  classed : ∀ o ∈ definition.operations, o.2.cls ∈ classes
  mutates : ∀ o ∈ definition.operations, o.2.scope.elements ≠ [] → o.2.cls = "mutate"

/-- `Current` after one round of `Watch`. -/
def ManifestStore.after (env : Env) (s : ManifestStore) (d : Directory) : ManifestStore :=
  match s.reload env d with
  | .ok r => r.1
  | .error _ => s

/-- `Current` after a sequence of rounds. -/
def ManifestStore.watch (env : Env) (s : ManifestStore) (ds : List Directory) : ManifestStore :=
  ds.foldl (ManifestStore.after env) s

variable {env : Env} {d : Directory}

/-! ## Validation -/

/-- **No status is in two ranges that do not overlap.** -/
lemma exclusive_of_validate {e : DocumentErrors} (h : e.validate = []) (status : Int) :
    ¬(e.definitive.elements.any (·.contains status) = true ∧
      e.notExecuted.elements.any (·.contains status) = true) := by
  rintro ⟨hdefinitive, hnotExecuted⟩
  obtain ⟨r, hr, hin⟩ := List.any_eq_true.mp hdefinitive
  obtain ⟨r', hr', hin'⟩ := List.any_eq_true.mp hnotExecuted
  rw [DocumentErrors.validate, List.append_eq_nil_iff] at h
  have hapart := List.flatMap_eq_nil_iff.mp (List.flatMap_eq_nil_iff.mp h.2 r hr) r' hr'
  simp only [problemIf_eq_nil, Bool.and_eq_false_iff, decide_eq_false_iff_not] at hapart
  simp only [StatusRange.contains, Bool.and_eq_true, decide_eq_true_eq] at hin hin'
  omega

/-- **A valid file declares its own type**, and nothing ambiguous. -/
lemma unambiguous_of_validate {doc : Document} {name : String} (h : doc.validate name = []) :
    doc.resourceType = name ∧ doc.definition.Unambiguous name := by
  simp only [Document.validate, List.append_eq_nil_iff, List.flatMap_eq_nil_iff] at h
  obtain ⟨⟨⟨⟨⟨htype, -⟩, -⟩, -⟩, herrors⟩, hoperations⟩ := h
  have hname : doc.resourceType = name := by
    split_ifs at htype with hempty
    simpa using htype
  have hoperation : ∀ o ∈ doc.operations, o.2.cls ∈ classes ∧
      (o.2.scope.elements ≠ [] → o.2.cls = "mutate") := by
    intro o ho
    have hvalid := hoperations o ho
    simp only [DocumentOperation.validate, List.append_eq_nil_iff, problemIf_eq_nil] at hvalid
    obtain ⟨⟨hclass, hselector⟩, -⟩ := hvalid
    refine ⟨by simpa using hclass, fun hscope => ?_⟩
    simpa [hscope] using hselector
  exact ⟨hname, hname, exclusive_of_validate herrors, fun o ho => (hoperation o ho).1,
    fun o ho => (hoperation o ho).2⟩

lemma Declares.unambiguous {file : String × Except String RawMessage}
    {entry : String × ManifestDefinition} (h : Declares file entry) :
    entry.1 = stem file.1 ∧ entry.2.Unambiguous (stem file.1) := by
  obtain ⟨raw, doc, -, -, hvalid, rfl⟩ := h
  exact unambiguous_of_validate hvalid

/-! ## `Load` -/

/-- A file that adds no problem adds its definition, under a type that is new. -/
lemma loadFile_ok {l l' : Loading} {file : String × Except String RawMessage}
    (h : loadFile l file = .ok l') (hnil : l'.problems = []) :
    l.problems = [] ∧ ∃ entry, Declares file entry ∧ entry.1 ∉ l.byType.map Prod.fst ∧
      l'.byType = l.byType ++ [entry] := by
  unfold loadFile at h
  split at h
  · cases h
  · next raw hraw =>
    dsimp only at h
    split at h
    · cases h
      simp at hnil
    · next doc hdoc =>
      split_ifs at h with htwice
      · cases h
        simp at hnil
      · cases h
        simp only [List.append_eq_nil_iff, List.map_eq_nil_iff] at hnil
        exact ⟨hnil.1, _, ⟨raw, doc, hraw, hdoc, hnil.2, rfl⟩, htwice, rfl⟩

/-- The loop of `Load`. The induction is on the files, from the last one on, because only at the
end it is known that there was no problem. -/
lemma foldlM_loadFile_ok {files : List (String × Except String RawMessage)} {l : Loading}
    (h : files.foldlM loadFile ⟨[], [], []⟩ = .ok l) (hnil : l.problems = []) :
    List.Forall₂ Declares files l.byType ∧ (l.byType.map Prod.fst).Nodup := by
  induction files using List.reverseRecOn generalizing l with
  | nil =>
    cases h
    exact ⟨.nil, List.nodup_nil⟩
  | append_singleton files file ih =>
    simp only [List.foldlM_append, List.foldlM_cons, List.foldlM_nil, bind_pure] at h
    cases hfront : files.foldlM loadFile ⟨[], [], []⟩ with
    | error err =>
      rw [hfront] at h
      cases h
    | ok l₁ =>
      rw [hfront] at h
      have hlast : loadFile l₁ file = .ok l := h
      obtain ⟨hnil₁, entry, hentry, hnew, hbyType⟩ := loadFile_ok hlast hnil
      obtain ⟨hdeclares, hnodup⟩ := ih hfront hnil₁
      rw [hbyType]
      refine ⟨List.rel_append hdeclares (.cons hentry .nil), ?_⟩
      rw [List.map_append]
      exact hnodup.append (List.nodup_singleton _) (List.disjoint_singleton.mpr hnew)

/-- **A snapshot has one definition for each file of its directory**, each of a type of its own. -/
lemma load_ok {s : ManifestSnapshot} (h : load env d = .ok s) :
    List.Forall₂ Declares d.paths s.byType ∧ (s.byType.map Prod.fst).Nodup := by
  unfold load at h
  split at h
  · cases h
  · split at h
    · cases h
    · next l hfold =>
      split_ifs at h with hnil
      cases h
      exact foldlM_loadFile_ok hfold (List.isEmpty_iff.mp hnil)

/-! ## `Store` -/

/-- A round of `Watch` serves what it has loaded, or goes on with what was served. -/
lemma ManifestStore.after_current (env : Env) (s : ManifestStore) (d : Directory) :
    load env d = .ok (s.after env d).current ∨
      (s.after env d = s ∧ ∃ err, s.reload env d = .error err) := by
  unfold ManifestStore.after
  cases hreload : s.reload env d with
  | error err => exact .inr ⟨rfl, err, rfl⟩
  | ok r =>
    unfold ManifestStore.reload at hreload
    split at hreload
    · cases hreload
    · next snapshot hload =>
      split_ifs at hreload
      cases hreload
      exact .inl hload

lemma ManifestStore.watch_concat (env : Env) (s : ManifestStore) (ds : List Directory)
    (d : Directory) : s.watch env (ds ++ [d]) = (s.watch env ds).after env d :=
  List.foldl_concat ..

/-- Whatever is served was loaded from one of the directories that were read. -/
lemma ManifestStore.exists_load {s : ManifestStore} (hboot : load env d = .ok s.current)
    (ds : List Directory) : ∃ d' ∈ d :: ds, load env d' = .ok (s.watch env ds).current := by
  induction ds using List.reverseRecOn with
  | nil => exact ⟨d, List.mem_cons_self, hboot⟩
  | append_singleton ds last ih =>
    rw [ManifestStore.watch_concat]
    rcases (s.watch env ds).after_current env last with hload | ⟨hsame, -⟩
    · exact ⟨last, by simp, hload⟩
    · obtain ⟨d', hd', hload⟩ := ih
      rw [hsame, ← List.cons_append]
      exact ⟨d', List.mem_append_left _ hd', hload⟩

/-- **A served manifest is whole and unambiguous.** A store is made from a directory and reads a
sequence of them after that. The snapshot that it then serves is that of one directory reading:
every file of it passed validation and gave one of the definitions. Each definition is that of the
type that its file is named after, and of no other file. No status is both definitive and not
executed, every operation has a class, and only mutates have selectors. A reload that is rejected
changes nothing. -/
theorem served_manifest_whole {env : Env} {d : Directory} {s : ManifestStore}
    (hboot : newStore env d = .ok s) (ds : List Directory) :
    (∃ d' ∈ d :: ds, load env d' = .ok (s.watch env ds).current ∧
      List.Forall₂ (fun file entry => Declares file entry ∧ entry.1 = stem file.1 ∧
        entry.2.Unambiguous entry.1) d'.paths (s.watch env ds).current.byType) ∧
    ((s.watch env ds).current.byType.map Prod.fst).Nodup ∧
    ∀ next err, (s.watch env ds).reload env next = .error err →
      s.watch env (ds ++ [next]) = s.watch env ds := by
  have hload : load env d = .ok s.current := by
    unfold newStore at hboot
    cases h : load env d with
    | error err => simp [h, Except.map] at hboot
    | ok snapshot =>
      rw [h] at hboot
      cases hboot
      rfl
  obtain ⟨d', hd', hserved⟩ := ManifestStore.exists_load hload ds
  obtain ⟨hdeclares, hnodup⟩ := load_ok hserved
  refine ⟨⟨d', hd', hserved, hdeclares.imp fun file entry h => ?_⟩, hnodup,
    fun next err hreload => ?_⟩
  · obtain ⟨hname, hunambiguous⟩ := h.unambiguous
    exact ⟨h, hname, hname ▸ hunambiguous⟩
  · rw [ManifestStore.watch_concat, ManifestStore.after, hreload]

/-- A store that goes on from one directory to another one serves the manifest of one of them. -/
theorem served_manifest_whole_two :
    let s : ManifestStore := ⟨.small "617b227265736f75" "a"⟩
    newStore .digest (.small "a" 97) = .ok s ∧
    ∃ d' ∈ [Directory.small "a" 97, .small "b" 98],
      load .digest d' = .ok (s.watch .digest [.small "b" 98]).current ∧
      List.Forall₂ (fun file entry => Declares file entry ∧ entry.1 = stem file.1 ∧
        entry.2.Unambiguous entry.1) d'.paths
          (s.watch .digest [.small "b" 98]).current.byType := by
  intro s
  have hboot : newStore .digest (.small "a" 97) = .ok s := by
    simp [newStore, load_small_a, Except.map, s]
  exact ⟨hboot, (served_manifest_whole hboot [.small "b" 98]).1⟩

end Idemio
