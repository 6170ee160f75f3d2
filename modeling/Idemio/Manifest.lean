import Mathlib.Data.List.Infix
import Mathlib.Data.List.Sort
import Idemio.Base.Unmarshal
import Idemio.Config
import Idemio.Downstream

set_option relaxedAutoImplicit false
set_option autoImplicit false

/-!
# Loading manifests

`internal/manifest`: a directory holds one JSON file per resource type. `Load` decodes and
validates all of them and makes one snapshot of them, or none if any has a problem. The version of
a snapshot is a prefix of the SHA-256 of the file names and contents. A `Store` serves a snapshot
and replaces it when the directory is read again and gives another version.

## Main definitions

* `Idemio.Document`, `Idemio.decodeDocument` — a file as it is decoded.
* `Idemio.ManifestProblem`, `Idemio.Document.validate` — what may be wrong with it.
* `Idemio.Directory`, `Idemio.load` — `Load`.
* `Idemio.ManifestStore`, `Idemio.ManifestStore.reload` — `Store` and one round of its `Watch`.
-/

namespace Idemio

/-! ## Documents -/

/-- `manifest.Operation`, as it is decoded. -/
structure DocumentOperation where
  cls : String
  scope : Unmarshal.Slice String
  deriving DecidableEq, Repr

/-- `manifest.ErrorClassification`, as it is decoded. -/
structure DocumentErrors where
  definitive : Unmarshal.Slice StatusRange
  notExecuted : Unmarshal.Slice StatusRange
  deriving DecidableEq, Repr

/-- `document`. -/
structure Document where
  resourceType : String
  conflictWindowMS : Int
  enforce : Bool
  probePath : String
  operations : List (String × DocumentOperation)
  errors : DocumentErrors
  deriving DecidableEq, Repr

/-- The zero `document`. -/
def Document.zero : Document := ⟨"", 0, false, "", [], ⟨.nil, .nil⟩⟩

/-- Decodes a `StatusRange`. -/
def decodeRange : Unmarshal.Decoder StatusRange :=
  Unmarshal.record
    [("from", Unmarshal.field StatusRange.lower (fun r n => { r with lower := n }) Unmarshal.int),
     ("to", Unmarshal.field StatusRange.upper (fun r n => { r with upper := n }) Unmarshal.int)]

/-- Decodes an `ErrorClassification`. -/
def decodeErrors : Unmarshal.Decoder DocumentErrors :=
  Unmarshal.record
    [("definitive", Unmarshal.field DocumentErrors.definitive
        (fun e rs => { e with definitive := rs }) (Unmarshal.slice ⟨0, 0⟩ decodeRange)),
     ("not_executed", Unmarshal.field DocumentErrors.notExecuted
        (fun e rs => { e with notExecuted := rs }) (Unmarshal.slice ⟨0, 0⟩ decodeRange))]

/-- Decodes an `Operation`. -/
def decodeOperation : Unmarshal.Decoder DocumentOperation :=
  Unmarshal.record
    [("class", Unmarshal.field DocumentOperation.cls (fun o c => { o with cls := c })
        Unmarshal.string),
     ("scope", Unmarshal.field DocumentOperation.scope (fun o s => { o with scope := s })
        (Unmarshal.slice "" Unmarshal.string))]

/-- The fields of a `document`. -/
def documentFields : List (String × Unmarshal.Decoder Document) :=
  [("resource_type", Unmarshal.field Document.resourceType
      (fun d s => { d with resourceType := s }) Unmarshal.string),
   ("conflict_window_ms", Unmarshal.field Document.conflictWindowMS
      (fun d n => { d with conflictWindowMS := n }) Unmarshal.int),
   ("enforce", Unmarshal.field Document.enforce (fun d b => { d with enforce := b })
      Unmarshal.bool),
   ("probe_path", Unmarshal.field Document.probePath (fun d s => { d with probePath := s })
      Unmarshal.string),
   ("operations", Unmarshal.field Document.operations (fun d o => { d with operations := o })
      (Unmarshal.map ⟨"", .nil⟩ decodeOperation)),
   ("errors", Unmarshal.field Document.errors (fun d e => { d with errors := e }) decodeErrors)]

/-- `json.Unmarshal` into a `document`. -/
def decodeDocument (raw : RawMessage) : Option Document :=
  (Unmarshal.document raw).bind fun v => Unmarshal.record documentFields .zero (raw, v)

/-! ## `validate` -/

/-- The problems that `validate` and `Load` find in a file. -/
inductive ManifestProblem
  | malformed
  | emptyType
  | misnamed (resourceType : String)
  | noWindow
  | notAPath (probePath : String)
  | noOperations
  | noClassification
  | notStatuses (r : StatusRange)
  | overlapping (definitive notExecuted : StatusRange)
  | unknownClass (name cls : String)
  | idleSelector (name cls : String)
  | notAFieldPath (name path : String)
  | declaredTwice (resourceType : String)
  deriving DecidableEq, Repr

/-- One check of `validate`. -/
def problemIf (failed : Bool) (problem : ManifestProblem) : List ManifestProblem :=
  if failed then [problem] else []

@[simp] lemma problemIf_eq_nil {failed : Bool} {problem : ManifestProblem} :
    problemIf failed problem = [] ↔ failed = false := by
  cases failed <;> simp [problemIf]

/-- `classes`. -/
def classes : List String := ["create", "replace", "mutate", "append", "delete"]

/-- The path has an empty segment. -/
def emptySegment (path : String) : Bool :=
  path = "" || hasPrefix path "." || ".".toList.isSuffixOf path.toList ||
    decide ("..".toList <:+: path.toList)

/-- The checks of one operation. -/
def DocumentOperation.validate (name : String) (o : DocumentOperation) : List ManifestProblem :=
  problemIf (o.cls ∉ classes) (.unknownClass name o.cls) ++
  problemIf (!o.scope.elements.isEmpty && o.cls ≠ "mutate") (.idleSelector name o.cls) ++
  o.scope.elements.flatMap fun path => problemIf (emptySegment path) (.notAFieldPath name path)

/-- The checks of the error classification. -/
def DocumentErrors.validate (e : DocumentErrors) : List ManifestProblem :=
  problemIf (e.definitive.elements.isEmpty && e.notExecuted.elements.isEmpty)
    .noClassification ++
  ((e.definitive.elements ++ e.notExecuted.elements).flatMap fun r =>
    problemIf (r.lower < 100 || r.upper > 599 || r.lower > r.upper) (.notStatuses r)) ++
  e.definitive.elements.flatMap fun d => e.notExecuted.elements.flatMap fun n =>
    problemIf (d.lower ≤ n.upper && n.lower ≤ d.upper) (.overlapping d n)

/-- `document.validate`. The order of its problems is that of the checks; `Load` sorts them. -/
def Document.validate (d : Document) (stem : String) : List ManifestProblem :=
  (if d.resourceType = "" then [.emptyType]
    else problemIf (d.resourceType ≠ stem) (.misnamed d.resourceType)) ++
  problemIf (d.conflictWindowMS ≤ 0) .noWindow ++
  problemIf (!hasPrefix d.probePath "/") (.notAPath d.probePath) ++
  problemIf d.operations.isEmpty .noOperations ++
  d.errors.validate ++
  d.operations.flatMap fun o => o.2.validate o.1

/-! ## `Load` -/

/-- `manifest.Definition`, all of it. -/
structure ManifestDefinition where
  type : String
  conflictWindow : Duration
  enforce : Bool
  probePath : String
  operations : List (String × DocumentOperation)
  errors : ErrorClassification
  deriving DecidableEq

/-- `document.definition`. -/
def Document.definition (d : Document) : ManifestDefinition where
  type := d.resourceType
  conflictWindow := Int64.ofInt d.conflictWindowMS * millisecond
  enforce := d.enforce
  probePath := d.probePath
  operations := d.operations
  errors := ⟨d.errors.definitive.elements, d.errors.notExecuted.elements⟩

/-- `manifest.Snapshot`, as it is loaded. -/
structure ManifestSnapshot where
  version : String
  byType : List (String × ManifestDefinition)
  deriving DecidableEq

/-- `Snapshot.Types`. -/
def ManifestSnapshot.types (s : ManifestSnapshot) : List String :=
  (s.byType.map Prod.fst).insertionSort (· ≤ ·)

/-- The contents of the manifest directory: the names in it, and what reading each gives. -/
structure Directory where
  entries : List (String × Except String RawMessage)
  nodup : (entries.map Prod.fst).Nodup

/-- `filepath.Glob` of `*.json`, sorted. -/
def Directory.paths (d : Directory) : List (String × Except String RawMessage) :=
  (d.entries.filter fun e => ".json".toList.isSuffixOf e.1.toList).insertionSort
    fun a b => a.1 ≤ b.1

/-- `strings.TrimSuffix` of `.json`, for a name that has it. -/
def stem (name : String) : String := String.ofList (name.toList.take (name.toList.length - 5))

/-- The errors of `Load`. -/
inductive LoadError
  | noManifests
  | unreadable (name err : String)
  | invalid (problems : List (String × ManifestProblem))
  deriving DecidableEq, Repr

/-- The variables of `Load`: what was written to the hash, `byType` and `problems`. -/
structure Loading where
  hashed : List UInt8
  byType : List (String × ManifestDefinition)
  problems : List (String × ManifestProblem)

/-- The loop of `Load`, for one file. -/
def loadFile (l : Loading) (file : String × Except String RawMessage) :
    Except LoadError Loading :=
  match file.2 with
  | .error err => .error (.unreadable file.1 err)
  | .ok raw =>
    let name := stem file.1
    let hashed := l.hashed ++ utf8 name ++ raw
    match decodeDocument raw with
    | none => .ok ⟨hashed, l.byType, l.problems ++ [(name, .malformed)]⟩
    | some doc =>
      let problems := l.problems ++ (doc.validate name).map (name, ·)
      if doc.resourceType ∈ l.byType.map Prod.fst then
        .ok ⟨hashed, l.byType, problems ++ [(name, .declaredTwice doc.resourceType)]⟩
      else .ok ⟨hashed, l.byType ++ [(doc.resourceType, doc.definition)], problems⟩

/-- `Load`. -/
def load (env : Env) (d : Directory) : Except LoadError ManifestSnapshot :=
  if d.paths.isEmpty then .error .noManifests
  else
    match d.paths.foldlM loadFile ⟨[], [], []⟩ with
    | .error err => .error err
    | .ok l =>
      if l.problems.isEmpty then
        .ok ⟨String.ofList ((hexEncode (env.sha256 l.hashed)).toList.take 16), l.byType⟩
      else .error (.invalid l.problems)

/-! ## `Store` -/

/-- `manifest.Store`. -/
structure ManifestStore where
  current : ManifestSnapshot
  deriving DecidableEq

/-- `NewStore`. -/
def newStore (env : Env) (d : Directory) : Except LoadError ManifestStore :=
  (load env d).map ManifestStore.mk

/-- The errors of `reload`. -/
inductive ReloadError
  | unchanged
  | rejected (err : LoadError)
  deriving DecidableEq, Repr

/-- `Store.reload`: the store with the snapshot that is activated. -/
def ManifestStore.reload (env : Env) (s : ManifestStore) (d : Directory) :
    Except ReloadError (ManifestStore × ManifestSnapshot) :=
  match load env d with
  | .error err => .error (.rejected err)
  | .ok snapshot =>
    if snapshot.version = s.current.version then .error .unchanged
    else .ok (⟨snapshot⟩, snapshot)

end Idemio
