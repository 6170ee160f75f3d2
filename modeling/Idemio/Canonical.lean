import Idemio.Base.JsonWrite
import Idemio.Identity

set_option relaxedAutoImplicit false
set_option autoImplicit false

/-!
# The hash of a request

`canonical.Hash` puts the fields of a request into one JSON document, whose canonical form it
hashes. The payload goes into the document as it is, except for its space and for the escapes that
the encoder writes. Before that, the numbers in it are checked.

## Main definitions

* `Idemio.Canonical.checkNumber`, `Idemio.Canonical.walk`, `Idemio.Canonical.validateNumbers` — the
  check.
* `Idemio.Canonical.marshal` — the document.
* `Idemio.Canonical.hash` — the hash.

## Main results

* `Idemio.Canonical.checkNumber_safe` — an integer literal that passes is at most `2 ^ 53 - 1`.
* `Idemio.Canonical.checkNumber_of_walk` — every number of an accepted payload was checked.
* `Idemio.Canonical.denotes_marshal` — the document denotes the fields and the payload.

## Implementation notes

The form of RFC 8785 is assumed in `JsonDoc.CanonicalForm`, and that SHA-256 is injective is a
hypothesis where it is needed. The strings of a request come from a JSON decoder, so that they are
UTF-8.
-/

namespace Idemio.Canonical

open JsonDoc (Value Meaning)

/-! ## Numbers -/

/-- Why a request has no hash. What the libraries have to say about it is not modelled. -/
inductive HashError
  | invalidPayload
  | notDouble (literal : List UInt8)
  | outsideRange (literal : List UInt8)
  | encode
  | canonicalize
  deriving DecidableEq, Repr

/-- The text of an error, given the text of the one that it wraps. -/
def HashError.text (wrapped : String) : HashError → String
  | .invalidPayload => "payload is not valid JSON: " ++ wrapped
  | .notDouble l => "number " ++ asciiText l ++ " is not representable as a double: " ++ wrapped
  | .outsideRange l => "integer " ++ asciiText l ++ " is outside the exactly representable range"
  | .encode => "encode request: " ++ wrapped
  | .canonicalize => "canonicalize: " ++ wrapped

/-- `maxSafeInteger`. -/
def maxSafeInteger : ℕ := 2 ^ 53 - 1

/-- The exponent that `strconv.ParseFloat` reads. More digits are ignored when it is large. -/
def readExponent (ds : List UInt8) : ℕ :=
  ds.foldl (fun e d => if e < 10000 then e * 10 + (d.toNat - 0x30) else e) 0

/-- `json.Number.Float64`: the nearest double, or an error if that is an infinity. -/
def float64 (l : List UInt8) : Option ℚ :=
  Binary64.finite ((JsonDoc.readLiteral l).value (readExponent (JsonDoc.readLiteral l).exponent))

/-- `checkNumber`. The check for infinities is left out: `float64` gives none. -/
def checkNumber (l : List UInt8) : Except HashError Unit :=
  match float64 l with
  | none => .error (.notDouble l)
  | some asFloat =>
    if JsonDoc.isIntegerLiteral l ∧ maxSafeInteger < |asFloat| then .error (.outsideRange l)
    else .ok ()

mutual

/-- `walk`. -/
def walk : Value → Except HashError Unit
  | .object ms => walkMembers ms
  | .array es => walkElements es
  | .number l => checkNumber l
  | _ => .ok ()

/-- The elements of a slice. -/
def walkElements : List (List UInt8 × Value) → Except HashError Unit
  | [] => .ok ()
  | (_, v) :: es => do
    walk v
    walkElements es

/-- The members of a map, of which the last one of a name is the only one. Go visits them in any
order, which decides no more than which of several errors is returned. -/
def walkMembers : List (List ℕ × List UInt8 × Value) → Except HashError Unit
  | [] => .ok ()
  | (name, _, v) :: ms =>
    if name ∈ ms.map Prod.fst then walkMembers ms
    else do
      walk v
      walkMembers ms

end

/-- `validateNumbers`. What follows the first value is not looked at. -/
def validateNumbers (payload : RawMessage) : Except HashError Unit :=
  match Unmarshal.stream payload none with
  | none => .error .invalidPayload
  | some value => walk value

/-! ## The hash -/

/-- `canonical.Request`. -/
structure Request where
  agentID : String
  operation : String
  payload : RawMessage
  resourceID : String
  resourceType : String

/-- The payload, or `null` if there is none. -/
def Request.document (r : Request) : RawMessage :=
  if r.payload = [] then utf8 "null" else r.payload

/-- The members of the document in the order of their names, given what becomes of the strings and
of the payload. -/
def Request.fields {α : Type} (r : Request) (string : String → α) (payload : α) :
    List (List UInt8 × α) :=
  [(utf8 "agent_id", string r.agentID),
    (utf8 "operation", string r.operation),
    (utf8 "payload", payload),
    (utf8 "resource_id", string r.resourceID),
    (utf8 "resource_type", string r.resourceType)]

/-- `json.Marshal` of the fields. -/
def marshal (r : Request) : Option (List UInt8) :=
  (JsonDoc.appendCompact r.document).map fun payload =>
    JsonDoc.marshalObject (r.fields (fun s => JsonDoc.marshalString (utf8 s)) payload)

/-- `Canonicalize`. -/
def canonicalize (jcs : JsonDoc.CanonicalForm) (document : List UInt8) :
    Except HashError (List UInt8) :=
  match jcs.transform document with
  | none => .error .canonicalize
  | some canonical => .ok canonical

/-- `Hash`. -/
def hash (jcs : JsonDoc.CanonicalForm) (sha256 : List UInt8 → List UInt8) (r : Request) :
    Except HashError String := do
  validateNumbers r.document
  match marshal r with
  | none => .error .encode
  | some document =>
    let canonical ← canonicalize jcs document
    return "sha256-jcs-v1:" ++ hexEncode (sha256 canonical)

variable {jcs : JsonDoc.CanonicalForm} {sha256 : List UInt8 → List UInt8} {r : Request}
  {d : List UInt8} {h : String}

/-! ## The check -/

/-- **An integer literal that passes the check is small.** Rounding does not bring a larger one back
into the range. -/
lemma checkNumber_safe {l : List UInt8} (hcheck : checkNumber l = .ok ())
    (hliteral : JsonDoc.isIntegerLiteral l = true) {n : ℤ} (hn : JsonDoc.numberValue l = n) :
    |n| ≤ maxSafeInteger := by
  have hvalue : (JsonDoc.readLiteral l).value
      (readExponent (JsonDoc.readLiteral l).exponent) = n := by
    rw [(JsonDoc.readLiteral_of_integer hliteral).2, ← hn, JsonDoc.numberValue_of_integer hliteral]
    exact JsonDoc.value_of_integer hliteral
  by_contra hlarge
  have hle : (2 : ℚ) ^ 53 ≤ |(n : ℚ)| := by
    rw [← Int.cast_abs]
    have : (2 : ℤ) ^ 53 ≤ |n| := by
      simp only [maxSafeInteger] at hlarge
      omega
    exact_mod_cast this
  have hround := Binary64.le_abs_round hle
  unfold checkNumber float64 at hcheck
  rw [hvalue, Binary64.finite] at hcheck
  split at hcheck
  · cases hcheck
  · next asFloat hfloat =>
    rw [Option.ite_none_left_eq_some] at hfloat
    obtain rfl := Option.some.inj hfloat.2
    rw [if_pos ⟨hliteral, lt_of_lt_of_le (by norm_num [maxSafeInteger]) hround⟩] at hcheck
    cases hcheck

lemma bind_ok_iff {x y : Except HashError Unit} :
    (do x; y) = .ok () ↔ x = .ok () ∧ y = .ok () := by
  cases x with
  | error e => simp [bind, Except.bind]
  | ok u => simp [bind, Except.bind]

lemma walkElements_ok_iff {es : List (List UInt8 × Value)} :
    walkElements es = .ok () ↔ ∀ e ∈ es, walk e.2 = .ok () := by
  induction es with
  | nil => simp [walkElements]
  | cons e es ih => rw [walkElements, bind_ok_iff, ih, List.forall_mem_cons]

lemma walkMembers_ok_iff {ms : List (List ℕ × List UInt8 × Value)} (h : (ms.map Prod.fst).Nodup) :
    walkMembers ms = .ok () ↔ ∀ m ∈ ms, walk m.2.2 = .ok () := by
  induction ms with
  | nil => simp [walkMembers]
  | cons m ms ih =>
    rw [List.map_cons, List.nodup_cons] at h
    rw [walkMembers, if_neg h.1, bind_ok_iff, ih h.2, List.forall_mem_cons]

/-- **Every number is checked**, however deep it is, if no object has two members of one name. -/
lemma checkNumber_of_walk {v : Value} (hwalk : walk v = .ok ())
    (hdistinct : (JsonDoc.denote v).Distinct) :
    ∀ l ∈ JsonDoc.numbers v, checkNumber l = .ok () := by
  induction v using Value.induction with
  | null | bool | string => simp [JsonDoc.numbers]
  | number l =>
    intro l' hl'
    rw [JsonDoc.numbers, List.mem_singleton] at hl'
    rw [hl', ← hwalk, walk]
  | array es ih =>
    intro l hl
    obtain ⟨e, he, hl⟩ := JsonDoc.mem_numbers_array.mp hl
    rw [walk, walkElements_ok_iff] at hwalk
    exact ih e he (hwalk e he) (JsonDoc.distinct_array_iff.mp hdistinct e he) l hl
  | object ms ih =>
    intro l hl
    obtain ⟨m, hm, hl⟩ := JsonDoc.mem_numbers_object.mp hl
    obtain ⟨hnodup, hvalues⟩ := JsonDoc.distinct_object_iff.mp hdistinct
    rw [walk, walkMembers_ok_iff hnodup] at hwalk
    exact ih m hm (hwalk m hm) (hvalues m hm) l hl

/-! ## The document -/

lemma Request.forall_fields {α : Type} {P : List UInt8 × α → Prop} {string : String → α}
    {payload : α} (hstring : ∀ name s, P (utf8 name, string s))
    (hpayload : ∀ name, P (utf8 name, payload)) : ∀ f ∈ r.fields string payload, P f := by
  simp only [Request.fields, List.forall_mem_cons, List.not_mem_nil, false_imp_iff, implies_true,
    and_true]
  exact ⟨hstring _ _, hstring _ _, hpayload _, hstring _ _, hstring _ _⟩

/-- What the document denotes, given what the payload does. -/
def Request.meaning (r : Request) (payload : Meaning) : Meaning :=
  .object ((r.fields (fun s => .string (Utf8.runes (utf8 s))) payload).map fun f =>
    (Utf8.runes f.1, f.2))

/-- The names are in order. -/
lemma pairwise_names : (["agent_id", "operation", "payload", "resource_id", "resource_type"].map
    fun name => Utf8.runes (utf8 name)).Pairwise (· < ·) := by decide +kernel

lemma sortMembers_fields {α : Type} (r : Request) (string : String → α) (payload : α) :
    JsonDoc.sortMembers ((r.fields string payload).map fun f => (Utf8.runes f.1, f.2)) =
      (r.fields string payload).map fun f => (Utf8.runes f.1, f.2) := by
  have hnames := pairwise_names.imp le_of_lt
  exact ((List.pairwise_map (f := Prod.fst)).mp hnames).insertionSort_eq

/-- The payload is one document. -/
lemma exists_of_marshal (hd : marshal r = some d) :
    ∃ v, Unmarshal.document r.document = some v ∧
      d = JsonDoc.marshalObject (r.fields (fun s => JsonDoc.marshalString (utf8 s))
        (JsonDoc.compact .outside r.document)) := by
  obtain ⟨payload, hpayload, rfl⟩ := Option.map_eq_some_iff.mp hd
  rw [JsonDoc.appendCompact, Option.ite_none_right_eq_some] at hpayload
  obtain ⟨v, hv⟩ := Option.isSome_iff_exists.mp hpayload.1
  obtain rfl := Option.some.inj hpayload.2
  exact ⟨v, hv, rfl⟩

/-- **The document denotes the fields and the payload.** -/
lemma denotes_marshal {v : Value} (hd : marshal r = some d)
    (hv : Unmarshal.document r.document = some v) :
    JsonDoc.Denotes d (r.meaning (JsonDoc.denote v)) := by
  obtain ⟨-, -, rfl⟩ := exists_of_marshal hd
  let written : JsonDoc.Written := r.fields
    (fun s => (JsonDoc.marshalString (utf8 s), .string (Utf8.runes (utf8 s))))
    (JsonDoc.compact .outside r.document, JsonDoc.denote v)
  have hwritten : ∀ m ∈ written, Utf8.valid m.1 = true ∧
      JsonDoc.Writes Unmarshal.maxNestingDepth m.2.1 m.2.2 :=
    Request.forall_fields
      (fun name s => ⟨valid_utf8 name, JsonDoc.writes_marshalString _ (valid_utf8 s)⟩)
      (fun name => ⟨valid_utf8 name, JsonDoc.writes_compact hv⟩)
  have hdenotes := (JsonDoc.writes_marshalObject hwritten).denotes
  rw [Request.meaning, ← sortMembers_fields]
  exact hdenotes

lemma Request.valid_document (hr : Utf8.valid r.payload = true) :
    Utf8.valid r.document = true := by
  unfold Request.document
  split_ifs
  · exact valid_utf8 _
  · exact hr

lemma valid_marshal (hr : Utf8.valid r.payload = true) (hd : marshal r = some d) :
    Utf8.valid d = true := by
  obtain ⟨-, -, rfl⟩ := exists_of_marshal hd
  refine JsonDoc.valid_marshalObject (Request.forall_fields (fun name s => ?_) fun name => ?_)
  · exact ⟨valid_utf8 name, JsonDoc.valid_marshalString (valid_utf8 s)⟩
  · exact ⟨valid_utf8 name, JsonDoc.valid_compact (Request.valid_document hr) (by decide)⟩

/-! ## Accepted requests -/

lemma hash_ok_iff : hash jcs sha256 r = .ok h ↔
    validateNumbers r.document = .ok () ∧ ∃ d c, marshal r = some d ∧ jcs.transform d = some c ∧
      h = "sha256-jcs-v1:" ++ hexEncode (sha256 c) := by
  unfold hash
  cases hnumbers : validateNumbers r.document with
  | error e => simp [bind, Except.bind]
  | ok u =>
    cases hd : marshal r with
    | none => simp [bind, Except.bind]
    | some d =>
      cases hc : jcs.transform d with
      | none => simp [bind, Except.bind, canonicalize, hc]
      | some c => simp [bind, Except.bind, canonicalize, hc, pure, Except.pure, eq_comm]

/-- What an accepted request has. -/
structure Accepted (jcs : JsonDoc.CanonicalForm) (sha256 : List UInt8 → List UInt8) (r : Request)
    (v : Value) (h : String) : Prop where
  payload : Unmarshal.document r.document = some v
  walked : walk v = .ok ()
  hashed : ∃ d c, marshal r = some d ∧ jcs.transform d = some c ∧
    JsonDoc.Denotes d (r.meaning (JsonDoc.denote v)) ∧
    h = "sha256-jcs-v1:" ++ hexEncode (sha256 c)

lemma stream_of_document {text : List UInt8} {v : Value} (hv : Unmarshal.document text = some v) :
    Unmarshal.stream text none = some v := by
  obtain ⟨⟨w, rest⟩, hparse, hrest⟩ := Option.bind_eq_some_iff.mp hv
  rw [Option.ite_none_right_eq_some] at hrest
  exact Option.bind_eq_some_iff.mpr ⟨(w, rest), hparse, by simp [hrest.2]⟩

lemma exists_accepted (hh : hash jcs sha256 r = .ok h) : ∃ v, Accepted jcs sha256 r v h := by
  obtain ⟨hnumbers, d, c, hd, hc, rfl⟩ := hash_ok_iff.mp hh
  obtain ⟨v, hv, -⟩ := exists_of_marshal hd
  rw [validateNumbers, stream_of_document hv] at hnumbers
  exact ⟨v, hv, hnumbers, d, c, hd, hc, denotes_marshal hd hv, rfl⟩

lemma Request.distinct_meaning_iff {m : Meaning} : (r.meaning m).Distinct ↔ m.Distinct := by
  rw [Request.meaning, Meaning.Distinct, JsonDoc.distinctMembers_iff]
  constructor
  · intro hdistinct
    exact hdistinct.2 (Utf8.runes (utf8 "payload"), m) (by simp [Request.fields])
  · intro hm
    refine ⟨pairwise_names.imp ne_of_lt, List.forall_mem_map.mpr ?_⟩
    exact Request.forall_fields (fun _ _ => trivial) fun _ => hm

/-- Every number of an accepted payload was checked. -/
lemma Accepted.checkNumber {v : Value} (hr : Accepted jcs sha256 r v h) :
    ∀ l ∈ JsonDoc.numbers v, checkNumber l = .ok () := by
  obtain ⟨d, c, -, hc, hdenotes, -⟩ := hr.hashed
  exact checkNumber_of_walk hr.walked (Request.distinct_meaning_iff.mp (jcs.distinct hdenotes hc))

end Idemio.Canonical
