import Idemio.Canonical

set_option relaxedAutoImplicit false
set_option autoImplicit false

/-!
# What the hash of a request identifies

The hashes of two requests are equal if the requests are the same but for how they are written. The
integers that two doubles may stand for are kept out by a check that looks at how a number is
written: one with a fraction part or an exponent passes it.

## Main definitions

* `Idemio.Canonical.SameRequest` — the requests are the same but for how they are written.
* `Idemio.Canonical.SafeIntegers` — the integers among some numbers are doubles on their own.

## Main results

* `Idemio.Canonical.hash_identifies` — the hashes are equal exactly for the same request.
* `Idemio.Canonical.safe_integers_iff` — the integers of an accepted payload are safe if those are
  that are written with a point or an exponent, and then no two of them are taken for each other.
* `Idemio.Canonical.hash_accepts_unsafe` — two payments that differ and hash alike.
-/

namespace Idemio.Canonical

open JsonDoc (Value Meaning)

variable {jcs : JsonDoc.CanonicalForm} {sha256 : List UInt8 → List UInt8} {r r₁ r₂ : Request}
  {v v₁ v₂ : Value} {h h₁ h₂ : String}

/-! ## The logical request -/

/-- What a payload denotes. An empty one denotes `null`. -/
def PayloadDenotes (payload : RawMessage) (m : Meaning) : Prop :=
  (payload = [] ∧ m = .null) ∨ (payload ≠ [] ∧ JsonDoc.Denotes payload m)

/-- The requests are the same but for how they are written. -/
structure SameRequest (r₁ r₂ : Request) : Prop where
  agentID : r₁.agentID = r₂.agentID
  operation : r₁.operation = r₂.operation
  resourceID : r₁.resourceID = r₂.resourceID
  resourceType : r₁.resourceType = r₂.resourceType
  payload : ∃ m, PayloadDenotes r₁.payload m ∧ PayloadDenotes r₂.payload m

lemma PayloadDenotes.unique {payload : RawMessage} {m n : Meaning} (hm : PayloadDenotes payload m)
    (hn : PayloadDenotes payload n) : m = n := by
  rcases hm with ⟨hnil, rfl⟩ | ⟨hne, hm⟩
  · rcases hn with ⟨-, rfl⟩ | ⟨hne, -⟩
    · rfl
    · exact absurd hnil hne
  · rcases hn with ⟨hnil, -⟩ | ⟨-, hn⟩
    · exact absurd hnil hne
    · exact hm.unique hn

lemma denotes_of_document {text : List UInt8} (hv : Unmarshal.document text = some v) :
    JsonDoc.Denotes text (JsonDoc.denote v) := by
  obtain ⟨⟨w, rest⟩, hparse, hrest⟩ := Option.bind_eq_some_iff.mp hv
  rw [Option.ite_none_right_eq_some] at hrest
  obtain rfl := Option.some.inj hrest.2
  exact ⟨_, w, rest, hparse, hrest.1, rfl⟩

lemma document_null : Unmarshal.document (utf8 "null") = some .null := by
  have hbytes : utf8 "null" = [0x6E, 0x75, 0x6C, 0x6C] := by decide +kernel
  rw [hbytes]
  rfl

/-- What is put into the document is what the payload denotes. -/
lemma Accepted.payloadDenotes (hr : Accepted jcs sha256 r v h) :
    PayloadDenotes r.payload (JsonDoc.denote v) := by
  have hv := hr.payload
  unfold Request.document at hv
  split_ifs at hv with hnil
  · rw [document_null] at hv
    obtain rfl := Option.some.inj hv
    exact .inl ⟨hnil, rfl⟩
  · exact .inr ⟨hnil, denotes_of_document hv⟩

lemma runes_utf8_inj {s t : String} : Utf8.runes (utf8 s) = Utf8.runes (utf8 t) ↔ s = t := by
  have hs := of_decide_eq_true (valid_utf8 s)
  have ht := of_decide_eq_true (valid_utf8 t)
  constructor
  · intro heq
    rw [← utf8_inj, ← hs, ← ht, heq]
  · rintro rfl
    rfl

lemma Request.meaning_inj {m₁ m₂ : Meaning} : r₁.meaning m₁ = r₂.meaning m₂ ↔
    r₁.agentID = r₂.agentID ∧ r₁.operation = r₂.operation ∧ m₁ = m₂ ∧
      r₁.resourceID = r₂.resourceID ∧ r₁.resourceType = r₂.resourceType := by
  simp [Request.meaning, Request.fields, runes_utf8_inj]

/-- The hashes are equal if the documents denote the same. -/
lemma Accepted.hash_eq_iff (hsha : Function.Injective sha256) (hr₁ : Accepted jcs sha256 r₁ v₁ h₁)
    (hr₂ : Accepted jcs sha256 r₂ v₂ h₂) (hvalid₁ : Utf8.valid r₁.payload = true)
    (hvalid₂ : Utf8.valid r₂.payload = true) :
    h₁ = h₂ ↔ r₁.meaning (JsonDoc.denote v₁) = r₂.meaning (JsonDoc.denote v₂) := by
  obtain ⟨d₁, c₁, hd₁, hc₁, hdenotes₁, rfl⟩ := hr₁.hashed
  obtain ⟨d₂, c₂, hd₂, hc₂, hdenotes₂, rfl⟩ := hr₂.hashed
  rw [← jcs.eq_iff (valid_marshal hvalid₁ hd₁) (valid_marshal hvalid₂ hd₂) hdenotes₁ hdenotes₂ hc₁
    hc₂]
  constructor
  · intro heq
    exact hsha (hexEncode_inj (String.append_right_inj _ |>.mp heq))
  · rintro rfl
    rfl

/-- **The hash identifies the logical request.** -/
theorem hash_identifies (hsha : Function.Injective sha256) (hvalid₁ : Utf8.valid r₁.payload = true)
    (hvalid₂ : Utf8.valid r₂.payload = true) (hh₁ : hash jcs sha256 r₁ = .ok h₁)
    (hh₂ : hash jcs sha256 r₂ = .ok h₂) : h₁ = h₂ ↔ SameRequest r₁ r₂ := by
  obtain ⟨v₁, hr₁⟩ := exists_accepted hh₁
  obtain ⟨v₂, hr₂⟩ := exists_accepted hh₂
  rw [hr₁.hash_eq_iff hsha hr₂ hvalid₁ hvalid₂, Request.meaning_inj]
  constructor
  · rintro ⟨hagent, hoperation, hpayload, hresource, htype⟩
    exact ⟨hagent, hoperation, hresource, htype,
      JsonDoc.denote v₁, hr₁.payloadDenotes, hpayload ▸ hr₂.payloadDenotes⟩
  · rintro ⟨hagent, hoperation, hresource, htype, m, hm₁, hm₂⟩
    exact ⟨hagent, hoperation,
      (hr₁.payloadDenotes.unique hm₁).trans (hm₂.unique hr₂.payloadDenotes), hresource, htype⟩

/-- A request with a given payload. -/
def Request.charge (payload : String) : Request :=
  ⟨"agent-1", "charge", utf8 payload, "order-1", "order"⟩

/-- A payload of numbers that pass the check has a hash, if no object in it has two members of one
name. -/
lemma exists_hash (hv : Unmarshal.document r.document = some v) (hwalk : walk v = .ok ())
    (hdistinct : (JsonDoc.denote v).Distinct) :
    ∃ h, hash .representative sha256 r = .ok h := by
  have hd : marshal r = some (JsonDoc.marshalObject (r.fields
      (fun s => JsonDoc.marshalString (utf8 s)) (JsonDoc.compact .outside r.document))) := by
    simp [marshal, JsonDoc.appendCompact, hv]
  obtain ⟨c, hc⟩ := JsonDoc.CanonicalForm.exists_representative (denotes_marshal hd hv)
    (Request.distinct_meaning_iff.mpr hdistinct)
  refine ⟨_, hash_ok_iff.mpr ⟨?_, _, c, hd, hc, rfl⟩⟩
  rw [validateNumbers, stream_of_document hv]
  exact hwalk

/-- A payload with two members, each with its name, its text and its value. -/
def pair (a b : String × String × Value) : Value :=
  .object ([a, b].map fun m => (Utf8.runes (utf8 m.1), utf8 m.2.1, m.2.2))

lemma exists_hash_pair {a b : String × String × Value}
    (hv : Unmarshal.document r.document = some (pair a b)) (hwalk : walk (pair a b) = .ok ())
    (hne : Utf8.runes (utf8 a.1) ≠ Utf8.runes (utf8 b.1))
    (hdistinct : (JsonDoc.denote a.2.2).Distinct ∧ (JsonDoc.denote b.2.2).Distinct) :
    ∃ h, hash .representative sha256 r = .ok h := by
  refine exists_hash hv hwalk (JsonDoc.distinct_object_iff.mpr ⟨by simpa using hne, ?_⟩)
  simpa [pair] using hdistinct

/-- A payment. -/
def Request.payment : Request :=
  .charge "\x7b\"amount_cents\":4200,\"currency\":\"EUR\"\x7d"

/-- The same payment in another order of its members, with space, and with another spelling of its
amount and of its currency. -/
def Request.respelled : Request :=
  .charge "\x7b \"currency\" : \"\\u0045UR\", \"amount_cents\" : 4.2e3 \x7d"

theorem hash_identifies_payment :
    ∃ h₁ h₂, hash .representative id .payment = .ok h₁ ∧
      hash .representative id .respelled = .ok h₂ ∧
      (h₁ = h₂ ↔ SameRequest .payment .respelled) := by
  obtain ⟨h₁, hh₁⟩ : ∃ h, hash .representative id .payment = .ok h :=
    exists_hash_pair (a := ("amount_cents", "4200", .number (utf8 "4200")))
      (b := ("currency", "\"EUR\"", .string (Utf8.runes (utf8 "EUR")))) rfl (by decide +kernel)
      (by decide +kernel) ⟨trivial, trivial⟩
  obtain ⟨h₂, hh₂⟩ : ∃ h, hash .representative id .respelled = .ok h :=
    exists_hash_pair (a := ("currency", "\"\\u0045UR\"", .string (Utf8.runes (utf8 "EUR"))))
      (b := ("amount_cents", "4.2e3", .number (utf8 "4.2e3"))) rfl (by decide +kernel)
      (by decide +kernel) ⟨trivial, trivial⟩
  exact ⟨h₁, h₂, hh₁, hh₂, hash_identifies Function.injective_id (by decide +kernel)
    (by decide +kernel) hh₁ hh₂⟩

/-! ## Integers -/

/-- The integers among these numbers are doubles that no other integer is rounded to. -/
def SafeIntegers (literals : List (List UInt8)) : Prop :=
  ∀ l ∈ literals, ∀ n : ℤ, JsonDoc.numberValue l = n → |n| ≤ maxSafeInteger

/-- The numbers of a value that are written with a fraction part or an exponent. -/
def respelledNumbers (v : Value) : List (List UInt8) :=
  (JsonDoc.numbers v).filter fun l => !JsonDoc.isIntegerLiteral l

/-- Where the first value has an integer, the second one has no other. -/
def SameIntegers (v₁ v₂ : Value) : Prop :=
  ∀ path l, JsonDoc.valueAt v₁ path = some (.number l) → ∀ n : ℤ, JsonDoc.numberValue l = n →
    ∃ l', JsonDoc.valueAt v₂ path = some (.number l') ∧
      ∀ n' : ℤ, JsonDoc.numberValue l' = n' → n' = n

/-- The check leaves the numbers that are not written as integers. -/
lemma Accepted.safeIntegers_iff (hr : Accepted jcs sha256 r v h) :
    SafeIntegers (JsonDoc.numbers v) ↔ SafeIntegers (respelledNumbers v) := by
  constructor
  · intro hsafe l hl
    exact hsafe l (List.mem_filter.mp hl).1
  · intro hsafe l hl n hn
    cases hliteral : JsonDoc.isIntegerLiteral l with
    | true => exact checkNumber_safe (hr.checkNumber l hl) hliteral hn
    | false => exact hsafe l (List.mem_filter.mpr ⟨hl, by simp [hliteral]⟩) n hn

lemma round_of_safe {n : ℤ} (h : |n| ≤ maxSafeInteger) : Binary64.round n = n := by
  refine Binary64.round_intCast (h.trans ?_)
  decide

/-- What denotes a number is a number. -/
lemma exists_number {w : Value} {q : ℚ} (hw : JsonDoc.denote w = .number q) :
    ∃ l, w = .number l ∧ Binary64.round (JsonDoc.numberValue l) = q := by
  cases w with
  | number l =>
    rw [JsonDoc.denote, Meaning.number.injEq] at hw
    exact ⟨l, rfl, hw⟩
  | null | bool | string | array | object => simp [JsonDoc.denote] at hw

/-- Values that denote the same have the same safe integers. -/
lemma sameIntegers_of_denote (h₁ : SafeIntegers (JsonDoc.numbers v₁))
    (h₂ : SafeIntegers (JsonDoc.numbers v₂)) (heq : JsonDoc.denote v₁ = JsonDoc.denote v₂) :
    SameIntegers v₁ v₂ := by
  intro path l hl n hn
  have hplace := JsonDoc.meaningAt_denote v₂ path
  rw [← heq, JsonDoc.meaningAt_denote, hl, Option.map_some] at hplace
  obtain ⟨w, hw, hdenote⟩ := Option.map_eq_some_iff.mp hplace.symm
  obtain ⟨l', rfl, hround⟩ := exists_number hdenote
  refine ⟨l', hw, fun n' hn' => ?_⟩
  have hsafe := h₁ l (JsonDoc.mem_numbers_of_valueAt hl (by simp [JsonDoc.numbers])) n hn
  have hsafe' := h₂ l' (JsonDoc.mem_numbers_of_valueAt hw (by simp [JsonDoc.numbers])) n' hn'
  rw [hn, hn', round_of_safe hsafe, round_of_safe hsafe'] at hround
  exact_mod_cast hround

/-- **What the check lets in.** The integers of an accepted payload are safe exactly if those are
that are written with a fraction part or an exponent. Two payloads of which this holds have the same
integers if they hash alike. -/
theorem safe_integers_iff (hsha : Function.Injective sha256)
    (hv₁ : Unmarshal.document r₁.document = some v₁)
    (hv₂ : Unmarshal.document r₂.document = some v₂) (hh₁ : hash jcs sha256 r₁ = .ok h₁)
    (hh₂ : hash jcs sha256 r₂ = .ok h₂) :
    (SafeIntegers (JsonDoc.numbers v₁) ↔ SafeIntegers (respelledNumbers v₁)) ∧
      (SafeIntegers (respelledNumbers v₁) → SafeIntegers (respelledNumbers v₂) →
        Utf8.valid r₁.payload = true → Utf8.valid r₂.payload = true → h₁ = h₂ →
        SameIntegers v₁ v₂) := by
  obtain ⟨w₁, hr₁⟩ := exists_accepted hh₁
  obtain ⟨w₂, hr₂⟩ := exists_accepted hh₂
  obtain rfl := Option.some.inj (hr₁.payload.symm.trans hv₁)
  obtain rfl := Option.some.inj (hr₂.payload.symm.trans hv₂)
  refine ⟨hr₁.safeIntegers_iff, fun hsafe₁ hsafe₂ hvalid₁ hvalid₂ heq => ?_⟩
  have hmeaning := (hr₁.hash_eq_iff hsha hr₂ hvalid₁ hvalid₂).mp heq
  exact sameIntegers_of_denote (hr₁.safeIntegers_iff.mpr hsafe₁) (hr₂.safeIntegers_iff.mpr hsafe₂)
    (Request.meaning_inj.mp hmeaning).2.2.1

/-- Two numbers that are rounded to one double hash alike. -/
lemma exists_hash_number {p q : String} {l m : List UInt8}
    (hl : Unmarshal.document (Request.charge p).document = some (.number l))
    (hm : Unmarshal.document (Request.charge q).document = some (.number m))
    (hcheck : checkNumber l = .ok () ∧ checkNumber m = .ok ())
    (hround : Binary64.round (JsonDoc.numberValue l) = Binary64.round (JsonDoc.numberValue m)) :
    ∃ h, hash .representative id (.charge p) = .ok h ∧
      hash .representative id (.charge q) = .ok h := by
  obtain ⟨h₁, hh₁⟩ := exists_hash (r := .charge p) hl hcheck.1 trivial
  obtain ⟨h₂, hh₂⟩ := exists_hash (r := .charge q) hm hcheck.2 trivial
  obtain ⟨v₁, hr₁⟩ := exists_accepted hh₁
  obtain ⟨v₂, hr₂⟩ := exists_accepted hh₂
  obtain rfl := Option.some.inj (hr₁.payload.symm.trans hl)
  obtain rfl := Option.some.inj (hr₂.payload.symm.trans hm)
  have heq : h₁ = h₂ := by
    refine (hr₁.hash_eq_iff Function.injective_id hr₂ (valid_utf8 p) (valid_utf8 q)).mpr ?_
    rw [JsonDoc.denote, JsonDoc.denote, hround]
    rfl
  exact ⟨h₁, hh₁, heq ▸ hh₂⟩

theorem safe_integers_iff_amount :
    ∃ h, hash .representative id (.charge "4200") = .ok h ∧
      hash .representative id (.charge "4200.0") = .ok h ∧
      (SafeIntegers [utf8 "4200"] ↔ SafeIntegers []) ∧
      SameIntegers (.number (utf8 "4200")) (.number (utf8 "4200.0")) := by
  have hv₁ : Unmarshal.document (Request.charge "4200").document =
      some (.number (utf8 "4200")) := rfl
  have hv₂ : Unmarshal.document (Request.charge "4200.0").document =
      some (.number (utf8 "4200.0")) := rfl
  obtain ⟨h, hh₁, hh₂⟩ := exists_hash_number hv₁ hv₂ (by decide +kernel) (by decide +kernel)
  have hsafe : SafeIntegers (respelledNumbers (.number (utf8 "4200.0"))) := by
    intro l hl n hn
    obtain rfl : l = utf8 "4200.0" := List.mem_singleton.mp (List.mem_filter.mp hl).1
    have hvalue : JsonDoc.numberValue (utf8 "4200.0") = (4200 : ℤ) := by decide +kernel
    obtain rfl : n = 4200 := by exact_mod_cast hn.symm.trans hvalue
    decide
  have hresult := safe_integers_iff Function.injective_id hv₁ hv₂ hh₁ hh₂
  refine ⟨h, hh₁, hh₂, hresult.1,
    hresult.2 (fun l hl => ?_) hsafe (valid_utf8 _) (valid_utf8 _) rfl⟩
  have hnone : respelledNumbers (.number (utf8 "4200")) = [] := by decide +kernel
  rw [hnone] at hl
  cases hl

/-- **Two payments that differ and hash alike.** Their amounts are integers beyond the range, with a
fraction part. -/
theorem hash_accepts_unsafe :
    JsonDoc.numberValue (utf8 "9007199254740993.0") = (2 ^ 53 + 1 : ℤ) ∧
      JsonDoc.numberValue (utf8 "9007199254740992.0") = (2 ^ 53 : ℤ) ∧
      ∃ h, hash .representative id (.charge "9007199254740993.0") = .ok h ∧
        hash .representative id (.charge "9007199254740992.0") = .ok h := by
  have hv₁ : Unmarshal.document (Request.charge "9007199254740993.0").document =
      some (.number (utf8 "9007199254740993.0")) := rfl
  have hv₂ : Unmarshal.document (Request.charge "9007199254740992.0").document =
      some (.number (utf8 "9007199254740992.0")) := rfl
  exact ⟨by decide +kernel, by decide +kernel,
    exists_hash_number hv₁ hv₂ (by decide +kernel) (by decide +kernel)⟩

end Idemio.Canonical
