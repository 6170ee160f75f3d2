import Idemio.Api.Reads

set_option relaxedAutoImplicit false
set_option autoImplicit false

/-!
# Payloads are read for an investigator alone

Nothing that a caller without that role can ask for depends on a payload: the statement that is
run for it does not read the column, and the rest of the answer is made from what that statement
returns.

## Main definitions

* `Idemio.Reads.Tables.SameButPayloads` — two databases differ in the payloads of intents alone.

## Main results

* `Idemio.Reads.redaction_noninterference` — the answers of both endpoints are the same over two
  such databases, and neither database changes.
-/

namespace Idemio.Reads

/-! ## Databases that differ in payloads -/

/-- An intent without its payload. -/
def withoutPayload (row : IntentRow) : IntentRow := { row with payload := [] }

/-- The databases differ in the payloads of intents alone. -/
structure Tables.SameButPayloads (t₁ t₂ : Tables) : Prop where
  keys : t₁.keys = t₂.keys
  intents : t₁.intents.map withoutPayload = t₂.intents.map withoutPayload
  conflicts : t₁.conflicts = t₂.conflicts
  audit : t₁.audit = t₂.audit

/-- A statement that does not read payloads selects the rows by what is left of them. -/
lemma selectIntentsRedacted_map (resourceType resourceID : List UInt8) (bounds : Window)
    (cursor : Option Key) (rows : List IntentRow) :
    (selectIntentsRedacted resourceType resourceID bounds cursor rows).map (intentView false) =
      (selectIntentsRedacted resourceType resourceID bounds cursor
        (rows.map withoutPayload)).map (intentView false) := by
  have hmatches : intentMatches resourceType resourceID bounds ∘ withoutPayload =
      intentMatches resourceType resourceID bounds := rfl
  have hview : intentView false ∘ (fun row : IntentRow => (row, ([] : RawMessage))) ∘
      withoutPayload = intentView false ∘ fun row => (row, []) := rfl
  have hkey : ∀ row, intentKey (withoutPayload row) = intentKey row := fun _ => rfl
  simp only [selectIntentsRedacted, selectIntents, List.filter_map, hmatches, List.map_map,
    Keyset.select_map hkey, hview]

/-- So the rows that are scanned without payloads are the same over the two databases. -/
lemma Tables.SameButPayloads.scanIntents_eq {t₁ t₂ : Tables} (h : t₁.SameButPayloads t₂)
    (env : Env) (r : ReadsHTTP) (bounds : Window) :
    scanIntents env r bounds false t₁.intents = scanIntents env r bounds false t₂.intents := by
  simp only [scanIntents, Bool.false_eq_true, if_false]
  congr 2
  funext cursor
  rw [selectIntentsRedacted_map, h.intents, ← selectIntentsRedacted_map]

/-! ## Callers without the role -/

/-- Payloads are asked for by an investigator alone. -/
lemma reason_of_admitIntents {cfg : Settings} {now : ℤ} {r : ReadsHTTP} {request : IntentsRequest}
    (h : admitIntents cfg now r = .ok request)
    (hrole : Header.trimSpace r.roleHeader ≠ roleInvestigator) : request.reason = none := by
  obtain ⟨hcaller, -, hreason⟩ := admitIntents_ok h
  cases hsome : request.reason with
  | none => rfl
  | some reason =>
    rw [hsome] at hreason
    have hinvestigator := (payloadRequest_some hreason).1
    rw [readerIdentity_ok hcaller] at hinvestigator
    exact absurd hinvestigator hrole

/-- **Payload redaction is non-interference.** Over two databases that differ in the payloads of
intents alone, a caller that is no investigator gets the same answers, and the databases stay as
they are. -/
theorem redaction_noninterference {cfg : Settings} {now : ℤ} {r : ReadsHTTP} {t₁ t₂ : Tables}
    (hsame : t₁.SameButPayloads t₂)
    (hrole : Header.trimSpace r.roleHeader ≠ roleInvestigator) :
    (∀ faults, (handleIntents cfg faults now r t₁).1 = (handleIntents cfg faults now r t₂).1 ∧
      (handleIntents cfg faults now r t₁).2 = t₁ ∧ (handleIntents cfg faults now r t₂).2 = t₂) ∧
    ∀ queryOK, handleConflicts cfg queryOK now r t₁ = handleConflicts cfg queryOK now r t₂ := by
  refine ⟨fun faults => ?_, fun queryOK => by simp only [handleConflicts, hsame.conflicts]⟩
  unfold handleIntents
  cases hasked : admitIntents cfg now r with
  | error problem => exact ⟨rfl, rfl, rfl⟩
  | ok request =>
    have hreason : request.reason = none := reason_of_admitIntents hasked hrole
    have hscan := hsame.scanIntents_eq cfg.env r request.bounds
    simp only [hreason, Option.isSome_none, hscan]
    split_ifs with hok
    · cases scanIntents cfg.env r request.bounds false t₂.intents with
      | none => exact ⟨rfl, rfl, rfl⟩
      | some rows =>
        simp only [auditIntents, hreason, commitIntents, List.append_nil]
        cases faults.commit with
        | ok => exact ⟨rfl, rfl, rfl⟩
        | refused => exact ⟨rfl, rfl, rfl⟩
        | unseen => exact ⟨rfl, rfl, rfl⟩
    · exact ⟨rfl, rfl, rfl⟩

/-- An operator is shown the intent, and not which of two payloads it has. -/
theorem redaction_noninterference_operator :
    let intent := IntentRow.small 1 .replace "a" keyA 5
    let answer (payload : RawMessage) :=
      (handleIntents .small .none 0 (.small "operator" [])
        (.small [{ intent with payload := payload }])).1
    answer [1] = answer [2] ∧ (answer [1]).toOption.isSome = true := by
  intro intent answer
  have hsame : (Tables.small [{ intent with payload := [1] }]).SameButPayloads
      (.small [{ intent with payload := [2] }]) := ⟨rfl, rfl, rfl, rfl⟩
  exact ⟨((redaction_noninterference hsame (by decide +kernel)).1 .none).1, by decide +kernel⟩

end Idemio.Reads
