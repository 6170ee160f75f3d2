import Idemio.Identity
import Idemio.Properties.AtMostOnce
import Idemio.Properties.Binding

set_option relaxedAutoImplicit false
set_option autoImplicit false

/-!
# Probes ask for the calls that were made

A key has a row only if a request was admitted for it. So in every reachable state the reconciler
reads each key back from its row as the handler wrote it, and probes for the identity that the
calls for the key were sent under.

## Main definitions

* `Idemio.Admitted` — a key of an admitted request.

## Main results

* `Idemio.admitted_of_row` — a key that has a row is the key of an admitted request.
* `Idemio.target_of_row` — the probe of a key that has a row is for the key itself.
-/

namespace Idemio

/-- The key is that of an admitted request. -/
def Admitted (env : Env) (k : KeyID) : Prop :=
  ∃ snapshot http req, admission env snapshot http = .ok req ∧ req.keyID = k

variable {env : Env} {ok : Assumption} {s : State} {p : Pid} {k : KeyID} {row : KeyRow}

/-- The key of a request that is served is admitted. -/
lemma admitted_of_request {req : Request} (h : Reaches env ok s)
    (hreq : (s.procs p).request = some req) : Admitted env req.keyID := by
  obtain ⟨snapshot, http, hadm⟩ := admitted_of_reaches h p hreq
  exact ⟨snapshot, http, req, hadm, rfl⟩

/-- **A key that has a row is admitted.** -/
theorem admitted_of_row (h : Reaches env ok s) (hrow : (s.shared.key k).row = some row) :
    Admitted env k := by
  refine h.invariant (I := fun s => ∀ row, (s.shared.key k).row = some row → Admitted env k)
    ?_ ?_ row hrow
  · rintro row ⟨⟩
  · rintro s ⟨p, a⟩ s' hs hI _ hstep row hrow
    cases keyChange_of_step hs hstep k with
    | same hkey => exact hI row (hkey ▸ hrow)
    | @claim tx _ _ _ hpr _ hk =>
      have hreq : (s.procs p).request = some tx.req := by rw [hpr]; rfl
      exact hk ▸ admitted_of_request hs hreq
    | complete _ _ _ _ hold => exact hI _ hold
    | expire _ _ _ _ hkey => simp [hkey] at hrow

/-- The key of a sweep had a row when it was selected. -/
lemma admitted_of_sweeping (h : Reaches env ok s) (p : Pid) :
    ∀ k ∈ (s.procs p).sweeping, Admitted env k := by
  refine Interleave.invariant_procs
    (P := fun _ _ pr => ∀ k ∈ pr.sweeping, Admitted env k) ?_ ?_ ?_ h p
  · rintro _ k ⟨⟩
  · intro s p a sh' pr' hs hI _ hact k hk
    rcases (rule_of_act hact).sweeping with hsub | ⟨now, rows, -, hrows, heq⟩
    · exact hI p k (hsub.subset hk)
    · rw [heq] at hk
      obtain ⟨⟨_, row⟩, he, rfl⟩ := List.mem_map.mp hk
      exact admitted_of_row hs (hrows.found _ he).1
  · exact fun s p a sh' pr' q _ _ hI _ _ => hI q

/-- **The probe of a key that has a row is for the key itself**, though it goes by what Postgres
prints for the row. -/
theorem target_of_row (h : Reaches env ok s) (hrow : (s.shared.key k).row = some row)
    (c : ProbeClient) (path : String) :
    ∃ stored, Uuid.parse (utf8 k.key) = some stored ∧
      c.target env path ⟨k.agentID, storedText stored⟩ = c.target env path k := by
  obtain ⟨snapshot, http, req, hadm, rfl⟩ := admitted_of_row h hrow
  obtain ⟨huuid, hkey⟩ := admission_ok_key hadm
  have haccepted : Header.Accepted .small (utf8 http.keyHeader) :=
    (Header.isUUID_toLower_utf8 _ _).trans huuid
  obtain ⟨stored, hparse, htext⟩ := storedText_key haccepted
  rw [Header.key_utf8 huuid, ← hkey] at hparse htext
  exact ⟨stored, hparse, by rw [htext]; rfl⟩

end Idemio
