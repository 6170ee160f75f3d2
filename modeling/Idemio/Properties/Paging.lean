import Idemio.Api.Paging

set_option relaxedAutoImplicit false
set_option autoImplicit false

/-!
# Paging is exact

A client that follows `next_cursor` from the first page until `has_more` is false gets every row
that matched and was there at the first request, once and in descending order of time and
identifier, whatever is inserted between the requests.

The two endpoints differ in what they select and how they show it.

## Main definitions

* `Idemio.Reads.serveIntents`, `Idemio.Reads.serveConflicts` — the answers to a client's requests.
* `Idemio.Reads.matchingIntents`, `Idemio.Reads.matchingConflicts` — what matches at a request.
* `Idemio.Reads.Exact` — what the client has collected is exact.

## Main results

* `Idemio.Reads.answered_intents`, `Idemio.Reads.answered_conflicts` — if the first request is
  answered and every window is accepted, every request is answered.
* `Idemio.Reads.paging_exact` — following the cursors is exact, for both endpoints.
* `Idemio.Reads.paging_inexact` — what its conditions on the years and on the clock are for.
-/

namespace Idemio.Reads

/-! ## Intents -/

/-- What `handleIntents` answers to request `n` of a client. -/
def serveIntents (cfg : Settings) (now : ℕ → ℤ) (tables : ℕ → Tables) (r : ReadsHTTP) (n : ℕ)
    (token : Option (List UInt8)) : Option (List IntentView × Option (List UInt8)) :=
  match (handleIntents cfg .none (now n) (r.withCursor token) (tables n)).1 with
  | .ok body => some body.page.follow
  | .error _ => none

/-- The request asks for payloads. -/
def ReadsHTTP.unredacted (r : ReadsHTTP) : Bool := r.query.get "include" = utf8 "payload"

/-- An intent as it is shown, with its payload or without. -/
def shownIntent (env : Env) (unredacted : Bool) (row : IntentRow) : IntentView :=
  intentView unredacted (row, if unredacted then env.jsonbText (.document row.payload) else [])

/-- The key of an intent that is shown. -/
def viewKey (row : IntentView) : Key := toLex (row.emittedAt, row.intentID)

lemma payloadRequest_isSome {r : ReadsHTTP} {caller : Caller} {reason : Option (List UInt8)}
    (h : payloadRequest r caller = .ok reason) : reason.isSome = r.unredacted := by
  rw [Bool.eq_iff_iff, payloadRequest_include h, ReadsHTTP.unredacted, decide_eq_true_eq]

/-- What is scanned is selected from what is shown. -/
lemma scanIntents_some {env : Env} {r : ReadsHTTP} {bounds : Window} {unredacted : Bool}
    {rows : List IntentRow} {views : List IntentView}
    (h : scanIntents env r bounds unredacted rows = some views) :
    ∃ cursor, cursorKey bounds.cursor = some cursor ∧
      views = Keyset.select viewKey cursor (bounds.limit + 1)
        ((rows.filter (intentMatches r.resourceType r.resourceID bounds)).map
          (shownIntent env unredacted)) := by
  unfold scanIntents at h
  rw [Option.ite_none_right_eq_some] at h
  obtain ⟨cursor, hcursor, rfl⟩ := Option.map_eq_some_iff.mp h.2
  have hkey : ∀ row, viewKey (shownIntent env unredacted row) = intentKey row := fun _ => rfl
  refine ⟨cursor, hcursor, ?_⟩
  rw [Keyset.select_map hkey]
  cases unredacted with
  | true => simp only [if_true, selectIntentsWithPayload, selectIntents, List.map_map]; rfl
  | false =>
    simp only [Bool.false_eq_true, if_false, selectIntentsRedacted, selectIntents, List.map_map]
    rfl

/-- What the answers to a client are pages of. -/
def matchingIntents (cfg : Settings) (now : ℕ → ℤ) (tables : ℕ → Tables) (r : ReadsHTTP) (n : ℕ) :
    List IntentView :=
  ((tables n).intents.filter
    (intentMatches r.resourceType r.resourceID (rangeAt (now n) r.query))).map
      (shownIntent cfg.env r.unredacted)

lemma serveIntents_some {cfg : Settings} {now : ℕ → ℤ} {tables : ℕ → Tables} {r : ReadsHTTP}
    (hfirst : r.query.get "cursor" = []) {n : ℕ} {token : Option (List UInt8)}
    {page : List IntentView × Option (List UInt8)}
    (h : serveIntents cfg now tables r n token = some page) :
    ∃ limit cursor, 1 ≤ limit ∧ IsCursor cfg.table token cursor ∧
      page = (pageOf (Keyset.select viewKey cursor (limit + 1) (matchingIntents cfg now tables r n))
        limit intentCursor).follow := by
  unfold serveIntents at h
  rcases handleIntents_cases cfg .none (now n) (r.withCursor token) (tables n) with
    ⟨problem, heq⟩ | ⟨request, rows, audit, hasked, -, -, hscan, -, heq⟩
  · rw [heq] at h
    cases h
  rw [heq, commitIntents] at h
  obtain ⟨-, hwindow, hreason⟩ := admitIntents_ok hasked
  obtain ⟨cursor, hcursor, rfl⟩ := scanIntents_some hscan
  obtain ⟨hsince, huntil⟩ := rangeAt_of_readWindow hwindow
  have hmatches : intentMatches (r.withCursor token).resourceType (r.withCursor token).resourceID
      request.bounds = intentMatches r.resourceType r.resourceID (rangeAt (now n) r.query) := by
    funext row
    simp only [intentMatches, hsince, huntil, withCursor_resourceType, withCursor_resourceID]
  have hunredacted : request.reason.isSome = r.unredacted := by
    rw [payloadRequest_isSome hreason, ReadsHTTP.unredacted, get_withCursor r token (by decide),
      ← ReadsHTTP.unredacted]
  refine ⟨request.bounds.limit, cursor, (readLimit_ok (readWindow_ok hwindow).2.1).1,
    isCursor_of_readWindow hfirst hwindow hcursor, ?_⟩
  rw [hmatches, hunredacted] at h
  exact (Option.some.inj h).symm

lemma intentMatches_mono {resourceType resourceID : List UInt8} {now now' : ℤ} {query : Query}
    (h : query.get "until" = [] → now ≤ now') {row : IntentRow}
    (hrow : intentMatches resourceType resourceID (rangeAt now query) row = true) :
    intentMatches resourceType resourceID (rangeAt now' query) row = true := by
  simp only [intentMatches, decide_eq_true_eq] at hrow ⊢
  obtain ⟨htype, hid, hsince, huntil⟩ := hrow
  exact ⟨htype, hid, hsince,
    huntil.trans (Int.ediv_le_ediv (by decide) (untilTime_le h))⟩

lemma servesPages_intents {cfg : Settings} {now : ℕ → ℤ} {tables : ℕ → Tables} {r : ReadsHTTP}
    {last : List IntentRow} (hfirst : r.query.get "cursor" = [])
    (hinserted : Inserted intentKey (fun n => (tables n).intents) last) :
    ServesPages (serveIntents cfg now tables r) viewKey intentCursor cfg.table
      (matchingIntents cfg now tables r) where
  page n token page h := serveIntents_some hfirst h
  text_eq n x hx := by
    obtain ⟨row, hrow, rfl⟩ := List.mem_map.mp hx
    have hlast := (hinserted.le_last n).subset (List.mem_of_mem_filter hrow)
    exact ⟨row.emittedAt, row.intentID, hinserted.uuid row hlast, rfl, rfl⟩
  nodup n := by
    rw [matchingIntents, List.map_map]
    exact hinserted.nodup.sublist
      ((List.filter_sublist.trans (hinserted.le_last n)).map intentKey)

/-! ## Conflicts -/

/-- What `handleConflicts` answers to request `n` of a client. -/
def serveConflicts (cfg : Settings) (now : ℕ → ℤ) (tables : ℕ → Tables) (r : ReadsHTTP) (n : ℕ)
    (token : Option (List UInt8)) : Option (List ConflictRow × Option (List UInt8)) :=
  match handleConflicts cfg true (now n) (r.withCursor token) (tables n) with
  | .ok page => some page.follow
  | .error _ => none

/-- What the answers to a client are pages of. -/
def matchingConflicts (now : ℕ → ℤ) (tables : ℕ → Tables) (r : ReadsHTTP) (n : ℕ) :
    List ConflictRow :=
  (tables n).conflicts.filter (conflictMatches r.query (rangeAt (now n) r.query))

/-- The filters are the same in every request. -/
lemma filters_withCursor (r : ReadsHTTP) (token : Option (List UInt8)) :
    (r.withCursor token).query.get "agent_id" = r.query.get "agent_id" ∧
      (r.withCursor token).query.get "resource_type" = r.query.get "resource_type" ∧
      (r.withCursor token).query.get "resolution" = r.query.get "resolution" :=
  ⟨get_withCursor r token (by decide), get_withCursor r token (by decide),
    get_withCursor r token (by decide)⟩

lemma serveConflicts_some {cfg : Settings} {now : ℕ → ℤ} {tables : ℕ → Tables} {r : ReadsHTTP}
    (hfirst : r.query.get "cursor" = []) {n : ℕ} {token : Option (List UInt8)}
    {page : List ConflictRow × Option (List UInt8)}
    (h : serveConflicts cfg now tables r n token = some page) :
    ∃ limit cursor, 1 ≤ limit ∧ IsCursor cfg.table token cursor ∧
      page = (pageOf (Keyset.select conflictKey cursor (limit + 1)
        (matchingConflicts now tables r n)) limit conflictCursor).follow := by
  unfold serveConflicts at h
  split at h
  · next p hp =>
    obtain ⟨_, bounds, rows, -, hwindow, -, hscan, rfl⟩ := handleConflicts_ok_iff.mp hp
    rw [scanConflicts, Option.ite_none_right_eq_some] at hscan
    obtain ⟨cursor, hcursor, rfl⟩ := Option.map_eq_some_iff.mp hscan.2
    obtain ⟨hsince, huntil⟩ := rangeAt_of_readWindow hwindow
    have hmatches : conflictMatches (r.withCursor token).query bounds =
        conflictMatches r.query (rangeAt (now n) r.query) := by
      funext row
      simp only [conflictMatches, hsince, huntil, filters_withCursor r token]
    refine ⟨bounds.limit, cursor, (readLimit_ok (readWindow_ok hwindow).2.1).1,
      isCursor_of_readWindow hfirst hwindow hcursor, ?_⟩
    rw [selectConflicts, hmatches] at h
    exact (Option.some.inj h).symm
  · cases h

lemma conflictMatches_mono {now now' : ℤ} {query : Query}
    (h : query.get "until" = [] → now ≤ now') {row : ConflictRow}
    (hrow : conflictMatches query (rangeAt now query) row = true) :
    conflictMatches query (rangeAt now' query) row = true := by
  simp only [conflictMatches, decide_eq_true_eq] at hrow ⊢
  obtain ⟨hsince, huntil, hfilters⟩ := hrow
  exact ⟨hsince, huntil.trans (Int.ediv_le_ediv (by decide) (untilTime_le h)), hfilters⟩

lemma servesPages_conflicts {cfg : Settings} {now : ℕ → ℤ} {tables : ℕ → Tables} {r : ReadsHTTP}
    {last : List ConflictRow} (hfirst : r.query.get "cursor" = [])
    (hinserted : Inserted conflictKey (fun n => (tables n).conflicts) last) :
    ServesPages (serveConflicts cfg now tables r) conflictKey conflictCursor cfg.table
      (matchingConflicts now tables r) where
  page n token page h := serveConflicts_some hfirst h
  text_eq n x hx := by
    have hlast := (hinserted.le_last n).subset (List.mem_of_mem_filter hx)
    exact ⟨x.detectedAt, x.conflictID, hinserted.uuid x hlast, rfl, rfl⟩
  nodup n := hinserted.nodup.sublist
    ((List.filter_sublist.trans (hinserted.le_last n)).map conflictKey)

/-! ## Requests that are answered -/

lemma zero_not_mem_encodeCursor (time : ℤ) (id : List UInt8) : 0 ∉ encodeCursor time id := by
  intro hmem
  obtain ⟨n, hn, hzero⟩ := Base64.exists_digit_of_mem_encode hmem
  revert hzero
  interval_cases n <;> decide

/-- Every request of a client is by the same caller. -/
lemma readerIdentity_withCursor (r : ReadsHTTP) (token : Option (List UInt8)) :
    readerIdentity (r.withCursor token) = readerIdentity r := by
  cases token <;> rfl

/-- And for the same payloads, or for none. -/
lemma payloadRequest_withCursor (r : ReadsHTTP) (token : Option (List UInt8)) (caller : Caller) :
    payloadRequest (r.withCursor token) caller = payloadRequest r caller := by
  have hreason : (r.withCursor token).reasonHeader = r.reasonHeader := by cases token <;> rfl
  rw [payloadRequest, payloadRequest, get_withCursor r token (by decide), hreason]

/-- A parameter of the next request is the cursor, or one of the first request. -/
lemma mem_auditParams_set {query : Query} {raw : List UInt8} {e : List UInt8 × List UInt8}
    (h : e ∈ auditParams (query.set "cursor" raw)) :
    e = (utf8 "cursor", raw) ∨ e ∈ auditParams query := by
  obtain ⟨name, hname, rfl⟩ := List.mem_map.mp h
  by_cases hcursor : name = utf8 "cursor"
  · subst hcursor
    exact .inl (congrArg _ (Query.get_set_self query "cursor" raw))
  · obtain ⟨e, he, rfl⟩ := List.mem_map.mp (List.mem_dedup.mp hname)
    rcases List.mem_cons.mp he with rfl | he
    · exact absurd rfl hcursor
    · rw [query.first_set_of_ne raw hcursor]
      exact .inr (List.mem_map.mpr ⟨e.1, List.mem_dedup.mpr
        (List.mem_map_of_mem (List.mem_of_mem_filter he)), rfl⟩)

/-- If one access can be recorded, so can the next. -/
lemma recordPayloadAccess_withCursor {r : ReadsHTTP} {caller : Caller} {reason : List UInt8}
    {page page' : List IntentView} (h : (recordPayloadAccess r caller reason page).isSome)
    {token : Option (List UInt8)} (htoken : ∀ raw ∈ token, 0 ∉ raw) :
    (recordPayloadAccess (r.withCursor token) caller reason page').isSome := by
  simp only [recordPayloadAccess, Option.isSome_ite, Bool.and_eq_true, List.all_eq_true] at h ⊢
  obtain ⟨hstorable, hquery⟩ := h
  cases token with
  | none => exact ⟨hstorable, hquery⟩
  | some raw =>
    refine ⟨hstorable, fun e he => ?_⟩
    rcases mem_auditParams_set he with rfl | he
    · have hname : (utf8 "cursor").contains 0 = false := by decide
      have hraw : raw.contains 0 = false := by simpa using htoken raw rfl
      simp only [hname, hraw, Bool.not_false, and_self]
    · exact hquery e he

/-- An endpoint answers if nothing refuses the request and what is read can be recorded. -/
lemma serveIntents_isSome {cfg : Settings} {now : ℕ → ℤ} {tables : ℕ → Tables} {r : ReadsHTTP}
    {n : ℕ} {token : Option (List UInt8)} {request : IntentsRequest}
    (hasked : admitIntents cfg (now n) (r.withCursor token) = .ok request)
    (hscan : (scanIntents cfg.env (r.withCursor token) request.bounds request.reason.isSome
      (tables n).intents).isSome)
    (haudit : ∀ reason ∈ request.reason, ∀ page,
      (recordPayloadAccess (r.withCursor token) request.caller reason page).isSome) :
    (serveIntents cfg now tables r n token).isSome := by
  obtain ⟨rows, hrows⟩ := Option.isSome_iff_exists.mp hscan
  have hrecorded : ∀ page, ∃ audit,
      auditIntents .none (r.withCursor token) request page = some audit := by
    intro page
    rw [auditIntents]
    cases hreason : request.reason with
    | none => exact ⟨[], rfl⟩
    | some reason =>
      obtain ⟨entry, hentry⟩ := Option.isSome_iff_exists.mp (haudit reason hreason page)
      exact ⟨[entry], by simp [Faults.none, hentry]⟩
  obtain ⟨audit, haudit⟩ := hrecorded (pageOf rows request.bounds.limit intentCursor).rows
  simp only [serveIntents, handleIntents, hasked, hrows, haudit]
  rfl

/-- **If the first request for intents is answered and the window of every other one is accepted,
all are answered.** -/
lemma answered_intents {cfg : Settings} {now : ℕ → ℤ} {tables : ℕ → Tables} {r : ReadsHTTP}
    {last : List IntentRow} (hfirst : r.query.get "cursor" = [])
    (hinserted : Inserted intentKey (fun n => (tables n).intents) last)
    (hzero : (serveIntents cfg now tables r 0 none).isSome)
    (haccepted : AllAccepted cfg now r (serveIntents cfg now tables r))
    (n : ℕ) (token : Option (List UInt8))
    (hrequested : Keyset.Requested (serveIntents cfg now tables r) n token) :
    (serveIntents cfg now tables r n token).isSome := by
  have hpages : ServesPages (serveIntents cfg now tables r) viewKey intentCursor cfg.table
      (matchingIntents cfg now tables r) := servesPages_intents hfirst hinserted
  obtain ⟨w, hwindow⟩ := haccepted n token hrequested
  obtain ⟨cursor, hcursor⟩ := hpages.cursorKey_of_readWindow hrequested hfirst hwindow
  have htoken : ∀ raw ∈ token, 0 ∉ raw := by
    rintro raw rfl
    obtain ⟨m, x, -, rfl⟩ := hpages.exists_text hrequested
    exact zero_not_mem_encodeCursor _ _
  -- what the first answer says about the caller, the resource and the audit row
  unfold serveIntents at hzero
  rcases handleIntents_cases cfg .none (now 0) (r.withCursor none) (tables 0) with
    ⟨problem, heq⟩ | ⟨request, rows, audit, hasked, -, -, hscan, haudit, -⟩
  · rw [heq] at hzero
    cases hzero
  obtain ⟨hcaller, -, hreason⟩ := admitIntents_ok hasked
  rw [scanIntents, Option.ite_none_right_eq_some] at hscan
  have hasked' : admitIntents cfg (now n) (r.withCursor token) =
      .ok ⟨request.caller, w, request.reason⟩ := by
    rw [admitIntents, readerIdentity_withCursor, ← readerIdentity_withCursor r none, hcaller]
    dsimp only
    rw [hwindow]
    dsimp only
    rw [payloadRequest_withCursor, ← payloadRequest_withCursor r none, hreason]
    rfl
  refine serveIntents_isSome hasked' ?_ fun reason hsome page => ?_
  · simp only [scanIntents, withCursor_resourceType, withCursor_resourceID, hcursor]
    simpa using hscan.1
  · rw [auditIntents, hsome] at haudit
    have hentry := (Option.ite_none_right_eq_some.mp haudit).2
    obtain ⟨entry, hentry, -⟩ := Option.map_eq_some_iff.mp hentry
    exact recordPayloadAccess_withCursor (r := r) (Option.isSome_iff_exists.mpr ⟨entry, hentry⟩)
      htoken

/-- **And so are the requests for conflicts.** -/
lemma answered_conflicts {cfg : Settings} {now : ℕ → ℤ} {tables : ℕ → Tables} {r : ReadsHTTP}
    {last : List ConflictRow} (hfirst : r.query.get "cursor" = [])
    (hinserted : Inserted conflictKey (fun n => (tables n).conflicts) last)
    (hzero : (serveConflicts cfg now tables r 0 none).isSome)
    (haccepted : AllAccepted cfg now r (serveConflicts cfg now tables r))
    (n : ℕ) (token : Option (List UInt8))
    (hrequested : Keyset.Requested (serveConflicts cfg now tables r) n token) :
    (serveConflicts cfg now tables r n token).isSome := by
  have hpages : ServesPages (serveConflicts cfg now tables r) conflictKey conflictCursor cfg.table
      (matchingConflicts now tables r) := servesPages_conflicts hfirst hinserted
  obtain ⟨w, hwindow⟩ := haccepted n token hrequested
  obtain ⟨cursor, hcursor⟩ := hpages.cursorKey_of_readWindow hrequested hfirst hwindow
  unfold serveConflicts at hzero
  split at hzero
  · next page hpage =>
    obtain ⟨caller, _, _, hcaller, -, hinclude, hscan, -⟩ := handleConflicts_ok_iff.mp hpage
    rw [scanConflicts, Option.ite_none_right_eq_some] at hscan
    have hscan' : scanConflicts (r.withCursor token) w (tables n).conflicts =
        some (selectConflicts (r.withCursor token).query w cursor (tables n).conflicts) := by
      simp only [scanConflicts, hcursor, filters_withCursor r token]
      exact if_pos hscan.1
    rw [serveConflicts, handleConflicts_ok_iff.mpr ⟨caller, w, _,
      (readerIdentity_withCursor r token).trans hcaller, hwindow,
      (get_withCursor r token (by decide)).trans hinclude, hscan', rfl⟩]
    rfl
  · cases hzero

/-! ## Following the cursors -/

/-- What a client has collected is exact: in strictly descending order, with every row that was
present once, and with nothing that did not match. -/
structure Exact {β : Type} [DecidableEq β] (key : β → Key) (matching : ℕ → List β)
    (rows : List β) : Prop where
  descending : rows.Pairwise fun x y => key y < key x
  once : ∀ x ∈ matching 0, rows.count x = 1
  not_twice : rows.Nodup
  matched : ∀ x ∈ rows, ∃ n, x ∈ matching n

lemma exact_of_collected {β : Type} [DecidableEq β] {key : β → Key} {matching : ℕ → List β}
    {rows : List β} (h : Keyset.Collected key (fun n x => x ∈ matching n) none rows) :
    Exact key matching rows := by
  have hnodup : rows.Nodup := h.pairwise.imp fun hlt heq => (heq ▸ hlt).false
  exact ⟨h.pairwise, fun x hx => List.count_eq_one_of_mem hnodup (h.complete x hx rfl), hnodup,
    fun x hx => (h.mem x hx).1⟩

/-- **Paging through intents is exact.** -/
lemma follow_intents_exact {cfg : Settings} {now : ℕ → ℤ} {tables : ℕ → Tables} {r : ReadsHTTP}
    {last : List IntentRow} (hfirst : r.query.get "cursor" = [])
    (hclock : ∀ n, r.query.get "until" = [] → now 0 ≤ now n)
    (hinserted : Inserted intentKey (fun n => (tables n).intents) last)
    (hzero : (serveIntents cfg now tables r 0 none).isSome)
    (haccepted : AllAccepted cfg now r (serveIntents cfg now tables r)) :
    ∃ fuel rows, Keyset.follow (serveIntents cfg now tables r) fuel 0 none = some rows ∧
      Exact viewKey (matchingIntents cfg now tables r) rows := by
  have hkept : ∀ n x, x ∈ matchingIntents cfg now tables r 0 →
      x ∈ matchingIntents cfg now tables r n := by
    intro n x hx
    obtain ⟨row, hrow, rfl⟩ := List.mem_map.mp hx
    obtain ⟨hrow, hmatches⟩ := List.mem_filter.mp hrow
    exact List.mem_map_of_mem (List.mem_filter.mpr
      ⟨hinserted.mem_of_mem_zero n hrow, intentMatches_mono (hclock n) hmatches⟩)
  have hall : ∀ n x, x ∈ matchingIntents cfg now tables r n →
      x ∈ last.map (shownIntent cfg.env r.unredacted) := by
    intro n x hx
    exact ((List.filter_sublist.trans (hinserted.le_last n)).map _).subset hx
  obtain ⟨fuel, rows, hfollow, hrows⟩ := Keyset.follow_exact
    ((servesPages_intents hfirst hinserted).serves
      (answered_intents hfirst hinserted hzero haccepted)) hkept hall
  exact ⟨fuel, rows, hfollow, exact_of_collected hrows⟩

/-- **And so is paging through conflicts.** -/
lemma follow_conflicts_exact {cfg : Settings} {now : ℕ → ℤ} {tables : ℕ → Tables} {r : ReadsHTTP}
    {last : List ConflictRow} (hfirst : r.query.get "cursor" = [])
    (hclock : ∀ n, r.query.get "until" = [] → now 0 ≤ now n)
    (hinserted : Inserted conflictKey (fun n => (tables n).conflicts) last)
    (hzero : (serveConflicts cfg now tables r 0 none).isSome)
    (haccepted : AllAccepted cfg now r (serveConflicts cfg now tables r)) :
    ∃ fuel rows, Keyset.follow (serveConflicts cfg now tables r) fuel 0 none = some rows ∧
      Exact conflictKey (matchingConflicts now tables r) rows := by
  have hkept : ∀ n x, x ∈ matchingConflicts now tables r 0 →
      x ∈ matchingConflicts now tables r n := by
    intro n x hx
    obtain ⟨hx, hmatches⟩ := List.mem_filter.mp hx
    exact List.mem_filter.mpr
      ⟨hinserted.mem_of_mem_zero n hx, conflictMatches_mono (hclock n) hmatches⟩
  have hall : ∀ n x, x ∈ matchingConflicts now tables r n → x ∈ last := by
    intro n x hx
    exact (List.filter_sublist.trans (hinserted.le_last n)).subset hx
  obtain ⟨fuel, rows, hfollow, hrows⟩ := Keyset.follow_exact
    ((servesPages_conflicts hfirst hinserted).serves
      (answered_conflicts hfirst hinserted hzero haccepted)) hkept hall
  exact ⟨fuel, rows, hfollow, exact_of_collected hrows⟩

/-- **Keyset paging is exact.** Rows are inserted into both tables between the requests of a
client. If no end of the range is given, the clock is never behind the first request. If that one
is answered and the window of every request is accepted, following the cursors ends, in either
endpoint, and gives every row that matched at the first request once, no row twice, and in
strictly descending order. A cursor is read back if the year of its time has four digits, and is
refused for its timestamp if not. -/
theorem paging_exact {cfg : Settings} {now : ℕ → ℤ} {tables : ℕ → Tables} {r : ReadsHTTP}
    {intents : List IntentRow} {conflicts : List ConflictRow}
    (hfirst : r.query.get "cursor" = [])
    (hclock : ∀ n, r.query.get "until" = [] → now 0 ≤ now n)
    (hintents : Inserted intentKey (fun n => (tables n).intents) intents)
    (hconflicts : Inserted conflictKey (fun n => (tables n).conflicts) conflicts) :
    ((serveIntents cfg now tables r 0 none).isSome →
      AllAccepted cfg now r (serveIntents cfg now tables r) →
      ∃ fuel rows, Keyset.follow (serveIntents cfg now tables r) fuel 0 none = some rows ∧
        Exact viewKey (matchingIntents cfg now tables r) rows) ∧
    ((serveConflicts cfg now tables r 0 none).isSome →
      AllAccepted cfg now r (serveConflicts cfg now tables r) →
      ∃ fuel rows, Keyset.follow (serveConflicts cfg now tables r) fuel 0 none = some rows ∧
        Exact conflictKey (matchingConflicts now tables r) rows) ∧
    ∀ (t : Time) (id : ℕ), id < 2 ^ 128 →
      (Timestamp.FourDigits (1000 * t) →
        decodeCursor cfg.table (encodeCursor (1000 * t) (Uuid.text id)) =
          .ok ⟨1000 * t, Uuid.text id⟩) ∧
      (¬Timestamp.FourDigits (1000 * t) →
        decodeCursor cfg.table (encodeCursor (1000 * t) (Uuid.text id)) =
          .error "cursor carries no timestamp") := by
  refine ⟨follow_intents_exact hfirst hclock hintents,
    follow_conflicts_exact hfirst hclock hconflicts, fun t id hid => ?_⟩
  rw [decodeCursor_encodeCursor (isUUID_text cfg.table hid)]
  exact ⟨fun hyear => if_pos hyear, fun hyear => if_neg hyear⟩

/-- Two intents at the same time are read one by one, while a third one arrives. -/
theorem paging_exact_ties :
    let old := [IntentRow.small 1 .replace "a" keyA 5, IntentRow.small 2 .replace "b" keyA 5]
    let tables (n : ℕ) : Tables :=
      .small (if n = 0 then old else old ++ [IntentRow.small 3 .replace "c" keyA 4])
    let r := ReadsHTTP.small "operator" [(utf8 "limit", utf8 "1")]
    ∃ fuel rows, Keyset.follow (serveIntents .small (fun _ => 0) tables r) fuel 0 none = some rows ∧
      Exact viewKey (matchingIntents .small (fun _ => 0) tables r) rows := by
  intro old tables r
  have hfirst : r.query.get "cursor" = [] := by decide +kernel
  have hintents : Inserted intentKey (fun n => (tables n).intents)
      (old ++ [IntentRow.small 3 .replace "c" keyA 4]) := by
    refine ⟨fun n => ?_, fun n => ?_, by decide +kernel, by decide +kernel⟩
    · rcases n with _ | n
      · exact List.sublist_append_left _ _
      · exact List.Sublist.refl _
    · rcases n with _ | n
      · exact List.sublist_append_left _ _
      · exact List.Sublist.refl _
  have hconflicts : Inserted conflictKey (fun n => (tables n).conflicts) [] :=
    ⟨fun _ => .slnil, fun _ => .slnil, List.nodup_nil, by simp⟩
  have haccepted : AllAccepted .small (fun _ => 0) r
      (serveIntents .small (fun _ => 0) tables r) := by
    refine (servesPages_intents hfirst hintents).allAccepted hfirst
      (fun _ => ⟨(0, 86400 * 10 ^ 9), by decide +kernel⟩) ⟨1, by decide +kernel⟩ fun n x hx => ?_
    obtain ⟨row, hrow, rfl⟩ := List.mem_map.mp hx
    have hyears : ∀ row ∈ old ++ [IntentRow.small 3 .replace "c" keyA 4],
        Timestamp.FourDigits (1000 * row.emittedAt) := by
      decide +kernel
    exact hyears row ((hintents.le_last n).subset (List.mem_of_mem_filter hrow))
  exact (paging_exact hfirst (fun _ _ => le_rfl) hintents hconflicts).1 (by decide +kernel)
    haccepted

/-! ## What the conditions are for -/

/-- **A cursor in the year 10000 is not read back.** Its time is printed with five digits. -/
lemma cursor_year_ten_thousand :
    ¬∀ (t : Time) (id : ℕ), id < 2 ^ 128 →
      decodeCursor CaseTable.small (encodeCursor (1000 * t) (Uuid.text id)) =
        .ok ⟨1000 * t, Uuid.text id⟩ := by
  intro hall
  have hcursor := hall 253402300800000000 0 (by decide)
  have hyear : ¬Timestamp.FourDigits (1000 * 253402300800000000) := by decide +kernel
  rw [decodeCursor_encodeCursor (isUUID_text _ (by decide)), if_neg hyear] at hcursor
  cases hcursor

/-- A request without an end of its range, for one row at a time. -/
def ReadsHTTP.onward : ReadsHTTP :=
  { ReadsHTTP.small "operator" [] with
    query := [(utf8 "since", utf8 "1970-01-01T00:00:00Z"), (utf8 "limit", utf8 "1")] }

/-- A clock that is set back after the first request. -/
def setBack (n : ℕ) : ℤ := if n = 0 then 10000 else 2000

/-- Two intents, of 3 µs and 5 µs after the start of 1970. -/
def Tables.pair : Tables :=
  .small [IntentRow.small 1 .replace "a" keyA 3, IntentRow.small 2 .replace "b" keyA 5]

lemma inserted_pair : Inserted intentKey (fun _ : ℕ => Tables.pair.intents) Tables.pair.intents :=
  ⟨fun _ => List.Sublist.refl _, fun _ => List.Sublist.refl _, by decide +kernel,
    by decide +kernel⟩

/-- Every request is accepted, whatever the clock shows. -/
lemma allAccepted_onward : AllAccepted .small setBack .onward
    (serveIntents .small setBack (fun _ => Tables.pair) .onward) := by
  refine (servesPages_intents (by decide +kernel) inserted_pair).allAccepted (by decide +kernel)
    (fun n => ?_) ⟨1, by decide +kernel⟩ fun n x hx => ?_
  · unfold setBack
    split
    · exact ⟨(0, 10000), by decide +kernel⟩
    · exact ⟨(0, 2000), by decide +kernel⟩
  · obtain ⟨row, hrow, rfl⟩ := List.mem_map.mp hx
    have hyears : ∀ row ∈ Tables.pair.intents, Timestamp.FourDigits (1000 * row.emittedAt) := by
      decide +kernel
    exact hyears row (List.mem_of_mem_filter hrow)

/-- **A clock that is set back loses a row.** The range of the second request ends before the row
that is left, and the client is told that there are no more. -/
lemma row_lost_by_clock : ∃ fuel rows lost,
    Keyset.follow (serveIntents .small setBack (fun _ => Tables.pair) .onward) fuel 0 none =
      some rows ∧
    lost ∈ matchingIntents .small setBack (fun _ => Tables.pair) .onward 0 ∧ lost ∉ rows := by
  refine ⟨3, [shownIntent Env.small false (IntentRow.small 2 .replace "b" keyA 5)],
    shownIntent Env.small false (IntentRow.small 1 .replace "a" keyA 3), ?_, ?_, ?_⟩ <;>
    decide +kernel

/-- **Neither condition can be dropped.** Not every cursor is read back. And if the clock is set
back between two requests without an end of their range, then a row that matched at the first is
never returned, though nothing is inserted, the first request is answered and all are accepted. -/
theorem paging_inexact :
    (¬∀ (t : Time) (id : ℕ), id < 2 ^ 128 →
      decodeCursor CaseTable.small (encodeCursor (1000 * t) (Uuid.text id)) =
        .ok ⟨1000 * t, Uuid.text id⟩) ∧
    (ReadsHTTP.onward.query.get "cursor" = [] ∧
      Inserted intentKey (fun _ : ℕ => Tables.pair.intents) Tables.pair.intents ∧
      (serveIntents .small setBack (fun _ => Tables.pair) .onward 0 none).isSome ∧
      AllAccepted .small setBack .onward
        (serveIntents .small setBack (fun _ => Tables.pair) .onward) ∧
      ∃ fuel rows lost,
        Keyset.follow (serveIntents .small setBack (fun _ => Tables.pair) .onward) fuel 0 none =
          some rows ∧
        lost ∈ matchingIntents .small setBack (fun _ => Tables.pair) .onward 0 ∧ lost ∉ rows) :=
  ⟨cursor_year_ten_thousand, by decide +kernel, inserted_pair, by decide +kernel,
    allAccepted_onward, row_lost_by_clock⟩

end Idemio.Reads
