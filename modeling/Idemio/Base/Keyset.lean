import Mathlib.Data.List.Sort
import Mathlib.Tactic.Lemma

set_option relaxedAutoImplicit false
set_option autoImplicit false

/-!
# Keyset paging

Rows have a key in a linear order and are read in descending order, a page at a time. A page holds
the rows that come first among those below the cursor, and the cursor of the next page is the key
of its last row. What a server hands out for a cursor may be a token of another type. Rows may be
inserted between one page and the next.

## Main definitions

* `Keyset.select` — the rows that a query with a cursor and a limit returns.
* `Keyset.IsPage` — a page as it should be.
* `Keyset.follow` — what a client collects that follows the tokens to the end.
* `Keyset.Requested` — the requests that it makes.

## Main results

* `Keyset.isPage_select` — the rows of a query, cut to the limit, are a page.
* `Keyset.follow_exact` — the client reaches the end, and has every row that was there from the
  start, once.
-/

namespace Keyset

variable {α β κ τ : Type*} [LinearOrder κ]

/-! ## Pages -/

/-- The key comes after the cursor in descending order. -/
def below (cursor : Option κ) (k : κ) : Bool := cursor.all (k < ·)

@[simp] lemma below_some (c k : κ) : below (some c) k = true ↔ k < c := by simp [below]

/-- The rows below the cursor in descending order. -/
def sorted (key : α → κ) (cursor : Option κ) (rows : List α) : List α :=
  (rows.filter fun x => below cursor (key x)).insertionSort fun x y => key y ≤ key x

/-- The first `limit` rows below the cursor, in descending order. -/
def select (key : α → κ) (cursor : Option κ) (limit : ℕ) (rows : List α) : List α :=
  (sorted key cursor rows).take limit

/-- What keeps the keys may be done before or after. -/
lemma select_map {key : β → κ} {key' : α → κ} {f : α → β} (hkey : ∀ x, key (f x) = key' x)
    (cursor : Option κ) (limit : ℕ) (rows : List α) :
    select key cursor limit (rows.map f) = (select key' cursor limit rows).map f := by
  have hbelow : (fun x => below cursor (key x)) ∘ f = fun x => below cursor (key' x) := by
    funext x
    simp [hkey]
  rw [select, select, sorted, sorted, List.map_take, List.filter_map, hbelow]
  congr 1
  exact (List.map_insertionSort _ _ f _ fun x _ y _ => by simp [hkey]).symm

/-- The first rows of those that are available below the cursor, in descending order, and whether
there are more. -/
structure IsPage (key : α → κ) (available : α → Prop) (cursor : Option κ) (page : List α)
    (more : Bool) : Prop where
  pairwise : page.Pairwise fun x y => key y < key x
  mem : ∀ x ∈ page, available x ∧ below cursor (key x) = true
  left_out : ∀ x, available x → below cursor (key x) = true → x ∉ page →
    more = true ∧ ∀ y ∈ page, key x < key y
  nonempty : more = true → page ≠ []

lemma mem_sorted {key : α → κ} {cursor : Option κ} {rows : List α} {x : α} :
    x ∈ sorted key cursor rows ↔ x ∈ rows ∧ below cursor (key x) = true := by
  rw [sorted, List.mem_insertionSort, List.mem_filter]

/-- Rows with different keys are sorted strictly. -/
lemma pairwise_sorted {key : α → κ} {rows : List α} (hnodup : (rows.map key).Nodup)
    (cursor : Option κ) : (sorted key cursor rows).Pairwise fun x y => key y < key x := by
  have hle : (sorted key cursor rows).Pairwise fun x y => key y ≤ key x := by
    have : Std.Total fun x y : α => key y ≤ key x := ⟨fun x y => le_total (key y) (key x)⟩
    have : IsTrans α fun x y => key y ≤ key x := ⟨fun x y z hxy hyz => hyz.trans hxy⟩
    exact List.pairwise_insertionSort _ _
  have hne : (sorted key cursor rows).Pairwise fun x y => key x ≠ key y := by
    rw [← List.pairwise_map, ← List.Nodup]
    have hperm := List.perm_insertionSort (fun x y => key y ≤ key x)
      (rows.filter fun x => below cursor (key x))
    exact (hperm.map key).nodup_iff.mpr (hnodup.sublist (List.filter_sublist.map key))
  exact hle.imp₂ (fun x y hle hne => lt_of_le_of_ne hle hne.symm) hne

/-- **The rows of a query, cut to the limit, are a page**, and there are more if the query returned
more than the limit. -/
theorem isPage_select {key : α → κ} {rows : List α} (hnodup : (rows.map key).Nodup)
    (cursor : Option κ) {limit : ℕ} (hlimit : 1 ≤ limit) :
    IsPage key (· ∈ rows) cursor ((select key cursor (limit + 1) rows).take limit)
      (limit < (select key cursor (limit + 1) rows).length) := by
  have hpairwise := pairwise_sorted hnodup cursor
  have hpage : (select key cursor (limit + 1) rows).take limit =
      (sorted key cursor rows).take limit := by
    rw [select, List.take_take, Nat.min_eq_left (Nat.le_succ limit)]
  rw [hpage]
  refine ⟨hpairwise.sublist (List.take_sublist _ _), fun x hx => mem_sorted.mp
    (List.mem_of_mem_take hx), fun x hx hbelow hout => ?_, fun hmore hnil => ?_⟩
  · have hdrop : x ∈ (sorted key cursor rows).drop limit := by
      have hsplit := mem_sorted.mpr ⟨hx, hbelow⟩
      rw [← List.take_append_drop limit (sorted key cursor rows), List.mem_append] at hsplit
      exact hsplit.resolve_left hout
    constructor
    · have hlen := List.length_pos_of_mem hdrop
      rw [List.length_drop] at hlen
      simp only [select, List.length_take, decide_eq_true_eq]
      omega
    · intro y hy
      rw [← List.take_append_drop limit (sorted key cursor rows), List.pairwise_append]
        at hpairwise
      exact hpairwise.2.2 y hy x hdrop
  · simp only [select, List.length_take, decide_eq_true_eq] at hmore
    have hlen := congrArg List.length hnil
    simp only [List.length_take, List.length_nil] at hlen
    omega

/-! ## Following the tokens -/

/-- What a client collects that follows the tokens, from request `n` on, if it reaches the end
within `fuel` requests. -/
def follow (serve : ℕ → Option τ → Option (List β × Option τ)) :
    ℕ → ℕ → Option τ → Option (List β)
  | 0, _, _ => none
  | fuel + 1, n, token =>
    (serve n token).bind fun page =>
      match page.2 with
      | none => some page.1
      | some next => (follow serve fuel (n + 1) (some next)).map (page.1 ++ ·)

/-- The requests that a client makes that follows the tokens. -/
inductive Requested (serve : ℕ → Option τ → Option (List β × Option τ)) : ℕ → Option τ → Prop
  | first : Requested serve 0 none
  | next {n : ℕ} {token : Option τ} {rows : List β} {t : τ} :
      Requested serve n token → serve n token = some (rows, some t) →
        Requested serve (n + 1) (some t)

/-- Every request is answered with a page, whose token stands for the key of its last row. -/
def Serves (serve : ℕ → Option τ → Option (List β × Option τ)) (key : β → κ) (decode : τ → κ)
    (available : ℕ → β → Prop) : Prop :=
  ∀ n token, Requested serve n token → ∃ rows next, serve n token = some (rows, next) ∧
    IsPage key (available n) (token.map decode) rows next.isSome ∧
    ∀ t ∈ next, ∀ x ∈ rows.getLast?, decode t = key x

/-- What is collected from a request on. -/
structure Collected (key : β → κ) (available : ℕ → β → Prop) (cursor : Option κ)
    (rows : List β) : Prop where
  pairwise : rows.Pairwise fun x y => key y < key x
  mem : ∀ x ∈ rows, (∃ n, available n x) ∧ below cursor (key x) = true
  complete : ∀ x, available 0 x → below cursor (key x) = true → x ∈ rows

lemma below_of_lt {cursor : Option κ} {k l : κ} (h : below cursor l = true) (hlt : k < l) :
    below cursor k = true := by
  cases cursor with
  | none => rfl
  | some c => exact (below_some c k).mpr (hlt.trans ((below_some c l).mp h))

/-- The last row of a page has its least key. -/
lemma key_last_le {key : β → κ} {page : List β} {y : β}
    (hpairwise : page.Pairwise fun x y => key y < key x) (hlast : y ∈ page.getLast?) {x : β}
    (hx : x ∈ page) : key y ≤ key x := by
  obtain ⟨hne, rfl⟩ := List.mem_getLast?_eq_getLast hlast
  rw [← List.dropLast_append_getLast hne] at hpairwise hx
  rcases List.mem_append.mp hx with hx | hx
  · exact ((List.pairwise_append.mp hpairwise).2.2 x hx _ (List.mem_singleton_self _)).le
  · rw [List.mem_singleton.mp hx]

/-- The last page completes what is collected. -/
lemma IsPage.collected {key : β → κ} {available : ℕ → β → Prop} {n : ℕ} {cursor : Option κ}
    {page : List β} (hpage : IsPage key (available n) cursor page false)
    (hkept : ∀ x, available 0 x → available n x) : Collected key available cursor page where
  pairwise := hpage.pairwise
  mem x hx := ⟨⟨n, (hpage.mem x hx).1⟩, (hpage.mem x hx).2⟩
  complete x hx hbelow := by
    by_contra hout
    cases (hpage.left_out x (hkept x hx) hbelow hout).1

/-- A page goes before what is collected from its last row on. -/
lemma Collected.append {key : β → κ} {available : ℕ → β → Prop} {n : ℕ} {cursor : Option κ}
    {page rows : List β} {y : β} (hrows : Collected key available (some (key y)) rows)
    (hpage : IsPage key (available n) cursor page true) (hlast : y ∈ page.getLast?)
    (hkept : ∀ x, available 0 x → available n x) :
    Collected key available cursor (page ++ rows) := by
  have hy : y ∈ page := List.mem_of_mem_getLast? hlast
  have hlt : ∀ z ∈ rows, key z < key y := fun z hz => (below_some _ _).mp (hrows.mem z hz).2
  refine ⟨?_, fun x hx => ?_, fun x hx hbelow => ?_⟩
  · refine List.pairwise_append.mpr ⟨hpage.pairwise, hrows.pairwise, fun x hx z hz => ?_⟩
    exact (hlt z hz).trans_le (key_last_le hpage.pairwise hlast hx)
  · rcases List.mem_append.mp hx with hx | hx
    · exact ⟨⟨n, (hpage.mem x hx).1⟩, (hpage.mem x hx).2⟩
    · exact ⟨(hrows.mem x hx).1, below_of_lt (hpage.mem y hy).2 (hlt x hx)⟩
  · by_cases hin : x ∈ page
    · exact List.mem_append_left _ hin
    · have hafter := (hpage.left_out x (hkept x hx) hbelow hin).2 y hy
      exact List.mem_append_right _ (hrows.complete x hx ((below_some _ _).mpr hafter))

/-- Fewer rows are below a row that is itself below the cursor. -/
lemma length_filter_below_lt {key : β → κ} {cursor : Option κ} {c : κ} {all : List β} {y : β}
    (hy : y ∈ all) (hc : c = key y) (hbelow : below cursor (key y) = true) :
    (all.filter fun x => below (some c) (key x)).length <
      (all.filter fun x => below cursor (key x)).length := by
  subst hc
  have hfilter : (all.filter fun x => below (some (key y)) (key x)) =
      (all.filter fun x => below cursor (key x)).filter fun x => below (some (key y)) (key x) := by
    rw [List.filter_filter]
    refine List.filter_congr fun x _ => ?_
    rw [Bool.eq_iff_iff, Bool.and_eq_true]
    exact ⟨fun h => ⟨h, below_of_lt hbelow ((below_some _ _).mp h)⟩, And.left⟩
  rw [hfilter, List.length_filter_lt_length_iff_exists]
  exact ⟨y, List.mem_filter.mpr ⟨hy, hbelow⟩, by simp⟩

/-- **The client reaches the end, and has every row that was there from the start, once.** The rows
that are available at any time are among finitely many.

**Proof sketch.** By induction on how many rows of `all` are below the cursor. A page with more to
come is not empty, and its last row is no longer below the cursor that it gives. -/
theorem follow_exact {serve : ℕ → Option τ → Option (List β × Option τ)} {key : β → κ}
    {decode : τ → κ} {available : ℕ → β → Prop} {all : List β}
    (hserves : Serves serve key decode available)
    (hkept : ∀ n x, available 0 x → available n x)
    (hall : ∀ n x, available n x → x ∈ all) :
    ∃ fuel rows, follow serve fuel 0 none = some rows ∧ Collected key available none rows := by
  suffices h : ∀ m n token, Requested serve n token →
      (all.filter fun x => below (token.map decode) (key x)).length = m →
        ∃ fuel rows, follow serve fuel n token = some rows ∧
          Collected key available (token.map decode) rows from
    h _ 0 none .first rfl
  intro m
  induction m using Nat.strong_induction_on with
  | _ m ih =>
    intro n token hrequested hlen
    obtain ⟨page, next, hserve, hpage, htoken⟩ := hserves n token hrequested
    cases next with
    | none =>
      exact ⟨1, page, by simp [follow, hserve], hpage.collected (hkept n)⟩
    | some t =>
      obtain ⟨y, hlast⟩ : ∃ y, y ∈ page.getLast? :=
        ⟨_, List.getLast?_eq_getLast_of_ne_nil (hpage.nonempty rfl)⟩
      have hy := hpage.mem y (List.mem_of_mem_getLast? hlast)
      have hcursor : decode t = key y := htoken t rfl y hlast
      obtain ⟨fuel, rows, hfollow, hrows⟩ := ih
        (all.filter fun x => below ((some t).map decode) (key x)).length
        (hlen ▸ length_filter_below_lt (hall n y hy.1) hcursor hy.2) (n + 1) (some t)
        (.next hrequested hserve) rfl
      refine ⟨fuel + 1, page ++ rows, by simp [follow, hserve, hfollow], ?_⟩
      rw [Option.map_some, hcursor] at hrows
      exact hrows.append hpage hlast (hkept n)

end Keyset
