import Mathlib.Tactic.Lemma

set_option relaxedAutoImplicit false
set_option autoImplicit false

/-!
# Which operations conflict

`internal/conflict` and the operations of `internal/manifest`: every pair of operations on one
resource conflicts except two appends, an append beside a mutate, and two mutates whose scope
selectors are disjoint.

## Main definitions

* `Idemio.Operation` — a declared operation, a class and its scope selectors.
* `Idemio.compatible` — the compatibility matrix.
* `Idemio.reason` — the text recorded with a conflict.

## Main results

* `Idemio.compatible_comm` — compatibility is symmetric.
-/

namespace Idemio

/-- `manifest.Class*`, the Postgres enum `operation_class`. -/
inductive Class
  | create
  | replace
  | mutate
  | append
  | delete
  deriving DecidableEq, Repr

/-- The text of a class. -/
def Class.text : Class → String
  | .create => "create"
  | .replace => "replace"
  | .mutate => "mutate"
  | .append => "append"
  | .delete => "delete"

/-- `manifest.Operation`: a class and the field paths it writes; no path means the whole
resource. -/
structure Operation where
  cls : Class
  scope : List String
  deriving DecidableEq, Repr

/-- `strings.HasPrefix`. -/
def hasPrefix (s p : String) : Bool := p.toList.isPrefixOf s.toList

/-- Prefix containment of field paths, not string equality: writing `billing_address` writes
`billing_address.city`. -/
def overlaps (a b : String) : Bool := a == b || hasPrefix a (b ++ ".") || hasPrefix b (a ++ ".")

/-- No selector of `a` overlaps one of `b`. An operation without a selector writes the whole
resource and is disjoint from nothing. -/
def scopesDisjoint (a b : List String) : Bool :=
  if a.isEmpty || b.isEmpty then false
  else a.all fun left => b.all fun right => !overlaps left right

/-- The compatibility matrix. -/
def compatible (a b : Operation) : Bool :=
  match a.cls, b.cls with
  | .append, .append => true
  | .append, .mutate => true
  | .mutate, .append => true
  | .mutate, .mutate => scopesDisjoint a.scope b.scope
  | _, _ => false

lemma overlaps_comm (a b : String) : overlaps a b = overlaps b a := by
  simp only [overlaps, Bool.or_assoc, Bool.beq_comm (a := a), Bool.or_comm (hasPrefix a (b ++ "."))]

lemma scopesDisjoint_comm (a b : List String) : scopesDisjoint a b = scopesDisjoint b a := by
  rw [Bool.eq_iff_iff]
  simp only [scopesDisjoint, Bool.or_comm a.isEmpty]
  split
  · rfl
  · simp only [List.all_eq_true]
    exact ⟨fun h x hx y hy => overlaps_comm x y ▸ h y hy x hx,
      fun h x hx y hy => overlaps_comm x y ▸ h y hy x hx⟩

/-- Compatibility does not depend on which operation came first. -/
lemma compatible_comm (a b : Operation) : compatible a b = compatible b a := by
  unfold compatible
  cases a.cls <;> cases b.cls <;> first | rfl | exact scopesDisjoint_comm _ _

/-- A scope as it stands in a conflict's reason. -/
def scopeText (scope : List String) : String :=
  if scope.isEmpty then "(whole resource)" else "[" ++ " ".intercalate scope ++ "]"

/-- Why two operations conflict. -/
def reason (incoming existing : Operation) : String :=
  if incoming.cls = .mutate ∧ existing.cls = .mutate then
    "mutate/mutate with overlapping scope " ++ scopeText incoming.scope ++ " and " ++
      scopeText existing.scope
  else incoming.cls.text ++ "/" ++ existing.cls.text

end Idemio
