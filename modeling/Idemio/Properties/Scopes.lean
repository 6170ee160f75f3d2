import Idemio.Base.Segments
import Idemio.Manifest

set_option relaxedAutoImplicit false
set_option autoImplicit false

/-!
# The conflict test is exact on field paths

`ScopesDisjoint` compares the scope selectors of two mutates as texts. What it is for is a
statement about fields: two operations are compatible if there is no field that both write, where
a selector stands for the field that it names and everything below it. For the selectors that
`validate` accepts the two agree.

## Main definitions

* `Idemio.Operation.Accepted` — an operation that manifest validation accepts.
* `Idemio.Operation.Writes` — the field paths that an operation writes.
* `Idemio.Operation.Widened` — an operation with one more selector, or with a shorter one.

## Main results

* `Idemio.overlaps_iff` — two selectors overlap exactly if one is above the other.
* `Idemio.compatible_exact` — two mutates are compatible exactly if they write no common path.
-/

namespace Idemio

/-- The segments of a field path. -/
abbrev fieldPath (text : String) : List (List Char) := Segments.split '.' text.toList

/-- Validation accepts the operation, under some name. -/
def Operation.Accepted (o : Operation) : Prop :=
  ∃ name declared, DocumentOperation.validate name declared = [] ∧ declared.cls = o.cls.text ∧
    declared.scope.elements = o.scope

/-- The operation writes a field: a selector names it or a field above it, or there is none. -/
def Operation.Writes (o : Operation) (path : List (List Char)) : Prop :=
  o.scope = [] ∨ ∃ selector ∈ o.scope, fieldPath selector <+: path

/-- The scope of `o` is not empty, and `o'` has one more selector, or one that is cut short after
a segment. -/
inductive Operation.Widened (o o' : Operation) : Prop
  | add {front back : List String} {selector : String} (hcls : o'.cls = o.cls)
      (hne : o.scope ≠ []) (hold : o.scope = front ++ back)
      (hnew : o'.scope = front ++ selector :: back)
  | shorten {front back : List String} {selector shorter : String} (hcls : o'.cls = o.cls)
      (hold : o.scope = front ++ selector :: back) (hnew : o'.scope = front ++ shorter :: back)
      (hbelow : fieldPath shorter <+: fieldPath selector)

variable {a b o o' : Operation} {path : List (List Char)}

/-! ## Selectors -/

/-- A selector that validation accepts is the text of a field path. -/
lemma isPath_of_emptySegment {text : String} (h : emptySegment text = false) :
    Segments.IsPath '.' (fieldPath text) := by
  rw [← Bool.not_eq_true] at h
  simp only [emptySegment, hasPrefix, Bool.or_eq_true, decide_eq_true_eq, not_or,
    List.isPrefixOf_iff_prefix, List.isSuffixOf_iff_suffix] at h
  obtain ⟨⟨⟨hnil, hfirst⟩, hlast⟩, htwice⟩ := h
  exact Segments.isPath_split (fun heq => hnil (String.toList_eq_nil_iff.mp heq)) hfirst hlast
    htwice

/-- **Two selectors overlap** exactly if one names a field at or above the other. -/
lemma overlaps_iff (a b : String) :
    overlaps a b = true ↔ fieldPath a <+: fieldPath b ∨ fieldPath b <+: fieldPath a := by
  have hdot : ∀ s : String, (s ++ ".").toList = s.toList ++ ['.'] := fun s => String.toList_append
  simp only [overlaps, hasPrefix, Bool.or_eq_true, beq_iff_eq, List.isPrefixOf_iff_prefix, hdot,
    Segments.append_sep_prefix_iff]
  constructor
  · rintro ((rfl | h) | h)
    · exact .inl (List.prefix_refl _)
    · exact .inr h.1
    · exact .inl h.1
  · rintro (h | h)
    · by_cases heq : fieldPath a = fieldPath b
      · exact .inl (.inl (String.toList_inj.mp (Segments.split_injective heq)))
      · exact .inr ⟨h, heq⟩
    · by_cases heq : fieldPath b = fieldPath a
      · exact .inl (.inl (String.toList_inj.mp (Segments.split_injective heq.symm)))
      · exact .inl (.inr ⟨h, heq⟩)

/-! ## Operations -/

/-- The selectors of an accepted operation are field paths. -/
lemma Operation.Accepted.isPath (h : o.Accepted) {selector : String} (hs : selector ∈ o.scope) :
    Segments.IsPath '.' (fieldPath selector) := by
  obtain ⟨name, declared, hvalid, -, hscope⟩ := h
  rw [DocumentOperation.validate, List.append_eq_nil_iff, List.flatMap_eq_nil_iff] at hvalid
  have hpath := hvalid.2 selector (hscope ▸ hs)
  apply isPath_of_emptySegment
  simpa using hpath

/-- Every accepted operation writes something. -/
lemma Operation.Accepted.exists_writes (h : o.Accepted) :
    ∃ path, Segments.IsPath '.' path ∧ o.Writes path := by
  cases hscope : o.scope with
  | nil => exact ⟨[['a']], by simp [Segments.IsPath], .inl hscope⟩
  | cons selector rest =>
    have hmem : selector ∈ o.scope := hscope ▸ List.mem_cons_self
    exact ⟨fieldPath selector, h.isPath hmem, .inr ⟨selector, hmem, List.prefix_refl _⟩⟩

/-- **The scopes of two accepted operations are disjoint** exactly if they write no common path.

**Proof sketch.** Two selectors that overlap both write the longer one of the two. If a path has
two selectors above it, one of them is above the other. -/
lemma scopesDisjoint_iff (ha : a.Accepted) (hb : b.Accepted) :
    scopesDisjoint a.scope b.scope = true ↔
      ¬∃ path, Segments.IsPath '.' path ∧ a.Writes path ∧ b.Writes path := by
  by_cases hempty : a.scope = [] ∨ b.scope = []
  · have hcommon : ∃ path, Segments.IsPath '.' path ∧ a.Writes path ∧ b.Writes path := by
      rcases hempty with hnil | hnil
      · obtain ⟨path, hpath, hwrites⟩ := hb.exists_writes
        exact ⟨path, hpath, .inl hnil, hwrites⟩
      · obtain ⟨path, hpath, hwrites⟩ := ha.exists_writes
        exact ⟨path, hpath, hwrites, .inl hnil⟩
    have hfalse : scopesDisjoint a.scope b.scope = false := by
      rcases hempty with hnil | hnil <;> simp [scopesDisjoint, hnil]
    simp [hfalse, hcommon]
  obtain ⟨hane, hbne⟩ := not_or.mp hempty
  rw [scopesDisjoint, if_neg (by simp [hane, hbne])]
  simp only [List.all_eq_true, Bool.not_eq_true', ← Bool.not_eq_true, overlaps_iff]
  constructor
  · rintro hdisjoint ⟨path, -, hwa, hwb⟩
    obtain ⟨left, hleft, hla⟩ := hwa.resolve_left hane
    obtain ⟨right, hright, hlb⟩ := hwb.resolve_left hbne
    exact hdisjoint left hleft right hright (List.prefix_or_prefix_of_prefix hla hlb)
  · rintro hnone left hleft right hright (hbelow | hbelow)
    · exact hnone ⟨fieldPath right, hb.isPath hright, .inr ⟨left, hleft, hbelow⟩,
        .inr ⟨right, hright, List.prefix_refl _⟩⟩
    · exact hnone ⟨fieldPath left, ha.isPath hleft, .inr ⟨left, hleft, List.prefix_refl _⟩,
        .inr ⟨right, hright, hbelow⟩⟩

/-- A widened operation has the same class and writes no less. -/
lemma Operation.Widened.writes (h : o.Widened o') (hwrites : o.Writes path) : o'.Writes path := by
  cases h with
  | add _ hne hold hnew =>
    obtain ⟨selector, hmem, hbelow⟩ := hwrites.resolve_left hne
    refine .inr ⟨selector, ?_, hbelow⟩
    rw [hold] at hmem
    rw [hnew]
    simp only [List.mem_append, List.mem_cons] at hmem ⊢
    tauto
  | @shorten front back long shorter _ hold hnew hshorter =>
    obtain ⟨selector, hmem, hbelow⟩ := hwrites.resolve_left (by simp [hold])
    rw [hold, List.mem_append, List.mem_cons] at hmem
    rw [Operation.Writes, hnew]
    rcases hmem with hmem | rfl | hmem
    · exact .inr ⟨selector, by simp [hmem], hbelow⟩
    · exact .inr ⟨shorter, by simp, hshorter.trans hbelow⟩
    · exact .inr ⟨selector, by simp [hmem], hbelow⟩

lemma Operation.Widened.cls (h : o.Widened o') : o'.cls = o.cls := by
  cases h with
  | add hcls | shorten hcls => exact hcls

/-- Widening an accepted operation makes no conflict compatible. -/
lemma compatible_of_widened (ha : o.Accepted) (ha' : o'.Accepted) (hb : b.Accepted)
    (hwidened : o.Widened o') (h : compatible o' b = true) : compatible o b = true := by
  unfold compatible at h ⊢
  rw [hwidened.cls] at h
  split at h
  · rfl
  · rfl
  · rfl
  · rw [scopesDisjoint_iff ha' hb] at h
    rw [scopesDisjoint_iff ha hb]
    rintro ⟨path, hpath, hwa, hwb⟩
    exact h ⟨path, hpath, hwidened.writes hwa, hwb⟩
  · cases h

/-- **The conflict test is exact on field paths.** For operations that validation accepts the
order does not matter, two mutates are compatible exactly if there is no field path that both
write, and an operation with one more selector, or a shorter one, is in conflict with everything
that the operation itself is in conflict with. -/
theorem compatible_exact {a b : Operation} (ha : a.Accepted) (hb : b.Accepted) :
    compatible a b = compatible b a ∧
    (a.cls = .mutate → b.cls = .mutate → (compatible a b = true ↔
      ¬∃ path, Segments.IsPath '.' path ∧ a.Writes path ∧ b.Writes path)) ∧
    ∀ a' : Operation, a'.Accepted → a.Widened a' →
      (compatible a b = false → compatible a' b = false) ∧
      (compatible b a = false → compatible b a' = false) := by
  refine ⟨compatible_comm a b, fun hca hcb => ?_, fun a' ha' hwidened => ?_⟩
  · rw [compatible, hca, hcb]
    exact scopesDisjoint_iff ha hb
  · have hkeeps : compatible a b = false → compatible a' b = false := by
      intro hconflict
      rw [← Bool.not_eq_true] at hconflict ⊢
      exact fun h => hconflict (compatible_of_widened ha ha' hb hwidened h)
    exact ⟨hkeeps, by rwa [compatible_comm b a, compatible_comm b a']⟩

/-- Two mutates of `billing_address` and of `billing_address.city` are in conflict. -/
theorem compatible_exact_below :
    let a : Operation := ⟨.mutate, ["billing_address"]⟩
    let b : Operation := ⟨.mutate, ["billing_address.city", "name"]⟩
    a.Accepted ∧ b.Accepted ∧
      ∃ path, Segments.IsPath '.' path ∧ a.Writes path ∧ b.Writes path := by
  intro a b
  have ha : a.Accepted := ⟨"", ⟨"mutate", ⟨["billing_address"], 1⟩⟩, by decide +kernel, rfl, rfl⟩
  have hb : b.Accepted :=
    ⟨"", ⟨"mutate", ⟨["billing_address.city", "name"], 2⟩⟩, by decide +kernel, rfl, rfl⟩
  refine ⟨ha, hb, ?_⟩
  have hexact := (compatible_exact ha hb).2.1 rfl rfl
  have hconflict : compatible a b = false := by decide +kernel
  rw [hconflict] at hexact
  simpa using hexact

end Idemio
