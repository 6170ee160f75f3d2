import Mathlib.Data.List.Basic
import Mathlib.Tactic.Lemma

set_option relaxedAutoImplicit false
set_option autoImplicit false

/-!
# Paths as texts

A path is a sequence of segments, and its text is the segments with a separator between them. A
text that is another one with the separator and something more behind it names a path below the
path of the other one.

## Main definitions

* `Segments.split` — the segments of a text.
* `Segments.IsPath` — a non-empty sequence of non-empty segments without the separator.

## Main results

* `Segments.append_sep_prefix_iff` — a text goes on after another one and a separator exactly if
  its segments properly extend those of the other one.
* `Segments.isPath_split` — a text that is not empty, begins and ends without a separator and has
  no two of them in a row is that of a path.
-/

namespace Segments

/-- Joining at a separator. -/
lemma intercalate_append {α : Type} {sep : α} {front back : List (List α)} (hfront : front ≠ [])
    (hback : back ≠ []) :
    [sep].intercalate (front ++ back) =
      [sep].intercalate front ++ sep :: [sep].intercalate back := by
  induction front with
  | nil => exact absurd rfl hfront
  | cons segment front ih =>
    cases front with
    | nil => simp [List.intercalate_cons_of_ne_nil hback]
    | cons next front =>
      rw [List.cons_append, List.cons_append, List.intercalate_cons_cons, ← List.cons_append,
        ih (List.cons_ne_nil _ _), List.intercalate_cons_cons]
      simp only [List.append_assoc]

variable {α : Type} [DecidableEq α] (sep : α)

/-- The segments of a text. -/
def split (text : List α) : List (List α) := text.splitOn sep

/-- A non-empty sequence of non-empty segments without the separator. -/
def IsPath (path : List (List α)) : Prop :=
  path ≠ [] ∧ ∀ segment ∈ path, segment ≠ [] ∧ sep ∉ segment

lemma split_ne_nil (text : List α) : split sep text ≠ [] := List.splitOn_ne_nil sep text

lemma intercalate_split (text : List α) : [sep].intercalate (split sep text) = text :=
  List.intercalate_splitOn sep

variable {sep} {a b text segment : List α}

lemma split_injective : Function.Injective (split sep) := by
  intro a b h
  rw [← intercalate_split sep a, h, intercalate_split]

/-- Splitting at a separator. -/
lemma split_append_sep (front back : List α) :
    split sep (front ++ sep :: back) = split sep front ++ split sep back :=
  List.splitOn_append_cons_self ..

/-- A segment holds no separator. -/
lemma sep_not_mem_of_mem_split (h : segment ∈ split sep text) : sep ∉ segment := by
  induction text generalizing segment with
  | nil =>
    obtain rfl : segment = [] := by simpa [split] using h
    exact List.not_mem_nil
  | cons c text ih =>
    obtain ⟨first, rest, hsplit⟩ := List.exists_cons_of_ne_nil (split_ne_nil sep text)
    rw [split, List.splitOn_cons_eq_if_modifyHead, ← split] at h
    rw [hsplit] at h ih
    split_ifs at h with hc
    · rcases List.mem_cons.mp h with rfl | h
      · exact List.not_mem_nil
      · exact ih h
    · rcases List.mem_cons.mp h with rfl | h
      · simp only [List.mem_cons, not_or]
        exact ⟨fun heq => hc (by simp [heq]), ih List.mem_cons_self⟩
      · exact ih (List.mem_cons_of_mem _ h)

/-- **A text goes on after another one and a separator** exactly if its segments properly extend
those of the other one. -/
lemma append_sep_prefix_iff :
    b ++ [sep] <+: a ↔ split sep b <+: split sep a ∧ split sep b ≠ split sep a := by
  constructor
  · rintro ⟨rest, rfl⟩
    rw [List.append_assoc, List.singleton_append, split_append_sep]
    exact ⟨List.prefix_append _ _,
      fun heq => split_ne_nil sep rest (List.self_eq_append_right.mp heq)⟩
  · rintro ⟨⟨rest, hrest⟩, hne⟩
    have hrest' : rest ≠ [] := fun hnil => hne (by rw [← hrest, hnil, List.append_nil])
    have ha : a = b ++ sep :: [sep].intercalate rest := by
      rw [← intercalate_split sep a, ← hrest,
        intercalate_append (split_ne_nil sep b) hrest', intercalate_split]
    exact ⟨[sep].intercalate rest, by rw [ha, List.append_assoc, List.singleton_append]⟩

/-- **A text without an empty segment is that of a path.**

**Proof sketch.** An empty segment is the only one, the first one, the last one, or one in the
middle. -/
lemma isPath_split (hnil : text ≠ []) (hfirst : ¬[sep] <+: text) (hlast : ¬[sep] <:+ text)
    (htwice : ¬[sep, sep] <:+: text) : IsPath sep (split sep text) := by
  refine ⟨split_ne_nil sep text, fun segment hmem => ⟨?_, sep_not_mem_of_mem_split hmem⟩⟩
  rintro rfl
  obtain ⟨front, back, hsplit⟩ := List.append_of_mem hmem
  have htext := intercalate_split sep text
  rw [hsplit] at htext
  by_cases hfront : front = [] <;> by_cases hback : back = []
  · subst hfront hback
    exact hnil (by simpa using htext.symm)
  · subst hfront
    rw [List.nil_append, List.intercalate_cons_of_ne_nil hback, List.nil_append] at htext
    exact hfirst ⟨_, htext⟩
  · subst hback
    rw [intercalate_append hfront (List.cons_ne_nil _ _), List.intercalate_singleton] at htext
    exact hlast ⟨_, htext⟩
  · rw [intercalate_append hfront (List.cons_ne_nil _ _),
      List.intercalate_cons_of_ne_nil hback, List.nil_append] at htext
    exact htwice ⟨[sep].intercalate front, [sep].intercalate back, by simpa using htext⟩

end Segments
