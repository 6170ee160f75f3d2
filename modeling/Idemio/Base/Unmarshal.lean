import Idemio.Base.Json

set_option relaxedAutoImplicit false
set_option autoImplicit false

/-!
# Decoding JSON into records

How a lenient decoder fills a record from a JSON value, as Go's `encoding/json` does. A member is
matched with a field by its name, in any letter case. A member that matches no field is skipped,
a field that no member matches keeps what it had, and so does one whose member is `null`. A
member that matches a field again is decoded into what the first one left there. A value of the
wrong type is an error.

## Main definitions

* `Unmarshal.namesField` — a member's name matches a field's.
* `Unmarshal.Decoder` — decoding a value into what is there already.
* `Unmarshal.string`, `Unmarshal.int`, `Unmarshal.bool`, `Unmarshal.slice`, `Unmarshal.record` —
  the decoders of the kinds of fields.
* `Unmarshal.document`, `Unmarshal.stream` — the value of a text, and the first one of a stream.
-/

namespace Unmarshal

open JsonDoc (Value)

/-- How deep values may be nested. -/
def maxNestingDepth : ℕ := 10000

/-- The value that is all of a text but for space. -/
def document (text : List UInt8) : Option Value :=
  (JsonDoc.parse maxNestingDepth text).bind fun r =>
    if JsonDoc.skipSpace r.2 = [] then some r.1 else none

/-- The value ends with a bracket, so that nothing after it has to be read to see its end. -/
def closesItself : Value → Bool
  | .array _ | .object _ => true
  | _ => false

/-- The first value of a stream that ends after `text`, with an error if there is one. Whatever
follows the value is not looked at. -/
def stream (text : List UInt8) (err : Option String) : Option Value :=
  (JsonDoc.parse maxNestingDepth text).bind fun r =>
    if closesItself r.1 || r.2 ≠ [] || err.isNone then some r.1 else none

/-- A rune as names are compared. Among the runes that are not ASCII, only these two fold to
ASCII. -/
def foldRune (r : ℕ) : ℕ :=
  if 0x61 ≤ r ∧ r ≤ 0x7A then r - 0x20
  else if r = 0x17F then 0x53
  else if r = 0x212A then 0x4B
  else r

/-- A member of this name is decoded into this field. -/
def namesField (field : String) (name : List ℕ) : Bool :=
  name.map foldRune = field.toList.map fun c => foldRune c.toNat

/-- Decoding a value, given with its text, into what is there already. -/
abbrev Decoder (α : Type) := α → List UInt8 × Value → Option α

/-- A string. -/
def string : Decoder String
  | s, (_, .null) => some s
  | _, (_, .string content) => some (String.ofList (content.map Char.ofNat))
  | _, _ => none

/-- A 64-bit integer. -/
def int : Decoder ℤ
  | n, (_, .null) => some n
  | _, (_, .number literal) => JsonDoc.intOf literal
  | _, _ => none

/-- A boolean. -/
def bool : Decoder Bool
  | b, (_, .null) => some b
  | _, (_, .bool b) => some b
  | _, _ => none

/-- The text of any value. -/
def raw : Decoder (List UInt8) := fun _ v => some v.1

/-- A slice: the elements of its array, and how many of them are in it. -/
structure Slice (α : Type) where
  backing : List α
  length : ℕ
  deriving DecidableEq, Repr

/-- The slice that has no array. -/
def Slice.nil {α : Type} : Slice α := ⟨[], 0⟩

/-- The elements of a slice. -/
def Slice.elements {α : Type} (s : Slice α) : List α := s.backing.take s.length

/-- A slice. An element is decoded into the one that the array has in that place, be it in the
slice or behind its end. -/
def slice {α : Type} (zero : α) (element : Decoder α) : Decoder (Slice α)
  | _, (_, .null) => some .nil
  | s, (_, .array elements) =>
    if elements.isEmpty then some .nil
    else (elements.zipIdx.mapM fun e => element (s.backing.getD e.2 zero) e.1).map fun out =>
      ⟨out ++ s.backing.drop out.length, out.length⟩
  | _, _ => none

/-- A member of a record with these fields. -/
def member {α : Type} (fields : List (String × Decoder α)) (x : α)
    (m : List ℕ × List UInt8 × Value) : Option α :=
  match fields.find? fun f => namesField f.1 m.1 with
  | none => some x
  | some f => f.2 x m.2

/-- A record with these fields. -/
def record {α : Type} (fields : List (String × Decoder α)) : Decoder α
  | x, (_, .null) => some x
  | x, (_, .object members) => members.foldlM (member fields) x
  | _, _ => none

/-- A field of a record, given how it is read and replaced. -/
def field {α β : Type} (get : α → β) (set : α → β → α) (decoder : Decoder β) : Decoder α :=
  fun x v => (decoder (get x) v).map (set x)

/-- An entry of a map from strings. Its value is decoded into a new one, and takes the place of
the one that the map has for its name. -/
def entry {β : Type} (zero : β) (value : Decoder β) (entries : List (String × β))
    (m : List ℕ × List UInt8 × Value) : Option (List (String × β)) :=
  (value zero m.2).map fun b =>
    let name := String.ofList (m.1.map Char.ofNat)
    entries.filter (·.1 ≠ name) ++ [(name, b)]

/-- A map from strings, as the list of its entries. -/
def map {β : Type} (zero : β) (value : Decoder β) : Decoder (List (String × β))
  | _, (_, .null) => some []
  | entries, (_, .object members) => members.foldlM (entry zero value) entries
  | _, _ => none

/-- Decoding a slice of texts gives the texts of the elements. -/
lemma slice_raw (s : Slice (List UInt8)) (text : List UInt8)
    (elements : List (List UInt8 × Value)) :
    (slice [] raw s (text, .array elements)).map Slice.elements =
      some (elements.map Prod.fst) := by
  have hout : (elements.zipIdx.mapM fun e => raw (s.backing.getD e.2 []) e.1) =
      some (elements.map Prod.fst) := by
    have hpure : (fun e : (List UInt8 × Value) × ℕ => raw (s.backing.getD e.2 []) e.1) =
        fun e => pure e.1.1 := rfl
    have hfst : elements.zipIdx.map (fun e => e.1.1) = elements.map Prod.fst := by
      conv_rhs => rw [← List.zipIdx_map_fst 0 elements, List.map_map]
      rfl
    rw [hpure, List.mapM_pure, hfst]
    rfl
  cases elements with
  | nil => rfl
  | cons e es =>
    rw [slice, if_neg (by simp), hout]
    simp [Slice.elements]

end Unmarshal
