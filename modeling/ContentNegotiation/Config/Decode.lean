import ContentNegotiation.Axis.LanguageTag
import ContentNegotiation.Toml.Document

/-!
# From documents to settings

A record of settings is read from a table: the keys are visited in sorted order, known keys change
the record and unknown ones are ignored. An array in place of a table gives the fields by position,
as far as it goes. A date in place of a table names no key. Numbers are checked even where they are
ignored: one that no machine number can hold, or that writes no number at all, is an error wherever
it stands.
-/

namespace ContentNegotiation

/-- Why a document cannot be used. -/
inductive DocumentError where
  /-- It breaks the grammar. -/
  | malformed
  /-- A value has the wrong form for its place. -/
  | mismatch
  /-- A text in the place of a language is no language tag. -/
  | language (text : Text)
  deriving DecidableEq, Repr

/-- The wording, which only a bad language has. -/
def DocumentError.message : DocumentError → Option Text
  | malformed => none
  | mismatch => none
  | language text => some ("Invalid language: '".toList ++ text ++ "'".toList)

namespace Decode

open Toml

/-- A decoder that changes a record. -/
abbrev Field (σ : Type) := Value → σ → Except DocumentError σ

/-- The 64-bit number that a float denotes; a literal beyond all of them is an error. -/
def double (n : Numeral) : Except DocumentError Double :=
  match n, n.toBinary .double with
  | .finite _, x => if x.isFinite then .ok x else .error .mismatch
  | _, x => .ok x

/-- The smallest and the largest integer that any machine integer can hold. -/
def holdsInteger (n : Int) : Bool :=
  -Int.pow 2 127 ≤ n && n < Int.pow 2 128

mutual

/-- Checks a value that is not used. -/
def ignored : Value → Except DocumentError Unit
  | .float n => (double n).map fun _ => ()
  | .integer n => if n.any holdsInteger then .ok () else .error .mismatch
  | .array _ items => ignoredItems items
  | .table _ entries => ignoredEntries entries
  | _ => .ok ()

/-- Checks the items of an array that is not used. -/
def ignoredItems : List Value → Except DocumentError Unit
  | [] => .ok ()
  | v :: vs => do
    ignored v
    ignoredItems vs

/-- Checks the entries of a table that is not used. -/
def ignoredEntries : List (Text × Value) → Except DocumentError Unit
  | [] => .ok ()
  | (_, v) :: es => do
    ignored v
    ignoredEntries es

end

/-- A 32-bit number: an integer is rounded directly, a float through its 64-bit value. -/
def single : Value → Except DocumentError Single
  | .integer (some n) =>
    if -Int.pow 2 63 ≤ n ∧ n < Int.pow 2 64 then .ok (Binary.ofInt .single n) else .error .mismatch
  | .float n => (double n).map (Binary.convert .single)
  | _ => .error .mismatch

/-- A text. -/
def text : Value → Except DocumentError Text
  | .string t => .ok t
  | _ => .error .mismatch

/-- A language tag. -/
def language (v : Value) : Except DocumentError LanguageTag := do
  let t ← text v
  match LanguageTag.read t with
  | some l => .ok l
  | none => .error (.language t)

/-- The name of a choice: a text, or the only key of a table whose value is empty. -/
def choice : Value → Except DocumentError Text
  | .string t => .ok t
  | .table _ [(name, .table _ [])] => .ok name
  | .table _ [(name, .array _ [])] => .ok name
  | _ => .error .mismatch

/-- The order of keys: by code point. -/
def keyAtMost (k l : Text) : Bool :=
  match k, l with
  | [], _ => true
  | _ :: _, [] => false
  | c :: k, d :: l => if c = d then keyAtMost k l else c < d

/-- Changes a record entry by entry. -/
def entries {σ : Type} (fields : List (Text × Field σ)) :
    List (Text × Value) → σ → Except DocumentError σ
  | [], s => .ok s
  | (key, v) :: es, s =>
    match fields.lookup key with
    | some field => do entries fields es (← field v s)
    | none => do
      ignored v
      entries fields es s

/-- Changes a record item by item. -/
def items {σ : Type} : List (Text × Field σ) → List Value → σ → Except DocumentError σ
  | (_, field) :: fields, v :: vs, s => do items fields vs (← field v s)
  | _, _, s => .ok s

/-- Changes a record with named fields. -/
def record {σ : Type} (fields : List (Text × Field σ)) (v : Value) (s : σ) :
    Except DocumentError σ :=
  match v with
  | .table _ es => entries fields (es.mergeSort fun a b => keyAtMost a.1 b.1) s
  | .array _ vs => items fields vs s
  | .dateTime => .ok s
  | _ => .error .mismatch

/-- A field with a decoder of its own and a way to put the result into the record. -/
def field {σ τ : Type} (decode : Value → Except DocumentError τ) (put : τ → σ → σ) : Field σ :=
  fun v s => (decode v).map (put · s)

end Decode

end ContentNegotiation
