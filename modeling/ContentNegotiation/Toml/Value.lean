import ContentNegotiation.Number.Decimal

/-!
# Values of a TOML document

A table remembers how it came to be, since that decides what a later line may add to it: tables with
a header of their own, tables implied by the header of another, tables made by dotted keys, and
inline tables, which are closed. Arrays of tables stay open for further elements, other arrays do
not.
-/

namespace ContentNegotiation.Toml

/-- How a table came to be. -/
inductive Origin where
  /-- By a header of its own; the root counts as one. -/
  | header
  /-- By the header of a table below it. -/
  | implied
  /-- By a dotted key. -/
  | dotted
  /-- Between braces. -/
  | inline
  deriving DecidableEq, Repr

/-- A value of a document. -/
inductive Value where
  | string (t : Text)
  /-- An integer; `none` if no number is written, as in `0x` and in `1_f`. -/
  | integer (n : Option Int)
  | float (n : Numeral)
  | boolean (b : Bool)
  | dateTime
  | array (ofTables : Bool) (items : List Value)
  | table (origin : Origin) (entries : List (Text × Value))
  deriving Repr

/-- The keys and values of a table in written order. -/
abbrev Entries := List (Text × Value)

/-- A table under construction. -/
structure Table where
  origin : Origin
  entries : Entries

namespace Table

/-- A table without entries. -/
def empty (origin : Origin) : Table := ⟨origin, []⟩

/-- The table as a value. -/
def toValue (t : Table) : Value := .table t.origin t.entries

/-- Puts a value at a key, in place of any other. -/
def set (t : Table) (key : Text) (v : Value) : Table :=
  if (t.entries.lookup key).isSome then
    { t with entries := t.entries.map fun e => if e.1 = key then (key, v) else e }
  else { t with entries := t.entries ++ [(key, v)] }

/-- Changes the table that a path of keys leads to. Missing tables on the way are made, dotted or
implied. The path goes through the last element of an array of tables. It may not enter an inline
table or a value that is no table, and a dotted key may not enter a table with a header. -/
def update (dotted : Bool) (change : Table → Option Table) : List Text → Table → Option Table
  | [], t => change t
  | key :: path, t =>
    match t.entries.lookup key with
    | none => do
      let inner ← update dotted change path (empty (if dotted then .dotted else .implied))
      some (t.set key inner.toValue)
    | some (.table origin entries) =>
      if origin = .inline || (dotted && origin = .header) then none
      else do
        let inner ← update dotted change path ⟨origin, entries⟩
        some (t.set key inner.toValue)
    | some (.array true items) =>
      match items.reverse with
      | .table origin entries :: before => do
        let inner ← update dotted change path ⟨origin, entries⟩
        some (t.set key (.array true (before.reverse ++ [inner.toValue])))
      | _ => none
    | some _ => none

/-- Adds a value under a dotted key. All keys are new, and a table made by dotted keys is added to
by dotted keys only. -/
def insert (path : List Text) (key : Text) (v : Value) : Table → Option Table :=
  update true
    (fun t =>
      if decide (t.origin = .dotted) == path.isEmpty then none
      else if (t.entries.lookup key).isSome then none
      else some (t.set key v))
    path

/-- Opens a table by its header. A table that was only implied so far may still have a header. -/
def openTable (path : List Text) (key : Text) : Table → Option Table :=
  update false
    (fun t =>
      match t.entries.lookup key with
      | none => some (t.set key (.table .header []))
      | some (.table .implied entries) => some (t.set key (.table .header entries))
      | some _ => none)
    path

/-- Opens the next element of an array of tables. -/
def openElement (path : List Text) (key : Text) : Table → Option Table :=
  update false
    (fun t =>
      match t.entries.lookup key with
      | none => some (t.set key (.array true [.table .header []]))
      | some (.array true items) =>
        some (t.set key (.array true (items ++ [.table .header []])))
      | some _ => none)
    path

end Table

end ContentNegotiation.Toml
