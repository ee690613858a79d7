import ContentNegotiation.Template.Candidates
import Std.Data.HashSet

/-!
# Matching

A match splits the input into pieces, one for each node of the template. The search goes through the
nodes from the left: a literal has to stand in the input, and a variable tries its candidate spans
one after the other until the rest of the template matches too. A blank literal before a facultative
variable may also be left out together with that variable.

A state of the search is a node with a place in the input. Whether the rest of the template matches
from a state does not depend on how the state was reached, so a state that failed once is remembered
and never expanded again.
-/

namespace ContentNegotiation

/-- What a node covers in a split of the input. -/
inductive Piece where
  /-- A literal found in the input. -/
  | literal (text : Text)
  /-- A blank literal that was left out. -/
  | skipped
  /-- A captured span. -/
  | captured (s : Slot) (span : Text)
  deriving DecidableEq, Repr

namespace Piece

/-- The input that the piece covers. -/
def text : Piece → Text
  | literal t => t
  | skipped => []
  | captured _ span => span

end Piece

/-- A node, by its number in the template, with a place in the input, in characters. -/
structure SearchState where
  node : Nat
  cursor : Nat
  deriving DecidableEq, Hashable, Repr

/-- What a search has found out so far. -/
structure Search where
  /-- States from which the rest of the template does not match. -/
  failed : Std.HashSet SearchState
  /-- All states expanded so far, last one first. -/
  expanded : List SearchState

namespace Search

/-- Before the first state. -/
def start : Search := ⟨∅, []⟩

/-- Notes that a state is expanded. -/
def expand (h : Search) (s : SearchState) : Search :=
  { h with expanded := s :: h.expanded }

/-- Notes that a state failed. -/
def fail (h : Search) (s : SearchState) : Search :=
  { h with failed := h.failed.insert s }

/-- What a state has led to: the pieces from there on, if the rest matched, and the search after
it. -/
abbrev Outcome := Option (List Piece) × Search

/-- Changes the pieces that an outcome has found, if it has. -/
@[inline] def Outcome.mapPieces (f : List Piece → List Piece) (o : Outcome) : Outcome :=
  (o.1.map f, o.2)

/-- Goes on with another attempt if the first one found nothing. -/
@[inline] def Outcome.orElse (o : Outcome) (next : Search → Outcome) : Outcome :=
  match o with
  | (some pieces, h) => (some pieces, h)
  | (none, h) => next h

/-- Expands a state unless it has failed before, and notes it if it fails now (`Walker::walk`). -/
@[inline] def visit (s : SearchState) (h : Search) (body : Search → Outcome) : Outcome :=
  if h.failed.contains s then (none, h)
  else (body (h.expand s)).orElse fun h => (none, h.fail s)

/-- Tries candidates until one succeeds. -/
def firstSuccess (attempt : Candidate → Search → Outcome) : List Candidate → Search → Outcome
  | [], h => (none, h)
  | c :: cs, h => (attempt c h).orElse (firstSuccess attempt cs)

/-- Behind the last node the rest of the input has to be empty if the template covers all of it. -/
def finish : Extent → Text → Option (List Piece)
  | .whole, _ :: _ => none
  | _, _ => some []

/-- Searches from one state: the nodes and the input that are left, with the number of the first
node and the place of the first character (`Walker::step`). -/
def walk [RegexEngine] (extent : Extent) : List Node → Text → SearchState → Search → Outcome
  | [], input, s, h => visit s h fun h => (finish extent input, h)
  | .literal text :: after, input, s, h =>
    visit s h fun h =>
      Outcome.orElse
        (match Text.dropPrefix text input with
          | some rest =>
            (walk extent after rest ⟨s.node + 1, s.cursor + text.length⟩ h).mapPieces
              (.literal text :: ·)
          | none => (none, h))
        fun h =>
          match after with
          | .slot v :: beyond =>
            if Text.allBlank text && !v.var.required then
              (walk extent beyond input ⟨s.node + 2, s.cursor⟩ h).mapPieces
                (.skipped :: .captured v [] :: ·)
            else (none, h)
          | _ => (none, h)
  | .slot v :: after, input, s, h =>
    visit s h fun h =>
      firstSuccess
        (fun c h =>
          (walk extent after c.rest ⟨s.node + 1, s.cursor + c.taken⟩ h).mapPieces
            fun pieces => .captured v (input.take c.taken) :: pieces)
        (v.candidates after input) h

end Search

/-- Values by variable name; a name has one value. -/
abbrev Bindings := List (Text × Text)

namespace Bindings

/-- Gives a name a value in place of any earlier one. -/
def set (b : Bindings) (name value : Text) : Bindings :=
  (name, value) :: b.filter (·.1 != name)

/-- The binding that a piece makes: an empty capture has the default value of its variable. -/
def take (b : Bindings) : Piece → Bindings
  | .captured s span => b.set s.name (if span.isEmpty then s.var.emptyValue else span)
  | _ => b

/-- The bindings that pieces make; the last capture of a name counts. -/
def ofPieces (pieces : List Piece) : Bindings :=
  pieces.foldl take []

end Bindings

/-- A successful match. -/
structure TemplateMatch where
  bindings : Bindings
  /-- The input that the pieces cover. -/
  covered : Text
  deriving DecidableEq, Repr

namespace TemplateMatch

/-- The match that a split makes. -/
def ofPieces (pieces : List Piece) : TemplateMatch :=
  ⟨.ofPieces pieces, (pieces.map Piece.text).flatten⟩

/-- How many bytes of the input are covered (`matched_len`). -/
def byteLength (m : TemplateMatch) : Nat := Text.byteSize m.covered

/-- How many characters of the input are covered (`matched_chars`). -/
def charLength (m : TemplateMatch) : Nat := m.covered.length

/-- The value bound to a name (`TemplateMatch::get`). -/
def value (m : TemplateMatch) (name : Text) : Option Text := m.bindings.lookup name

end TemplateMatch

namespace Template

/-- The search for a match, with what it has found out (`evaluate`). -/
def search [RegexEngine] (t : Template) (input : Text) : Search.Outcome :=
  Search.walk t.extent t.nodes input ⟨0, 0⟩ .start

/-- The first match of the template; `none` if the pattern does not describe the input
(`Template::matches`). -/
def firstMatch [RegexEngine] (t : Template) (input : Text) : Option TemplateMatch :=
  (t.search input).1.map .ofPieces

/-- The text of a node under the given values; `none` if a required variable has none. -/
def substitute (values : Bindings) : Node → Option Text
  | .literal text => some text
  | .slot s =>
    match values.lookup s.name with
    | some value => some value
    | none => if s.var.required then none else some s.var.emptyValue

/-- Puts values into the pattern (`Template::format`). Facultative variables without a value take
their default. -/
def format (t : Template) (values : Bindings) : Option Text :=
  (t.nodes.mapM (substitute values)).map List.flatten

end Template

end ContentNegotiation
