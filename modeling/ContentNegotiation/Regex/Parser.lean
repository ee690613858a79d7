import ContentNegotiation.Regex.Engine
import ContentNegotiation.Regex.Search
import ContentNegotiation.Regex.Token

/-!
# Assembling expressions

Tokens are assembled into an expression with a stack of open groups. Flags hold up to the end of the
group in which they stand, across its alternatives. An expression is refused if its parts are nested
too deeply: groups, repetitions, choices and rows of parts count along one path.

With the search, the reader makes an engine for a part of the usual syntax. It refuses properties of
characters (`\p`, `\P`) and the flags `u` and `R`, and does not limit the size of an expression.
-/

namespace ContentNegotiation

namespace Regex

/-- The modes that decide what a token means. -/
structure Modes where
  ignoreCase : Bool
  multiLine : Bool
  dotMatchesNewline : Bool
  deriving DecidableEq, Repr

namespace Modes

/-- No mode is on. -/
def plain : Modes := ⟨false, false, false⟩

/-- The modes after a change. -/
def apply (m : Modes) (s : FlagSettings) : Modes :=
  ⟨s.apply .ignoreCase m.ignoreCase, s.apply .multiLine m.multiLine,
    s.apply .dotMatchesNewline m.dotMatchesNewline⟩

end Modes

/-- An expression, and how deep its parts are nested. -/
structure Item where
  meaning : Regex
  height : Nat
  deriving Repr

/-- How deep the parts of an expression may be nested (`nest_limit`). -/
def heightLimit : Nat := 250

/-- A group that is still open. -/
structure Group where
  modes : Modes
  /-- The finished alternatives, last one first. -/
  alternatives : List Item
  /-- The items of the current alternative, last one first; `none` stands for flags, which cannot be
  repeated. -/
  items : List (Option Item)

namespace Group

/-- A group without content. -/
def start (modes : Modes) : Group := ⟨modes, [], []⟩

/-- Adds an item to the current alternative. -/
def add (g : Group) (i : Item) : Group :=
  { g with items := some i :: g.items }

/-- The current alternative. -/
def alternative (g : Group) : Item where
  meaning := (g.items.filterMap id).foldl
    (fun rest i => if rest = .empty then i.meaning else .sequence i.meaning rest) .empty
  height := rowHeight (g.items.map fun i => (i.map Item.height).getD 0)

/-- Ends the current alternative. -/
def bar (g : Group) : Group :=
  { g with alternatives := g.alternative :: g.alternatives, items := [] }

/-- What stands in the group. -/
def content (g : Group) : Item where
  meaning := g.alternatives.foldl (fun rest i => .choice i.meaning rest) g.alternative.meaning
  height := rowHeight (g.alternative.height :: g.alternatives.map Item.height)

/-- The expression of the closed group. -/
def close (g : Group) : Item :=
  ⟨g.content.meaning, g.content.height + 1⟩

/-- What a token that stands for a character or a position means. -/
def atom (m : Modes) : Token → Option Item
  | .characters k height => some ⟨.chars m.ignoreCase k, height⟩
  | .dot =>
    some ⟨.chars false (if m.dotMatchesNewline then .any else .complement (.single '\n')), 0⟩
  | .caret => some ⟨.assertion (if m.multiLine then .lineStart else .textStart), 0⟩
  | .dollar => some ⟨.assertion (if m.multiLine then .lineEnd else .textEnd), 0⟩
  | .assertion a => some ⟨.assertion a, 0⟩
  | _ => none

/-- Repeats an item. -/
def repeated (least : Nat) (most : Option Nat) (i : Item) : Item :=
  ⟨.repetition i.meaning least most, i.height + 1⟩

/-- Takes in one token, given the enclosing groups from the inside out. -/
def take (g : Group) (outer : List Group) : Token → Option (Group × List Group)
  | .openGroup _ s => some (start (g.modes.apply s), g :: outer)
  | .closeGroup =>
    match outer with
    | o :: outer => some (o.add g.close, outer)
    | [] => none
  | .bar => some (g.bar, outer)
  | .flags s => some ({ g with modes := g.modes.apply s, items := none :: g.items }, outer)
  | .repetition least most =>
    match g.items with
    | some i :: items => some ({ g with items := some (repeated least most i) :: items }, outer)
    | _ => none
  | token => (atom g.modes token).map fun i => (g.add i, outer)

end Group

/-- Assembles tokens; every group has to be closed at the end. -/
def assemble : List Token → Group → List Group → Option Item
  | [], g, [] => some g.content
  | [], _, _ :: _ => none
  | token :: tokens, g, outer =>
    match g.take outer token with
    | some (g, outer) => assemble tokens g outer
    | none => none

/-- The names that tokens give to groups. -/
def groupNames (ts : List Token) : List Text :=
  ts.filterMap fun
    | .openGroup name _ => name
    | _ => none

/-- The expression of a row of tokens; no two groups may have one name, and the limit holds. -/
def ofTokens (ts : List Token) : Option Regex :=
  if (groupNames ts).Nodup then
    match assemble ts (.start .plain) [] with
    | some i => if i.height ≤ heightLimit then some i.meaning else none
    | none => none
  else none

/-- Reads an expression; `none` if it breaks the grammar. -/
def read (source : Text) : Option Regex :=
  (tokens source).bind ofTokens

/-- The reader and the search as an engine. -/
abbrev engine : RegexEngine where
  Expression := Regex
  compile := read
  isMatch := isFoundIn

end Regex

end ContentNegotiation
