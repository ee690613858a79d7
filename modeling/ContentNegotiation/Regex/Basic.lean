import ContentNegotiation.Regex.Property
import ContentNegotiation.Text.Character

/-!
# Regular expressions

The abstract form of a regular expression: classes of characters, assertions about a position, and
sequence, choice and repetition. Groups and lazy repetition leave no trace, since only the existence
of a match is ever asked for.
-/

namespace ContentNegotiation

/-- A set of characters as it is written in an expression. -/
inductive CharClass where
  | single (c : Char)
  | range (low high : Char)
  | digit
  | space
  | word
  | any
  | nothing
  | union (a b : CharClass)
  | intersection (a b : CharClass)
  | difference (a b : CharClass)
  | symmetricDifference (a b : CharClass)
  | complement (a : CharClass)
  deriving DecidableEq, Repr

namespace CharClass

/-- The case variants of a character if case is ignored, else the character alone. -/
def variants (ignoreCase : Bool) (c : Char) : List Nat :=
  if ignoreCase then caseVariants c.toNat else [c.toNat]

/-- Membership. Ignoring case widens single characters and ranges before any complement is
taken. -/
def contains (ignoreCase : Bool) : CharClass → Char → Bool
  | single d, c => (variants ignoreCase c).any (· == d.toNat)
  | range low high, c => (variants ignoreCase c).any fun n => low.toNat ≤ n && n ≤ high.toNat
  | digit, c => isDecimalDigit c
  | space, c => isBlank c
  | word, c => isWordChar c
  | any, _ => true
  | nothing, _ => false
  | union a b, c => a.contains ignoreCase c || b.contains ignoreCase c
  | intersection a b, c => a.contains ignoreCase c && b.contains ignoreCase c
  | difference a b, c => a.contains ignoreCase c && !b.contains ignoreCase c
  | symmetricDifference a b, c => a.contains ignoreCase c != b.contains ignoreCase c
  | complement a, c => !a.contains ignoreCase c

end CharClass

/-- A condition on a position that consumes nothing. -/
inductive Assertion where
  | textStart
  | textEnd
  | lineStart
  | lineEnd
  | wordBoundary
  | noWordBoundary
  | wordStart
  | wordEnd
  /-- No word character stands before. -/
  | wordStartHalf
  /-- No word character follows. -/
  | wordEndHalf
  deriving DecidableEq, Repr

namespace Assertion

/-- Whether the condition holds between a character, if any, and the next one, if any. -/
def holds (a : Assertion) (before after : Option Char) : Bool :=
  let wordBefore := before.any isWordChar
  let wordAfter := after.any isWordChar
  match a with
  | textStart => before.isNone
  | textEnd => after.isNone
  | lineStart => before.isNone || before == some '\n'
  | lineEnd => after.isNone || after == some '\n'
  | wordBoundary => wordBefore != wordAfter
  | noWordBoundary => wordBefore == wordAfter
  | wordStart => !wordBefore && wordAfter
  | wordEnd => wordBefore && !wordAfter
  | wordStartHalf => !wordBefore
  | wordEndHalf => !wordAfter

end Assertion

/-- A regular expression. -/
inductive Regex where
  /-- Matches the empty text. -/
  | empty
  /-- Matches one character of the class. -/
  | chars (ignoreCase : Bool) (k : CharClass)
  /-- Matches the empty text where the assertion holds. -/
  | assertion (a : Assertion)
  | sequence (a b : Regex)
  | choice (a b : Regex)
  /-- At least `least` and, if there is a bound, at most `most` times. -/
  | repetition (a : Regex) (least : Nat) (most : Option Nat)
  deriving DecidableEq, Repr

end ContentNegotiation
