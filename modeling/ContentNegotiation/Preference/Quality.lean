import ContentNegotiation.Number.Shortest

/-!
# Quality weights

A quality lies between zero and one; zero says that a value is not acceptable. Negative zero is
one of the admitted numbers.
-/

namespace ContentNegotiation

/-- A number between zero and one. -/
structure Quality where
  value : Single
  nonneg : Binary.zero.atMost value = true
  le_one : value.atMost Binary.one = true
  deriving DecidableEq, Repr

namespace Quality

/-- The quality of that value (`Quality::new`); `none` outside of zero to one and for
not-a-number. -/
def ofSingle (x : Single) : Option Quality :=
  if h : Binary.zero.atMost x = true ∧ x.atMost Binary.one = true then some ⟨x, h.1, h.2⟩ else none

/-- The quality of a value for which none is stated. -/
def highest : Quality := ⟨Binary.one, by decide, by decide⟩

/-- The quality of a value that is not acceptable. -/
def lowest : Quality := ⟨Binary.zero, by decide, by decide⟩

/-- The written form (`Quality::fmt`). -/
def print (q : Quality) : Text := q.value.print

/-- Numerically the highest quality. -/
def isHighest (q : Quality) : Bool := q.value.sameValue Binary.one

end Quality

end ContentNegotiation
