import ContentNegotiation.Template.Basic

/-!
# Candidate spans

What a variable may capture from a given place: spans of its grammar in increasing length, headed by
the empty span if the variable is facultative. They are tried in that order or from the longest
down, which depends on the variable and on the node after it.
-/

namespace ContentNegotiation

/-- A span from the current place: how many characters it takes and what it leaves. -/
structure Candidate where
  taken : Nat
  rest : Text
  deriving DecidableEq, Repr

namespace Kind

/-- The non-empty spans of admitted characters, shortest first; `taken` counts the characters
before the text. -/
def runs (p : Char → Bool) (taken : Nat) : Text → List Candidate
  | [] => []
  | c :: t => if p c then ⟨taken + 1, t⟩ :: runs p (taken + 1) t else []

/-- The non-empty spans of admitted characters in which parentheses are balanced, shortest first;
`depth` of them are open before the text. -/
def balancedRuns (p : Char → Bool) (depth taken : Nat) : Text → List Candidate
  | [] => []
  | c :: t =>
    if !p c then []
    else if c = '(' then balancedRuns p (depth + 1) (taken + 1) t
    else if c = ')' then
      match depth with
      | 0 => []
      | 1 => ⟨taken + 1, t⟩ :: balancedRuns p 0 (taken + 1) t
      | depth + 1 => balancedRuns p depth (taken + 1) t
    else if depth = 0 then ⟨taken + 1, t⟩ :: balancedRuns p 0 (taken + 1) t
    else balancedRuns p depth (taken + 1) t

/-- The non-empty spans of the grammar at the beginning of a text, shortest first. -/
def spans [RegexEngine] (k : Kind) (input : Text) : List Candidate :=
  match k with
  | comment => balancedRuns k.accepts 0 0 input
  | custom source =>
    let expression := RegexEngine.compileTied source
    (runs k.accepts 0 input).filter fun c =>
      expression.any fun r => RegexEngine.isMatch r (input.take c.taken)
  | _ => runs k.accepts 0 input

end Kind

/-- The order in which the spans of a variable are tried. -/
inductive SpanOrder where
  | shortest
  | longest
  deriving DecidableEq, Repr

namespace SpanOrder

/-- The order for a variable, given the nodes after it (`resolve_span_orders`). The last node takes
all it can. A variable before an unconstrained one takes as little as it can. Otherwise
unconstrained and facultative variables are greedy and all others are not. -/
def of (v : Variable) : List Node → SpanOrder
  | [] => longest
  | .slot next :: _ =>
    if next.var.kind.isUnconstrained then shortest
    else if v.kind.isUnconstrained || !v.required then longest
    else shortest
  | .literal _ :: _ => if v.kind.isUnconstrained || !v.required then longest else shortest

/-- Puts spans that come shortest first into the order. -/
def arrange : SpanOrder → List Candidate → List Candidate
  | shortest, cs => cs
  | longest, cs => cs.reverse

end SpanOrder

namespace Slot

/-- The spans that the variable may capture from the beginning of a text, shortest first. -/
def spans [RegexEngine] (s : Slot) (input : Text) : List Candidate :=
  if s.var.required then s.var.kind.spans input else ⟨0, input⟩ :: s.var.kind.spans input

/-- The spans in the order in which they are tried before the given nodes (`candidate_ends`). -/
def candidates [RegexEngine] (s : Slot) (after : List Node) (input : Text) : List Candidate :=
  (SpanOrder.of s.var after).arrange (s.spans input)

end Slot

end ContentNegotiation
