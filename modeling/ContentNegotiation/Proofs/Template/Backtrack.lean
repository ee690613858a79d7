import ContentNegotiation.Proofs.Template.Match

/-!
# The search without memory

`Backtrack.walk` searches without remembering anything.  The captures on the way lie on one stack: a
capture is pushed before the rest of the template is tried and popped when the rest fails.  The
match is read off the stack at the end.

The link to the search with memory is the list of all splits: `Backtrack.ofSplits` is the outcome
that belongs to it, and each combinator of the plain search has one lemma that says what it does to
such outcomes.

Principal results: `Backtrack.walk_eq` (the plain search stands for the list of all splits; where it
fails the stack is as before) and `Template.firstMatch_eq_plainMatch` (remembering failed states
changes no match).
-/

namespace ContentNegotiation

/-- A variable with the span that it has captured. -/
abbrev Capture := Slot × Text

namespace Backtrack

/-- What a state has led to: the input behind the match, if there is one, and the stack. -/
abbrev Outcome := Option Text × List Capture

/-- Goes on with another attempt if the first one failed. -/
def orElse (o : Outcome) (next : List Capture → Outcome) : Outcome :=
  match o with
  | (some rest, stack) => (some rest, stack)
  | (none, stack) => next stack

/-- Makes an attempt with a capture on the stack, which is taken off again if the attempt fails. -/
def binding (c : Capture) (body : List Capture → Outcome) (stack : List Capture) : Outcome :=
  orElse (body (c :: stack)) fun stack => (none, stack.tail)

/-- Tries candidates until one succeeds. -/
def firstSuccess (attempt : Candidate → List Capture → Outcome) :
    List Candidate → List Capture → Outcome
  | [], stack => (none, stack)
  | c :: cs, stack => orElse (attempt c stack) (firstSuccess attempt cs)

/-- Searches from the nodes and the input that are left. -/
def walk [RegexEngine] (extent : Extent) : List Node → Text → List Capture → Outcome
  | [], input, stack => ((Search.finish extent input).map fun _ => input, stack)
  | .literal text :: after, input, stack =>
    orElse
      (match Text.dropPrefix text input with
        | some rest => walk extent after rest stack
        | none => (none, stack))
      fun stack =>
        match after with
        | .slot v :: beyond =>
          if Text.allBlank text && !v.var.required then
            binding (v, []) (walk extent beyond input) stack
          else (none, stack)
        | _ => (none, stack)
  | .slot v :: after, input, stack =>
    firstSuccess (fun c => binding (v, input.take c.taken) (walk extent after c.rest))
      (v.candidates after input) stack

/-- The bindings that a stack makes, from its bottom up. -/
def bindings (stack : List Capture) : Bindings :=
  stack.foldr (fun (s, span) b => b.set s.name (if span.isEmpty then s.var.emptyValue else span)) []

end Backtrack

/-- The match that the search without memory finds. -/
def Template.plainMatch [RegexEngine] (t : Template) (input : Text) : Option TemplateMatch :=
  match Backtrack.walk t.extent t.nodes input [] with
  | (some rest, stack) =>
    some ⟨Backtrack.bindings stack, input.take (input.length - rest.length)⟩
  | (none, _) => none

namespace Backtrack

/-! ## The outcome that belongs to a list of splits -/

/-- The captures among pieces. -/
def captures : List Piece → List Capture
  | [] => []
  | .captured s span :: ps => (s, span) :: captures ps
  | .literal _ :: ps => captures ps
  | .skipped :: ps => captures ps

/-- The first split leaves what it does not cover and stacks its captures. -/
def ofSplits (input : Text) (stack : List Capture) : List (List Piece) → Outcome
  | [] => (none, stack)
  | ps :: _ =>
    (some (input.drop (Piece.covered ps).length), (captures ps).reverse ++ stack)

section Combinators

variable {input rest : Text} {stack : List Capture} {found more : List (List Piece)}

theorem orElse_ofSplits :
    orElse (ofSplits input stack found) (fun stack => ofSplits input stack more) =
      ofSplits input stack (found ++ more) := by
  cases found <;> rfl

theorem ofSplits_literal (text : Text) :
    ofSplits (text ++ rest) stack (found.map (.literal text :: ·)) = ofSplits rest stack found := by
  cases found with
  | nil => rfl
  | cons ps found => simp [ofSplits, Piece.text, captures, List.drop_append]

theorem binding_captured (s : Slot) (span : Text) :
    binding (s, span) (fun stack => ofSplits rest stack found) stack =
      ofSplits (span ++ rest) stack (found.map (.captured s span :: ·)) := by
  cases found with
  | nil => rfl
  | cons ps found => simp [binding, orElse, ofSplits, Piece.text, captures, List.drop_append]

theorem binding_skipped (s : Slot) :
    binding (s, []) (fun stack => ofSplits input stack found) stack =
      ofSplits input stack (found.map (.skipped :: .captured s [] :: ·)) := by
  cases found with
  | nil => rfl
  | cons ps found => simp [binding, orElse, ofSplits, Piece.text, captures]

theorem firstSuccess_eq {attempt : Candidate → List Capture → Outcome}
    {found : Candidate → List (List Piece)} :
    ∀ {cs : List Candidate} {stack : List Capture},
      (∀ c ∈ cs, ∀ stack, attempt c stack = ofSplits input stack (found c)) →
      firstSuccess attempt cs stack = ofSplits input stack (cs.flatMap found)
  | [], _, _ => rfl
  | c :: cs, stack, hc => by
    have hrest : firstSuccess attempt cs = fun stack => ofSplits input stack (cs.flatMap found) :=
      funext fun stack => firstSuccess_eq fun d hd => hc d (List.mem_cons_of_mem c hd)
    rw [firstSuccess, hrest, hc c List.mem_cons_self, orElse_ofSplits, List.flatMap_cons]

end Combinators

/-! ## The walk -/

/-- **The plain search stands for the list of all splits.** -/
theorem walk_eq [RegexEngine] (extent : Extent) :
    ∀ (nodes : List Node) (input : Text) (stack : List Capture),
    walk extent nodes input stack = ofSplits input stack (splits extent nodes input)
  | [], input, stack => by
    rw [walk, splits]
    cases extent <;> cases input <;> rfl
  | .literal text :: after, input, stack => by
    rw [walk.eq_def, splits.eq_def, ← orElse_ofSplits]
    refine congrArg₂ orElse ?_ (funext fun stack => ?_)
    · -- the text is found
      cases hd : Text.dropPrefix text input with
      | none => rfl
      | some rest =>
          rw [Text.dropPrefix_eq_some_iff] at hd
          subst hd
          simp only [walk_eq extent after rest, ofSplits_literal]
    · -- or left out, together with the variable behind it: two nodes at once
      rcases after with _ | ⟨_ | s, beyond⟩
      · rfl
      · rfl
      · simp only
        split
        · rw [← binding_skipped, funext (walk_eq extent beyond input)]
        · rfl
  | .slot s :: after, input, stack => by
    rw [walk, splits]
    refine firstSuccess_eq fun c hc stack => ?_
    obtain ⟨span, ht, hl, -⟩ := Slot.mem_spans_iff.mp (Slot.mem_candidates_iff.mp hc)
    have hspan : input.take c.taken = span := by rw [ht, hl, List.take_left]
    rw [hspan, funext (walk_eq extent after c.rest), binding_captured, ← ht]
termination_by nodes => nodes.length

theorem foldl_captures (ps : List Piece) (b : Bindings) :
    (captures ps).foldl
      (fun b c => b.set c.1.name (if c.2.isEmpty then c.1.var.emptyValue else c.2)) b =
        ps.foldl Bindings.take b := by
  induction ps generalizing b with
  | nil => rfl
  | cons p ps ih =>
      cases p with
      | literal text => exact ih b
      | skipped => exact ih b
      | captured s span => exact ih _

/-- The stack binds what the pieces bind. -/
theorem bindings_captures (ps : List Piece) :
    bindings (captures ps).reverse = Bindings.ofPieces ps := by
  rw [bindings, List.foldr_reverse]
  exact foldl_captures ps []

end Backtrack

/-- **Remembering failed states changes no match.** -/
theorem Template.firstMatch_eq_plainMatch [RegexEngine] (t : Template) (input : Text) :
    t.firstMatch input = t.plainMatch input := by
  rw [firstMatch_eq, plainMatch, Backtrack.walk_eq]
  cases hfound : splits t.extent t.nodes input with
  | nil => rfl
  | cons ps found =>
      have hsplit : t.IsSplit input ps := isSplit_of_head? (by rw [hfound]; rfl)
      obtain ⟨rest, hrest⟩ := hsplit.covers.isPrefix
      have hcovered : input.take (input.length - (input.drop (Piece.covered ps).length).length) =
          Piece.covered ps := by
        rw [← hrest, List.drop_left, List.length_append, Nat.add_sub_cancel, List.take_left]
      simp only [Backtrack.ofSplits, List.append_nil, Backtrack.bindings_captures, hcovered]
      rfl

end ContentNegotiation
