import ContentNegotiation.Proofs.Template.Split

/-!
# The search finds the first split

The search remembers the states that failed.  One invariant carries it: from a remembered state
there is no split (`Search.Sound`).  It makes the answer of every step independent of what is
remembered, so each combinator of the search has one lemma that says which splits it stands for
(`Search.Finds`), and the walk over the nodes stands for the list of all splits in order.

Principal results: `Search.finds_walk` (from any state and with any sound memory the search finds
the first split, if there is one) and `Template.search_eq_head?` (the same for a whole match).
-/

namespace ContentNegotiation

variable [RegexEngine]

namespace Search

/-- From every remembered state there is no split of what is left of the input. -/
def Sound (t : Template) (input : Text) (h : Search) : Prop :=
  ∀ s, h.failed.contains s = true →
    splits t.extent (t.nodes.drop s.node) (input.drop s.cursor) = []

/-- The outcome is the first of the given splits, and what is remembered after it is sound. -/
structure Finds (t : Template) (input : Text) (found : List (List Piece)) (o : Outcome) :
    Prop where
  pieces : o.1 = found.head?
  sound : Sound t input o.2

variable {t : Template} {input : Text} {h : Search}

theorem sound_start : Sound t input .start := by
  intro s hs
  simp [start] at hs

theorem Sound.expand (hs : Sound t input h) (s : SearchState) : Sound t input (h.expand s) := hs

theorem Sound.fail (hs : Sound t input h) {s : SearchState}
    (hf : splits t.extent (t.nodes.drop s.node) (input.drop s.cursor) = []) :
    Sound t input (h.fail s) := by
  intro u hu
  rw [Search.fail, Std.HashSet.contains_insert, Bool.or_eq_true, beq_iff_eq] at hu
  rcases hu with rfl | hu
  · exact hf
  · exact hs u hu

/-! ## What the combinators of the search stand for -/

theorem Finds.none (hs : Sound t input h) : Finds t input [] (none, h) := ⟨rfl, hs⟩

theorem Finds.mapPieces {found : List (List Piece)} {o : Outcome} (ho : Finds t input found o)
    (f : List Piece → List Piece) : Finds t input (found.map f) (o.mapPieces f) := by
  refine ⟨?_, ho.sound⟩
  rw [List.head?_map, ← ho.pieces]
  rfl

theorem Finds.orElse {found more : List (List Piece)} {o : Outcome} {next : Search → Outcome}
    (ho : Finds t input found o) (hn : ∀ h, Sound t input h → Finds t input more (next h)) :
    Finds t input (found ++ more) (o.orElse next) := by
  obtain ⟨pieces, h⟩ := o
  obtain ⟨hp, hs⟩ := ho
  cases found with
  | nil =>
      obtain rfl : pieces = Option.none := hp
      exact hn h hs
  | cons ps found =>
      obtain rfl : pieces = some ps := hp
      exact ⟨rfl, hs⟩

theorem finds_firstSuccess {attempt : Candidate → Search → Outcome}
    {found : Candidate → List (List Piece)} :
    ∀ {cs : List Candidate},
      (∀ c ∈ cs, ∀ h, Sound t input h → Finds t input (found c) (attempt c h)) →
      ∀ {h}, Sound t input h → Finds t input (cs.flatMap found) (firstSuccess attempt cs h)
  | [], _, _, hs => .none hs
  | c :: cs, hc, h, hs => by
    rw [List.flatMap_cons, firstSuccess]
    refine (hc c List.mem_cons_self h hs).orElse ?_
    intro h hs
    exact finds_firstSuccess (fun d hd => hc d (List.mem_cons_of_mem c hd)) hs

/-- A remembered state is passed over rightly, and a state that fails is remembered rightly. -/
theorem finds_visit {s : SearchState} {found : List (List Piece)} {body : Search → Outcome}
    (hfound : splits t.extent (t.nodes.drop s.node) (input.drop s.cursor) = found)
    (hbody : ∀ h, Sound t input h → Finds t input found (body h)) (hs : Sound t input h) :
    Finds t input found (visit s h body) := by
  rw [visit]
  split
  · rename_i hc
    rw [← hfound, hs s hc]
    exact .none hs
  · have hb := hbody _ (hs.expand s)
    generalize body (h.expand s) = o at hb
    obtain ⟨pieces, h'⟩ := o
    cases found with
    | nil =>
        obtain rfl : pieces = Option.none := hb.pieces
        exact .none (hb.sound.fail hfound)
    | cons ps found =>
        obtain rfl : pieces = some ps := hb.pieces
        exact hb

/-! ## The walk -/

/-- **From any state and with any sound memory the search finds the first split.** -/
theorem finds_walk : ∀ {nodes : List Node} {rest : Text} {s : SearchState} {h : Search},
    t.nodes.drop s.node = nodes → input.drop s.cursor = rest → Sound t input h →
      Finds t input (splits t.extent nodes rest) (walk t.extent nodes rest s h)
  | [], rest, s, h, hn, hr, hs => by
    rw [walk]
    refine finds_visit (by rw [hn, hr]) (fun h hs => ?_) hs
    refine ⟨?_, hs⟩
    rw [splits]
    cases finish t.extent rest <;> rfl
  | .literal text :: after, rest, s, h, hn, hr, hs => by
    have hafter : t.nodes.drop (s.node + 1) = after := by
      rw [← List.drop_drop, hn]
      rfl
    rw [walk.eq_def]
    refine finds_visit (by rw [hn, hr]) (fun h hs => ?_) hs
    rw [splits.eq_def]
    refine Finds.orElse ?_ fun h hs => ?_
    · cases hd : Text.dropPrefix text rest with
      | none => exact .none hs
      | some left =>
          rw [Text.dropPrefix_eq_some_iff] at hd
          refine (finds_walk ?_ ?_ hs).mapPieces _
          · exact hafter
          · rw [← List.drop_drop, hr, hd, List.drop_left]
    · cases hnext : after with
      | nil => exact .none hs
      | cons node beyond =>
          have hshorter : beyond.length < after.length := by
            rw [hnext, List.length_cons]
            omega
          cases node with
          | literal _ => exact .none hs
          | slot v =>
              by_cases hskip : (Text.allBlank text && !v.var.required) = true
              · simp only [if_pos hskip]
                refine (finds_walk ?_ ?_ hs).mapPieces _
                · rw [← List.drop_drop, hn, hnext]
                  rfl
                · exact hr
              · simp only [if_neg hskip]
                exact .none hs
  | .slot v :: after, rest, s, h, hn, hr, hs => by
    have hafter : t.nodes.drop (s.node + 1) = after := by
      rw [← List.drop_drop, hn]
      rfl
    rw [walk]
    refine finds_visit (by rw [hn, hr]) (fun h hs => ?_) hs
    rw [splits]
    refine finds_firstSuccess (fun c hc h hs => ?_) hs
    obtain ⟨span, ht, hl, -⟩ := Slot.mem_spans_iff.mp (Slot.mem_candidates_iff.mp hc)
    refine (finds_walk ?_ ?_ hs).mapPieces _
    · exact hafter
    · rw [← List.drop_drop, hr, ht, hl, List.drop_left]
termination_by nodes => nodes.length
decreasing_by
  all_goals
    rw [List.length_cons]
    omega

end Search

/-- **The search of a template finds the first split of the input.** -/
theorem Template.search_eq_head? (t : Template) (input : Text) :
    (t.search input).1 = (splits t.extent t.nodes input).head? := by
  have h : Search.Finds t input (splits t.extent t.nodes input) (t.search input) := by
    refine Search.finds_walk ?_ ?_ Search.sound_start
    · exact List.drop_zero
    · exact List.drop_zero
  exact h.pieces

end ContentNegotiation
