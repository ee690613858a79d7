import ContentNegotiation.Proofs.Template.Split
import Mathlib.Data.List.Nodup
import Mathlib.Data.List.Perm.Subperm
import Mathlib.Data.List.ProdSigma

/-!
# No state is expanded twice

The search logs every state that it expands.  An expanded state is pending while the rest of the
template is tried from there.  If that fails the state is remembered, and if it succeeds the search
is over.  Later states stand at later nodes than the pending ones, so whatever the search comes to
has either failed before or was never expanded.

* `SearchState.Reached` — the nodes before the state fit the input before it.
* `Search.Tidy` — the invariant of the search: the log has no state twice, and each logged state is
  pending or has failed.
* `Search.Frugal` — what a step leaves of it: the log stays without repetition, and where nothing
  is found no other states are pending than before.
* `Search.Visits` — what a visit of a state leaves of it: the state is in the log as well.

Principal results: `Search.visits_walk` (from any tidy search the walk visits its state) and
`Template.search_expands_once` (a whole search expands no state twice, and so no more states than
there are nodes and places).
-/

namespace ContentNegotiation

variable [RegexEngine]

/-- The search comes to the state when these nodes and this input are left: the nodes before them
fit the input before the state. -/
def SearchState.ReachedAt (t : Template) (input : Text) (nodes : List Node) (rest : Text)
    (s : SearchState) : Prop :=
  ∃ before ps, Fits before ps ∧ t.nodes = before ++ nodes ∧ input = Piece.covered ps ++ rest ∧
    s = ⟨before.length, (Piece.covered ps).length⟩

/-- The search may come to the state. -/
def SearchState.Reached (t : Template) (input : Text) (s : SearchState) : Prop :=
  ∃ nodes rest, s.ReachedAt t input nodes rest

namespace SearchState

variable {t : Template} {input rest : Text} {nodes : List Node} {s : SearchState}

theorem reachedAt_start (t : Template) (input : Text) :
    ReachedAt t input t.nodes input ⟨0, 0⟩ :=
  ⟨[], [], .nil, rfl, rfl, rfl⟩

/-- Whatever nodes come next, the search goes on behind them and behind what fits them. -/
theorem ReachedAt.next {added : List Node} {ps : List Piece} (hfits : Fits added ps)
    (h : s.ReachedAt t input (added ++ nodes) (Piece.covered ps ++ rest)) :
    ReachedAt t input nodes rest ⟨s.node + added.length, s.cursor + (Piece.covered ps).length⟩ := by
  obtain ⟨before, qs, hbefore, hnodes, hinput, rfl⟩ := h
  exact ⟨before ++ added, qs ++ ps, hbefore.append hfits, by simp [hnodes], by simp [hinput],
    by simp⟩

theorem Reached.bounds (h : s.Reached t input) :
    s.node ≤ t.nodes.length ∧ s.cursor ≤ input.length := by
  obtain ⟨nodes, rest, before, ps, -, hnodes, rfl, rfl⟩ := h
  simp [hnodes]

/-- A state is reached where the nodes before it fit the input before it. -/
theorem Reached.exists_fits (h : s.Reached t input) :
    ∃ ps, Fits (t.nodes.take s.node) ps ∧ Piece.covered ps = input.take s.cursor := by
  obtain ⟨nodes, rest, before, ps, hfits, hnodes, rfl, rfl⟩ := h
  refine ⟨ps, ?_, by simp⟩
  simpa [hnodes] using hfits

end SearchState

namespace Search

/-- The log has no state twice, and only states that the search may come to. -/
structure Logged (t : Template) (input : Text) (h : Search) : Prop where
  nodup : h.expanded.Nodup
  reached : ∀ s ∈ h.expanded, s.Reached t input

/-- Beside that, every logged state is pending or has failed. -/
structure Tidy (t : Template) (input : Text) (pending : List SearchState) (h : Search) : Prop
    extends Logged t input h where
  settled : ∀ s ∈ h.expanded, s ∈ pending ∨ h.failed.contains s = true

/-- What a search leads to: nothing is struck from the log, and where nothing is found the same
states are pending as before. -/
structure Frugal (t : Template) (input : Text) (pending : List SearchState) (h : Search)
    (o : Outcome) : Prop where
  logged : Logged t input o.2
  kept : h.expanded ⊆ o.2.expanded
  tidy : o.1 = none → Tidy t input pending o.2

/-- Beside that, a state is in the log unless it has failed before. -/
structure Visits (t : Template) (input : Text) (pending : List SearchState) (s : SearchState)
    (h : Search) (o : Outcome) : Prop extends Frugal t input pending h o where
  noted : h.failed.contains s = true ∨ s ∈ o.2.expanded

variable {t : Template} {input : Text} {pending : List SearchState} {h : Search} {s : SearchState}
  {o : Outcome}

theorem tidy_start (t : Template) (input : Text) : Tidy t input [] .start where
  nodup := List.nodup_nil
  reached := by simp [start]
  settled := by simp [start]

theorem Tidy.expand (hs : Tidy t input pending h) (hreached : s.Reached t input)
    (hfresh : s ∉ h.expanded) : Tidy t input (s :: pending) (h.expand s) where
  nodup := List.nodup_cons.mpr ⟨hfresh, hs.nodup⟩
  reached := List.forall_mem_cons.mpr ⟨hreached, hs.reached⟩
  settled := by
    refine List.forall_mem_cons.mpr ⟨Or.inl List.mem_cons_self, fun u hu => ?_⟩
    exact (hs.settled u hu).imp_left (List.mem_cons_of_mem s)

/-- A pending state that fails is pending no more. -/
theorem Tidy.fail (hs : Tidy t input (s :: pending) h) : Tidy t input pending (h.fail s) where
  nodup := hs.nodup
  reached := hs.reached
  settled := by
    intro u hu
    rw [Search.fail, Std.HashSet.contains_insert, Bool.or_eq_true, beq_iff_eq]
    rcases hs.settled u hu with hpending | hfailed
    · rcases List.mem_cons.mp hpending with rfl | hpending
      · exact Or.inr (Or.inl rfl)
      · exact Or.inl hpending
    · exact Or.inr (Or.inr hfailed)

/-! ## What the combinators of the search log -/

theorem Tidy.frugal (hs : Tidy t input pending h) (pieces : Option (List Piece)) :
    Frugal t input pending h (pieces, h) :=
  ⟨hs.toLogged, List.Subset.refl _, fun _ => hs⟩

theorem Frugal.mapPieces (ho : Frugal t input pending h o) (f : List Piece → List Piece) :
    Frugal t input pending h (o.mapPieces f) :=
  ⟨ho.logged, ho.kept, fun hnone => ho.tidy (Option.map_eq_none_iff.mp hnone)⟩

theorem Frugal.orElse {next : Search → Outcome} (ho : Frugal t input pending h o)
    (hn : ∀ h, Tidy t input pending h → Frugal t input pending h (next h)) :
    Frugal t input pending h (o.orElse next) := by
  obtain ⟨pieces, h'⟩ := o
  cases pieces with
  | some pieces => exact ⟨ho.logged, ho.kept, fun hnone => nomatch hnone⟩
  | none =>
      have hnext := hn h' (ho.tidy rfl)
      exact ⟨hnext.logged, List.Subset.trans ho.kept hnext.kept, hnext.tidy⟩

theorem frugal_firstSuccess {attempt : Candidate → Search → Outcome} :
    ∀ {cs : List Candidate},
      (∀ c ∈ cs, ∀ h, Tidy t input pending h → Frugal t input pending h (attempt c h)) →
      ∀ {h}, Tidy t input pending h → Frugal t input pending h (firstSuccess attempt cs h)
  | [], _, _, hs => hs.frugal none
  | c :: cs, hc, h, hs => by
    rw [firstSuccess]
    refine (hc c List.mem_cons_self h hs).orElse ?_
    intro h hs
    exact frugal_firstSuccess (fun d hd => hc d (List.mem_cons_of_mem c hd)) hs

/-- A state behind all pending ones is new, unless it has failed before. -/
theorem Tidy.not_mem_expanded (hs : Tidy t input pending h)
    (hlater : ∀ p ∈ pending, p.node < s.node) (hfailed : ¬ h.failed.contains s = true) :
    s ∉ h.expanded := by
  intro hmem
  rcases hs.settled s hmem with hpending | hcontains
  · exact Nat.lt_irrefl _ (hlater s hpending)
  · exact hfailed hcontains

theorem visits_visit {body : Search → Outcome} (hs : Tidy t input pending h)
    (hreached : s.Reached t input) (hlater : ∀ p ∈ pending, p.node < s.node)
    (hbody : ∀ h, Tidy t input (s :: pending) h → Frugal t input (s :: pending) h (body h)) :
    Visits t input pending s h (visit s h body) := by
  rw [visit]
  split
  · rename_i hfailed
    exact ⟨hs.frugal none, Or.inl hfailed⟩
  · rename_i hfailed
    have hb := hbody _ (hs.expand hreached (hs.not_mem_expanded hlater hfailed))
    generalize body (h.expand s) = o at hb
    have hkept : h.expanded ⊆ o.2.expanded := List.Subset.trans (List.subset_cons_self s _) hb.kept
    have hnoted : s ∈ o.2.expanded := hb.kept List.mem_cons_self
    obtain ⟨pieces, h'⟩ := o
    cases pieces with
    | some pieces => exact ⟨⟨hb.logged, hkept, fun hnone => nomatch hnone⟩, Or.inr hnoted⟩
    | none =>
        have hfail := (hb.tidy rfl).fail
        exact ⟨⟨hfail.toLogged, hkept, fun _ => hfail⟩, Or.inr hnoted⟩

/-! ## The walk -/

omit [RegexEngine] in
/-- A state at a later node is behind one more pending state. -/
theorem later_cons {k : Nat} (hlater : ∀ p ∈ pending, p.node < s.node) (hk : 0 < k) :
    ∀ p ∈ s :: pending, p.node < s.node + k := by
  intro p hp
  rcases List.mem_cons.mp hp with rfl | hp
  · omega
  · have := hlater p hp
    omega

/-- **From any tidy search the walk is frugal.** -/
theorem visits_walk : ∀ {nodes : List Node} {rest : Text} {s : SearchState}
    {pending : List SearchState} {h : Search}, s.ReachedAt t input nodes rest →
      Tidy t input pending h → (∀ p ∈ pending, p.node < s.node) →
        Visits t input pending s h (walk t.extent nodes rest s h)
  | [], rest, s, pending, h, hat, hs, hlater => by
    rw [walk]
    exact visits_visit hs ⟨_, _, hat⟩ hlater fun h hs => hs.frugal _
  | .literal text :: after, rest, s, pending, h, hat, hs, hlater => by
    rw [walk.eq_def]
    refine visits_visit hs ⟨_, _, hat⟩ hlater fun h hs => Frugal.orElse ?_ fun h hs => ?_
    · cases hd : Text.dropPrefix text rest with
      | none => exact hs.frugal none
      | some left =>
          rw [Text.dropPrefix_eq_some_iff] at hd
          subst hd
          have hfits : Fits [.literal text] [.literal text] := .literal .nil
          have hnext : SearchState.ReachedAt t input after left _ :=
            .next hfits (by simpa [Piece.text] using hat)
          refine Frugal.mapPieces ((visits_walk ?_ hs (later_cons hlater Nat.one_pos)).toFrugal) _
          simpa [Piece.text] using hnext
    · cases hafter : after with
      | nil => exact hs.frugal none
      | cons node beyond =>
          have hshorter : beyond.length < after.length := by
            rw [hafter, List.length_cons]
            omega
          cases node with
          | literal _ => exact hs.frugal none
          | slot v =>
              by_cases hskip : (Text.allBlank text && !v.var.required) = true
              · simp only [if_pos hskip]
                rw [Bool.and_eq_true, Bool.not_eq_true', Text.allBlank_iff] at hskip
                have hfits : Fits [.literal text, .slot v] [.skipped, .captured v []] :=
                  .skipped hskip.1 hskip.2 .nil
                have hnext : SearchState.ReachedAt t input beyond rest _ :=
                  .next hfits (by simpa [Piece.text, hafter] using hat)
                refine Frugal.mapPieces
                  ((visits_walk ?_ hs (later_cons hlater Nat.two_pos)).toFrugal) _
                simpa [Piece.text] using hnext
              · simp only [if_neg hskip]
                exact hs.frugal none
  | .slot v :: after, rest, s, pending, h, hat, hs, hlater => by
    rw [walk]
    refine visits_visit hs ⟨_, _, hat⟩ hlater fun h hs => ?_
    refine frugal_firstSuccess (fun c hc h hs => ?_) hs
    obtain ⟨span, rfl, hl, hcap⟩ := Slot.mem_spans_iff.mp (Slot.mem_candidates_iff.mp hc)
    have hfits : Fits [.slot v] [.captured v span] := .captured hcap .nil
    have hnext : SearchState.ReachedAt t input after c.rest _ :=
      .next hfits (by simpa [Piece.text] using hat)
    refine Frugal.mapPieces ((visits_walk ?_ hs (later_cons hlater Nat.one_pos)).toFrugal) _
    simpa [Piece.text, hl] using hnext
termination_by nodes => nodes.length
decreasing_by
  all_goals
    rw [List.length_cons]
    omega

/-- A log without repetition holds no more states than there are. -/
theorem Logged.length_le (hl : Logged t input h) :
    h.expanded.length ≤ (t.nodes.length + 1) * (input.length + 1) := by
  have hnodup : (h.expanded.map fun s => (s.node, s.cursor)).Nodup := by
    refine List.Nodup.map ?_ hl.nodup
    rintro ⟨n, c⟩ ⟨m, d⟩ heq
    simpa using heq
  have hsubset : (h.expanded.map fun s => (s.node, s.cursor)) ⊆
      List.range (t.nodes.length + 1) ×ˢ List.range (input.length + 1) := by
    intro p hp
    obtain ⟨s, hs, rfl⟩ := List.mem_map.mp hp
    have hbounds := (hl.reached s hs).bounds
    rw [List.mem_product, List.mem_range, List.mem_range]
    omega
  have hle := (List.subperm_of_subset hnodup hsubset).length_le
  rwa [List.length_map, List.length_product, List.length_range, List.length_range] at hle

end Search

/-- **No state is expanded twice.**  The states that a search expands are those in its log.  There
is no repetition in it.  Each of them is a node, or the end of the pattern, with a place in the
input up to which the nodes before it fit, and the first one is among them.  So no more states are
expanded than there are nodes and places. -/
theorem Template.search_expands_once (t : Template) (input : Text) :
    (t.search input).2.expanded.Nodup ∧
    (∀ s ∈ (t.search input).2.expanded, s.node ≤ t.nodes.length ∧ s.cursor ≤ input.length ∧
      ∃ ps, Fits (t.nodes.take s.node) ps ∧ Piece.covered ps = input.take s.cursor) ∧
    ⟨0, 0⟩ ∈ (t.search input).2.expanded ∧
    (t.search input).2.expanded.length ≤ (t.nodes.length + 1) * (input.length + 1) := by
  have hvisits : Search.Visits t input [] ⟨0, 0⟩ .start (t.search input) :=
    Search.visits_walk (SearchState.reachedAt_start t input) (Search.tidy_start t input)
      (fun _ h => nomatch h)
  have hlogged := hvisits.logged
  refine ⟨hlogged.nodup, fun s hs => ?_, ?_, hlogged.length_le⟩
  · have hreached := hlogged.reached s hs
    exact ⟨hreached.bounds.1, hreached.bounds.2, hreached.exists_fits⟩
  · exact hvisits.noted.resolve_left (by simp [Search.start])

end ContentNegotiation
