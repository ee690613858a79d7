import ContentNegotiation.Proofs.Client

/-!
# Unset lists and empty lists

An axis that is unset states no constraint, and neither does one whose list is empty. A client that
is asked for a list to change it has an empty one from then on, also if the change then fails.
Nothing that is scored, ranked or selected can tell the difference.

* `Preferences.Opens` — some of the unset lists have become empty ones, and nothing else.
* `Negotiator.JudgesAlike` — every score, ranking and selection is the same.
* `Client.Operation.KeepsEntries` — an operation that may open a list but changes no entry, such as
  adding a value with a quality that is refused.

Principal results: `Negotiator.judgesAlike_of_opens` and `Client.opens_run` (a run of operations
that keep all entries does nothing but open lists), together
`Negotiator.empty_list_no_constraint`.
-/

namespace ContentNegotiation

/-! ## One axis -/

namespace AxisScore

variable {α : Type} [AxisValue α]

/-- An unset list scores as the empty one. -/
theorem of_getD (accepted : Option (AcceptList α)) (value : Option α) :
    AxisScore.of (some (accepted.getD [])) value = AxisScore.of accepted value := by
  cases accepted with
  | none => rfl
  | some l => rfl

/-- An unset list rejects as the empty one, nothing. -/
theorem rejects_getD (accepted : Option (AcceptList α)) (score : AxisScore) :
    rejects (some (accepted.getD [])) score = rejects accepted score := by
  cases accepted with
  | none => rfl
  | some l => rfl

end AxisScore

/-! ## Opening lists -/

/-- The entries of an axis; an unset list has none. -/
def Preferences.entries (p : Preferences) (a : Axis) : AcceptList a.Value :=
  (p.get a).getD []

/-- Some of the unset lists have become empty ones, and nothing else has changed. -/
def Preferences.Opens (p q : Preferences) : Prop :=
  ∀ a, q.get a = p.get a ∨ p.get a = none ∧ q.get a = some []

namespace Preferences.Opens

variable {p q r : Preferences}

theorem refl (p : Preferences) : p.Opens p :=
  fun _ => Or.inl rfl

theorem trans (h : p.Opens q) (h' : q.Opens r) : p.Opens r := by
  intro a
  rcases h' a with hsame | ⟨hunset, hopen⟩
  · rw [hsame]
    exact h a
  · rcases h a with heq | ⟨-, hq⟩
    · exact Or.inr ⟨heq ▸ hunset, hopen⟩
    · rw [hunset] at hq
      cases hq

/-- No entry is gained or lost. -/
theorem entries_eq (h : p.Opens q) (a : Axis) : q.entries a = p.entries a := by
  rcases h a with hsame | ⟨hunset, hopen⟩
  · rw [entries, hsame, entries]
  · rw [entries, entries, hunset, hopen]
    rfl

end Preferences.Opens

theorem Preferences.opens_set (p : Preferences) (a : Axis) :
    p.Opens (p.set a (some (p.entries a))) := by
  intro b
  by_cases hb : b = a
  · subst hb
    rw [PerAxis.get_set_self, entries]
    cases p.get b with
    | none => exact Or.inr ⟨rfl, rfl⟩
    | some l => exact Or.inl rfl
  · exact Or.inl (PerAxis.get_set_of_ne p hb _)

/-! ## Judging -/

namespace Negotiator

/-- The preferences `p` and `q` lead to the same scores, rankings and selections. -/
structure JudgesAlike (n : Negotiator) (p q : Preferences) : Prop where
  score : ∀ v, n.score q v = n.score p v
  rank : ∀ variants, n.rank q variants = n.rank p variants
  select : ∀ variants language, n.select q variants language = n.select p variants language

variable {n : Negotiator} {p q : Preferences}

/-- All that is judged is judged by scores. -/
theorem judgesAlike_of_score (h : ∀ v, n.score q v = n.score p v) : n.JudgesAlike p q := by
  have hcandidates : ∀ variants, n.candidates q variants = n.candidates p variants := by
    intro variants
    simp only [candidates, h]
  refine ⟨h, fun variants => ?_, fun variants language => ?_⟩
  · rw [rank, hcandidates, rank]
  · rw [select, tied, hcandidates, select, tied]

/-- A score depends on no more than the entries. -/
theorem score_eq_of_entries_eq (h : ∀ a, q.entries a = p.entries a) (v : Variant) :
    n.score q v = n.score p v := by
  have hpad : ∀ r : Preferences, n.score r v = n.score
      ⟨some (r.entries .mediaType), some (r.entries .language), some (r.entries .charset),
        some (r.entries .coding)⟩ v := by
    intro r
    simp only [score, PerAxis.zipWith, Preferences.entries, PerAxis.get, AxisScore.of_getD,
      AxisScore.rejects_getD]
  rw [hpad q, hpad p, h, h, h, h]

/-- **Opening lists changes no judgement.** -/
theorem judgesAlike_of_opens (h : p.Opens q) : n.JudgesAlike p q :=
  judgesAlike_of_score (score_eq_of_entries_eq h.entries_eq)

end Negotiator

/-! ## Clients -/

namespace Client

/-- An operation that may open a list but changes no entry: a question, or an edit that fails or
gives the list back. -/
def Operation.KeepsEntries : Operation → Prop
  | .ask _ => True
  | .editAccepted _ edit => ∀ l edited, edit l = .ok edited → edited = l
  | _ => False

/-- An addition with a quality out of range fails on every list. -/
theorem add_eq_error {α : Type} {x : Single} (h : Quality.ofSingle x = none) (l : AcceptList α)
    (v : α) : l.add v x = .error (.quality x) := by
  rw [AcceptList.add, readQuality, h]
  rfl

theorem keepsEntries_add {x : Single} (h : Quality.ofSingle x = none) (a : Axis) (v : a.Value) :
    (Operation.editAccepted a (AcceptList.add · v x)).KeepsEntries := by
  intro l edited hadd
  have hfail := (add_eq_error h l v).symm.trans hadd
  cases hfail

theorem opens_perform [RegexEngine] (c : Client) {op : Operation} (h : op.KeepsEntries) :
    c.preferences.Opens (c.perform op).2.preferences := by
  cases op with
  | ask q =>
      have hclone := congrArg Client.preferences (clone_ask c q)
      have hsame : (c.ask q).2.preferences = c.preferences := hclone
      rw [perform, hsame]
      exact .refl _
  | editAccepted a edit =>
      have hopen := c.preferences.opens_set a
      simp only [perform, editAccepted]
      cases hedit : edit ((c.accepted a).getD []) with
      | error e => exact hopen
      | ok edited =>
          rw [h _ _ hedit]
          exact hopen
  | _ => exact h.elim

/-- **A run of operations that keep all entries does nothing but open lists.** -/
theorem opens_run [RegexEngine] (c : Client) {ops : List Operation}
    (h : ∀ op ∈ ops, op.KeepsEntries) :
    c.preferences.Opens (c.run ops).preferences := by
  induction ops generalizing c with
  | nil => exact .refl _
  | cons op ops ih =>
      have hfirst := opens_perform c (h op (by simp))
      have hrest := ih (c.perform op).2 fun op' hop => h op' (by simp [hop])
      exact hfirst.trans hrest

end Client

/-- **An empty list states no constraint.** Where some unset lists are replaced by empty ones, every
score, ranking and selection stays as it is. An addition that fails reports the quality and opens
the list without an entry. After any run of such additions, and of whatever else keeps all entries,
the entries are as before, and so is every judgement. -/
theorem Negotiator.empty_list_no_constraint [RegexEngine] (n : Negotiator) :
    (∀ p q : Preferences, (∀ a, q.get a = p.get a ∨ p.get a = none ∧ q.get a = some []) →
      n.JudgesAlike p q) ∧
    (∀ (c : Client) (a : Axis) (v : a.Value) (x : Single), Quality.ofSingle x = none →
      (Client.Operation.editAccepted a (AcceptList.add · v x)).KeepsEntries ∧
      (c.editAccepted a (AcceptList.add · v x)).1 = .error (.quality x) ∧
      (c.editAccepted a (AcceptList.add · v x)).2.accepted a = some (c.preferences.entries a)) ∧
    ∀ (c : Client) (ops : List Client.Operation), (∀ op ∈ ops, op.KeepsEntries) →
      (∀ a, (c.run ops).preferences.entries a = c.preferences.entries a) ∧
      n.JudgesAlike c.preferences (c.run ops).preferences ∧
      ∀ variants language, (c.run ops).select n variants language = c.select n variants language := by
  refine ⟨fun p q h => judgesAlike_of_opens h, fun c a v x hx => ?_, fun c ops hops => ?_⟩
  · rw [Client.editAccepted, Client.add_eq_error hx]
    exact ⟨Client.keepsEntries_add hx a v, rfl, PerAxis.get_set_self _ a _⟩
  · have hopens := c.opens_run hops
    have halike : n.JudgesAlike c.preferences (c.run ops).preferences := judgesAlike_of_opens hopens
    exact ⟨hopens.entries_eq, halike, halike.select⟩

/-! ### Additions beyond the highest quality -/

namespace Refused

def tooHigh : Single := Binary.ofNat _ 2

/-- A client of which nothing is known. -/
def client : Client := .withCatalog ⟨[], []⟩

/-- English is added twice as much as can be, then likewise a media type. -/
def additions : List Client.Operation :=
  [.editAccepted .language (AcceptList.add · (LanguageTag.ofTag "en".toList) tooHigh),
    .ask (.accepted .language), .editAccepted .mediaType (AcceptList.add · .textHtml tooHigh)]

attribute [local instance] Regex.engine

/-- Two lists are opened, and nothing is judged otherwise; nor would it be with all four open. -/
theorem additions_change_nothing :
    Quality.ofSingle tooHigh = none ∧ (∀ op ∈ additions, op.KeepsEntries) ∧
      (client.run additions).preferences = ⟨some [], some [], none, none⟩ ∧
      Negotiator.standard.JudgesAlike .unset ⟨some [], some [], none, none⟩ ∧
      Negotiator.standard.JudgesAlike .unset ⟨some [], some [], some [], some []⟩ := by
  have hrange : Quality.ofSingle tooHigh = none := by decide
  obtain ⟨hopen, hadd, hrun⟩ := Negotiator.empty_list_no_constraint .standard
  have hkeeps : ∀ op ∈ additions, op.KeepsEntries := by
    simp only [additions, List.forall_mem_cons, List.not_mem_nil, false_implies, implies_true,
      and_true]
    exact ⟨(hadd client .language _ tooHigh hrange).1, trivial,
      (hadd client .mediaType _ tooHigh hrange).1⟩
  refine ⟨hrange, hkeeps, rfl, (hrun client additions hkeeps).2.1, hopen _ _ fun a => ?_⟩
  cases a <;> exact Or.inr ⟨rfl, rfl⟩

end Refused

end ContentNegotiation
