import ContentNegotiation.Proofs.Template.Pattern
import ContentNegotiation.Proofs.Traversal

/-!
# The scan of a pattern

The scan reads a character at a time and remembers what it has read since the last brace, and the
place of a brace that is open (`Pattern.Reached`).  One step either meets a brace at fault or goes
on in that form (`Pattern.splitFrom_step`), so the scan stops at the first fault if there is one.

Where there is none it takes apart what proper parts spell (`Pattern.splitFrom_spelled`).  Text
without braces is only held, and a reference is read as a whole.

Principal results: `Pattern.split_eq_ok_iff` (a pattern is split into the only proper and separated
parts that spell it), `Pattern.exists_split_iff` (whatever proper parts spell is split) and
`Pattern.split_eq_error_iff` (a pattern is refused for its first fault).
-/

namespace ContentNegotiation

namespace Pattern

/-! ## One character, one part -/

section Scan

variable {offset place : Nat} {opened : Option Nat} {held t name : Text} {parts : List Part}

theorem splitFrom_open : splitFrom offset none held ('\x7b' :: t) =
    (splitFrom (offset + '\x7b'.utf8Size) (some offset) [] t).map
      (literalPart held.reverse ++ ·) := by
  simp only [splitFrom, if_true]

theorem splitFrom_nested :
    splitFrom offset (some place) held ('\x7b' :: t) = .error (.unbalanced offset) := by
  simp only [splitFrom, if_true]

theorem splitFrom_stray :
    splitFrom offset none held ('\x7d' :: t) = .error (.unbalanced offset) := by
  simp only [splitFrom, if_neg (show '\x7d' ≠ '\x7b' by decide), if_true]

theorem splitFrom_unnamed (h : Text.allBlank held.reverse = true) :
    splitFrom offset (some place) held ('\x7d' :: t) = .error (.emptyName place) := by
  simp only [splitFrom, if_neg (show '\x7d' ≠ '\x7b' by decide), if_true, h]

theorem splitFrom_close (h : Text.allBlank held.reverse = false) :
    splitFrom offset (some place) held ('\x7d' :: t) =
      (splitFrom (offset + '\x7d'.utf8Size) none [] t).map (.reference held.reverse :: ·) := by
  simp only [splitFrom, if_neg (show '\x7d' ≠ '\x7b' by decide), if_true, h,
    Bool.false_eq_true, if_false]

theorem splitFrom_other {c : Char} (ho : c ≠ '\x7b') (hc : c ≠ '\x7d') :
    splitFrom offset opened held (c :: t) =
      splitFrom (offset + c.utf8Size) opened (c :: held) t := by
  simp only [splitFrom, if_neg ho, if_neg hc]

/-- Text without braces is held. -/
theorem splitFrom_append (hname : NoBraces name) :
    splitFrom offset opened held (name ++ t) =
      splitFrom (offset + Text.byteSize name) opened (name.reverse ++ held) t := by
  induction name generalizing offset held with
  | nil => rfl
  | cons c name ih =>
      obtain ⟨⟨ho, hc⟩, hrest⟩ := NoBraces.cons_iff.mp hname
      rw [List.cons_append, splitFrom_other ho hc, ih hrest]
      simp [Nat.add_assoc]

theorem splitFrom_reference (hname : IsName name) :
    splitFrom offset none held ('\x7b' :: (name ++ '\x7d' :: t)) =
      (splitFrom (offset + Text.byteSize ('\x7b' :: (name ++ ['\x7d']))) none [] t).map fun parts =>
        literalPart held.reverse ++ .reference name :: parts := by
  have hheld : (name.reverse ++ []).reverse = name := by simp
  have hsize : offset + '\x7b'.utf8Size + Text.byteSize name + '\x7d'.utf8Size =
      offset + Text.byteSize ('\x7b' :: (name ++ ['\x7d'])) := by
    simp [Nat.add_assoc]
  rw [splitFrom_open, splitFrom_append hname.noBraces,
    splitFrom_close (by rw [hheld]; exact hname.notBlank), hheld, hsize]
  cases splitFrom _ none [] t <;> rfl

/-- **The scan takes apart what proper parts spell**, with the literal that is held before them. -/
theorem splitFrom_spelled (h : ∀ p ∈ parts, p.Proper)
    (hs : Separated (literalPart held.reverse ++ parts)) :
    splitFrom offset none held (spelled parts) = .ok (literalPart held.reverse ++ parts) := by
  induction parts generalizing offset held with
  | nil => simp [splitFrom]
  | cons p parts ih =>
      have hp := h p List.mem_cons_self
      have hparts : ∀ q ∈ parts, q.Proper := fun q hq => h q (List.mem_cons_of_mem p hq)
      cases p with
      | literal text =>
          cases held with
          | cons c held =>
              -- a literal is held, and another one must not follow it
              rw [literalPart, if_neg (by simp)] at hs
              exact absurd (List.isChain_cons_cons.mp hs).1 id
          | nil =>
              have hheld : literalPart (text.reverse ++ []).reverse = [.literal text] := by
                simp [literalPart, hp.1]
              rw [spelled_cons, Part.render, splitFrom_append hp.2, ih hparts, hheld]
              · rfl
              · rw [hheld]
                exact hs
      | reference name =>
          have hrest : Separated (literalPart [].reverse ++ parts) := by
            exact Separated.tail (List.isChain_append.mp hs).2.1
          rw [spelled_reference, splitFrom_reference hp, ih hparts hrest]
          rfl

/-! ## What a step of the scan does -/

/-- What the scan has read so far, with what it remembers of it: the number of bytes, the place of
the brace that is open, and the text since the last brace, last character first. -/
structure Reached (past : Text) (offset : Nat) (opened : Option Nat) (held : Text) : Prop where
  sound : Sound past
  offset_eq : offset = Text.byteSize past
  noBraces : NoBraces held
  closed : opened = none → ¬ IsOpen past
  open_at : ∀ start, opened = some start →
    ∃ front, past = front ++ '\x7b' :: held.reverse ∧ start = Text.byteSize front

namespace Reached

variable {past : Text}

theorem start : Reached [] 0 none [] where
  sound := sound_nil
  offset_eq := rfl
  noBraces := NoBraces.nil
  closed := fun _ => not_isOpen_nil
  open_at := by
    intro start h
    cases h

theorem noBraces_reverse (h : Reached past offset opened held) : NoBraces held.reverse :=
  NoBraces.reverse_iff.mpr h.noBraces

theorem isOpen (h : Reached past offset (some place) held) : IsOpen past := by
  obtain ⟨front, hpast, -⟩ := h.open_at place rfl
  exact ⟨front, _, h.noBraces_reverse, hpast⟩

/-- An opening brace where nothing is open. -/
theorem opens (h : Reached past offset none held) :
    Reached (past ++ ['\x7b']) (offset + '\x7b'.utf8Size) (some offset) [] where
  sound := by
    refine sound_concat_iff.mpr ⟨h.sound, fun e he => ?_⟩
    cases he with
    | nested hopen => exact h.closed rfl hopen
  offset_eq := by simp [h.offset_eq]
  noBraces := NoBraces.nil
  closed := by
    intro hnone
    cases hnone
  open_at := by
    rintro start hstart
    cases hstart
    exact ⟨past, rfl, h.offset_eq⟩

/-- A closing brace behind a name. -/
theorem closes (h : Reached past offset (some place) held)
    (hheld : Text.allBlank held.reverse = false) :
    Reached (past ++ ['\x7d']) (offset + '\x7d'.utf8Size) none [] where
  sound := by
    refine sound_concat_iff.mpr ⟨h.sound, fun e he => ?_⟩
    cases he with
    | stray hclosed => exact hclosed h.isOpen
    | unnamed heq hname hblank =>
        obtain ⟨front, hpast, -⟩ := h.open_at place rfl
        obtain ⟨-, rfl⟩ := open_inj h.noBraces_reverse hname (hpast.symm.trans heq)
        rw [hheld] at hblank
        cases hblank
  offset_eq := by simp [h.offset_eq]
  noBraces := NoBraces.nil
  closed := fun _ => not_isOpen_close past
  open_at := by
    intro start hstart
    cases hstart

/-- Any other character. -/
theorem holds (h : Reached past offset opened held) {c : Char} (ho : c ≠ '\x7b')
    (hc : c ≠ '\x7d') : Reached (past ++ [c]) (offset + c.utf8Size) opened (c :: held) where
  sound := h.sound.append (NoBraces.cons_iff.mpr ⟨⟨ho, hc⟩, NoBraces.nil⟩)
  offset_eq := by simp [h.offset_eq]
  noBraces := NoBraces.cons_iff.mpr ⟨⟨ho, hc⟩, h.noBraces⟩
  closed := by
    intro hnone
    rw [isOpen_append_iff (NoBraces.cons_iff.mpr ⟨⟨ho, hc⟩, NoBraces.nil⟩)]
    exact h.closed hnone
  open_at := by
    intro start hstart
    obtain ⟨front, hpast, hfront⟩ := h.open_at start hstart
    exact ⟨front, by simp [hpast], hfront⟩

end Reached

/-- **One step of the scan** meets a brace at fault, or goes on behind the character. -/
theorem splitFrom_step {past : Text} (h : Reached past offset opened held) (c : Char) (t : Text) :
    (∃ e, Fault past c e ∧ splitFrom offset opened held (c :: t) = .error e) ∨
      ∃ offset' opened' held' f, Reached (past ++ [c]) offset' opened' held' ∧
        splitFrom offset opened held (c :: t) = (splitFrom offset' opened' held' t).map f := by
  by_cases ho : c = '\x7b'
  · subst ho
    cases opened with
    | none => exact Or.inr ⟨_, _, _, _, h.opens, splitFrom_open⟩
    | some place =>
        refine Or.inl ⟨_, .nested h.isOpen, ?_⟩
        rw [splitFrom_nested, h.offset_eq]
  by_cases hc : c = '\x7d'
  · subst hc
    cases opened with
    | none =>
        refine Or.inl ⟨_, .stray (h.closed rfl), ?_⟩
        rw [splitFrom_stray, h.offset_eq]
    | some place =>
        cases hblank : Text.allBlank held.reverse with
        | false => exact Or.inr ⟨_, _, _, _, h.closes hblank, splitFrom_close hblank⟩
        | true =>
            obtain ⟨front, hpast, hstart⟩ := h.open_at place rfl
            refine Or.inl ⟨_, .unnamed hpast h.noBraces_reverse hblank, ?_⟩
            rw [splitFrom_unnamed hblank, hstart]
  · refine Or.inr ⟨_, _, _, id, h.holds ho hc, ?_⟩
    rw [splitFrom_other ho hc]
    cases splitFrom (offset + c.utf8Size) opened (c :: held) t <;> rfl

/-- **The scan stops at the first fault.** -/
theorem firstFault_of_splitFrom {past : Text} {e : PatternError}
    (h : Reached past offset opened held) (herror : splitFrom offset opened held t = .error e) :
    FirstFault (past ++ t) e := by
  induction t generalizing past offset opened held with
  | nil =>
      rw [List.append_nil]
      cases opened with
      | none => cases herror
      | some place =>
          cases herror
          obtain ⟨front, hpast, rfl⟩ := h.open_at place rfl
          exact .unclosed hpast h.noBraces_reverse h.sound
  | cons c t ih =>
      rcases splitFrom_step h c t with ⟨e', hfault, hstep⟩ | ⟨_, _, _, f, hnext, hstep⟩
      · rw [hstep] at herror
        cases herror
        exact .brace rfl h.sound hfault
      · rw [hstep] at herror
        have hlater := ih hnext (map_eq_error_iff.mp herror)
        rwa [List.append_assoc, List.singleton_append] at hlater

/-! ## What the scan finds -/

theorem proper_literalPart (h : NoBraces held) : ∀ p ∈ literalPart held.reverse, p.Proper := by
  intro p hp
  unfold literalPart at hp
  split at hp
  · cases hp
  · rename_i hne
    rw [List.mem_singleton.mp hp]
    exact ⟨fun hempty => hne (by rw [hempty]; rfl), NoBraces.reverse_iff.mpr h⟩

theorem Separated.literalPart_append (t : Text) (h : Separated (.reference name :: parts)) :
    Separated (literalPart t ++ .reference name :: parts) := by
  unfold literalPart
  split
  · exact h
  · exact h.cons_literal

theorem separated_literalPart (t : Text) : Separated (literalPart t) := by
  unfold literalPart
  split
  · exact List.isChain_nil
  · exact List.isChain_singleton _

/-- **The parts that the scan finds are proper and separated**, and behind an open brace the first
one is a reference. -/
theorem proper_of_splitFrom (hheld : NoBraces held)
    (h : splitFrom offset opened held t = .ok parts) :
    (∀ p ∈ parts, p.Proper) ∧ Separated parts ∧
      (opened.isSome → ∃ name ps, parts = .reference name :: ps) := by
  induction t generalizing offset opened held parts with
  | nil =>
      cases opened with
      | some place => cases h
      | none =>
          cases h
          exact ⟨proper_literalPart hheld, separated_literalPart _, fun hsome => nomatch hsome⟩
  | cons c t ih =>
      by_cases ho : c = '\x7b'
      · subst ho
        cases opened with
        | some place =>
            rw [splitFrom_nested] at h
            cases h
        | none =>
            rw [splitFrom_open] at h
            obtain ⟨ps, hps, rfl⟩ := exists_of_map_eq_ok h
            obtain ⟨hproper, hseparated, hfirst⟩ := ih NoBraces.nil hps
            obtain ⟨name, qs, rfl⟩ := hfirst rfl
            refine ⟨?_, hseparated.literalPart_append _, fun hsome => nomatch hsome⟩
            exact List.forall_mem_append.mpr ⟨proper_literalPart hheld, hproper⟩
      by_cases hc : c = '\x7d'
      · subst hc
        cases opened with
        | none =>
            rw [splitFrom_stray] at h
            cases h
        | some place =>
            cases hblank : Text.allBlank held.reverse with
            | true =>
                rw [splitFrom_unnamed hblank] at h
                cases h
            | false =>
                rw [splitFrom_close hblank] at h
                obtain ⟨ps, hps, rfl⟩ := exists_of_map_eq_ok h
                obtain ⟨hproper, hseparated, -⟩ := ih NoBraces.nil hps
                have hname : IsName held.reverse := ⟨NoBraces.reverse_iff.mpr hheld, hblank⟩
                exact ⟨List.forall_mem_cons.mpr ⟨hname, hproper⟩, hseparated.cons_reference,
                  fun _ => ⟨_, _, rfl⟩⟩
      · rw [splitFrom_other ho hc] at h
        exact ih (NoBraces.cons_iff.mpr ⟨⟨ho, hc⟩, hheld⟩) h

end Scan

section Split

variable {pattern : Text} {parts : List Part}

/-- **A pattern is split into the only proper and separated parts that spell it.** -/
theorem split_eq_ok_iff :
    split pattern = .ok parts ↔
      (∀ p ∈ parts, p.Proper) ∧ Separated parts ∧ spelled parts = pattern := by
  constructor
  · intro h
    obtain ⟨hproper, hseparated, -⟩ := proper_of_splitFrom NoBraces.nil h
    exact ⟨hproper, hseparated, split_render h⟩
  · rintro ⟨hproper, hseparated, rfl⟩
    exact splitFrom_spelled hproper hseparated

/-- There is only one way to spell a pattern. -/
theorem spelled_inj {ps qs : List Part} (hps : ∀ p ∈ ps, p.Proper) (hps' : Separated ps)
    (hqs : ∀ q ∈ qs, q.Proper) (hqs' : Separated qs) (h : spelled ps = spelled qs) : ps = qs := by
  have hleft := split_eq_ok_iff.mpr ⟨hps, hps', h⟩
  have hright := split_eq_ok_iff.mpr ⟨hqs, hqs', rfl⟩
  exact Except.ok.inj (hleft.symm.trans hright)

/-- A text without braces is spelled by a literal. -/
theorem eq_literal_of_spelled (hproper : ∀ p ∈ parts, p.Proper) (hseparated : Separated parts)
    {text : Text} (htext : NoBraces text) (hne : text ≠ []) (h : spelled parts = text) :
    parts = [.literal text] := by
  refine spelled_inj hproper hseparated ?_ (List.isChain_singleton _) ?_
  · intro q hq
    rw [List.mem_singleton.mp hq]
    exact ⟨hne, htext⟩
  · rw [h, spelled_cons, spelled_nil, List.append_nil, Part.render]

theorem firstFault_of_split {e : PatternError} (h : split pattern = .error e) :
    FirstFault pattern e :=
  firstFault_of_splitFrom .start h

/-- **What proper parts spell is split**, though neighbouring literals become one. -/
theorem exists_split_iff :
    (∃ parts, split pattern = .ok parts) ↔
      ∃ parts, (∀ p ∈ parts, p.Proper) ∧ spelled parts = pattern := by
  constructor
  · rintro ⟨parts, h⟩
    obtain ⟨hproper, -, hspelled⟩ := split_eq_ok_iff.mp h
    exact ⟨parts, hproper, hspelled⟩
  · rintro ⟨parts, hproper, rfl⟩
    cases h : split (spelled parts) with
    | ok ps => exact ⟨ps, rfl⟩
    | error e => exact absurd (firstFault_of_split h) (not_firstFault_spelled hproper e)

/-- **A pattern is refused for its first fault.** -/
theorem split_eq_error_iff {e : PatternError} :
    split pattern = .error e ↔ FirstFault pattern e := by
  refine ⟨firstFault_of_split, fun hfault => ?_⟩
  cases h : split pattern with
  | ok parts =>
      obtain ⟨hproper, -, rfl⟩ := split_eq_ok_iff.mp h
      exact absurd hfault (not_firstFault_spelled hproper e)
  | error e' => rw [(firstFault_of_split h).unique hfault]

/-- Places are counted in bytes, of which `ü` has two. -/
example : split "ü\x7ba\x7d \x7d\x7b".toList = .error (.unbalanced 6) := by decide

end Split

end Pattern

end ContentNegotiation
