import ContentNegotiation.Proofs.Text.Cutting
import ContentNegotiation.Template.Pattern
import Mathlib.Data.List.Chain
import Mathlib.Data.List.Induction

/-!
# The grammar of patterns

What a pattern may look like, and what is wrong with it otherwise, said without reference to the
scan that splits it:

* `Part.Proper` — a literal is not empty, a name is not blank, and neither holds a brace.
* `Pattern.Separated` — no two literals stand next to each other.
* `Pattern.Refers` — a reference to the name stands in the pattern.
* `Pattern.Fault` — a brace at fault, given the text before it.  All that matters of that text is
  whether a reference is open at its end (`Pattern.IsOpen`).
* `Pattern.FirstFault` — the fault that comes first from the left.

Principal results: `Pattern.not_firstFault_spelled` (what proper parts spell has no fault),
`Pattern.FirstFault.unique` and `Pattern.exists_reference_of_close` (a closing brace ends one of the
parts).
-/

namespace ContentNegotiation

namespace Pattern

/-- A text without braces. -/
structure NoBraces (t : Text) : Prop where
  opening : '\x7b' ∉ t
  closing : '\x7d' ∉ t

namespace NoBraces

variable {t u : Text}

theorem nil : NoBraces [] := ⟨List.not_mem_nil, List.not_mem_nil⟩

theorem cons_iff {c : Char} : NoBraces (c :: t) ↔ (c ≠ '\x7b' ∧ c ≠ '\x7d') ∧ NoBraces t := by
  constructor
  · rintro ⟨ho, hc⟩
    simp only [List.mem_cons, not_or] at ho hc
    exact ⟨⟨Ne.symm ho.1, Ne.symm hc.1⟩, ho.2, hc.2⟩
  · rintro ⟨⟨ho, hc⟩, h⟩
    exact ⟨by simp [Ne.symm ho, h.opening], by simp [Ne.symm hc, h.closing]⟩

theorem append_iff : NoBraces (t ++ u) ↔ NoBraces t ∧ NoBraces u := by
  constructor
  · rintro ⟨ho, hc⟩
    simp only [List.mem_append, not_or] at ho hc
    exact ⟨⟨ho.1, hc.1⟩, ho.2, hc.2⟩
  · rintro ⟨ht, hu⟩
    exact ⟨by simp [ht.opening, hu.opening], by simp [ht.closing, hu.closing]⟩

theorem reverse_iff : NoBraces t.reverse ↔ NoBraces t := by
  constructor
  · rintro ⟨ho, hc⟩
    exact ⟨fun h => ho (List.mem_reverse.mpr h), fun h => hc (List.mem_reverse.mpr h)⟩
  · rintro ⟨ho, hc⟩
    exact ⟨fun h => ho (List.mem_reverse.mp h), fun h => hc (List.mem_reverse.mp h)⟩

/-- A blank text holds no brace. -/
theorem of_allBlank (h : Text.allBlank t = true) : NoBraces t :=
  ⟨Text.not_mem_of_allBlank h (by decide), Text.not_mem_of_allBlank h (by decide)⟩

end NoBraces

/-- A name that a reference may have. -/
structure IsName (name : Text) : Prop where
  noBraces : NoBraces name
  notBlank : Text.allBlank name = false

namespace Part

/-- A literal that is not empty, or a reference with a name, and no brace in either. -/
def Proper : Part → Prop
  | literal text => text ≠ [] ∧ NoBraces text
  | reference name => IsName name

/-- Two parts that may stand next to each other: literals do not. -/
def MayPrecede : Part → Part → Prop
  | literal _, literal _ => False
  | _, _ => True

end Part

/-- The parts as they are written, one after the other. -/
def spelled (parts : List Part) : Text :=
  (parts.map Part.render).flatten

@[simp] theorem spelled_nil : spelled [] = [] := rfl

@[simp] theorem spelled_cons (p : Part) (ps : List Part) :
    spelled (p :: ps) = p.render ++ spelled ps := rfl

@[simp] theorem spelled_append (ps qs : List Part) :
    spelled (ps ++ qs) = spelled ps ++ spelled qs := by
  simp [spelled]

/-- No two literals stand next to each other. -/
def Separated (parts : List Part) : Prop :=
  parts.IsChain Part.MayPrecede

theorem Separated.tail {p : Part} {ps : List Part} (h : Separated (p :: ps)) : Separated ps :=
  List.IsChain.tail h

theorem Separated.cons_reference {name : Text} {ps : List Part} (h : Separated ps) :
    Separated (.reference name :: ps) := by
  cases ps with
  | nil => exact List.isChain_singleton _
  | cons p ps => exact List.isChain_cons_cons.mpr ⟨trivial, h⟩

theorem Separated.cons_literal {name text : Text} {ps : List Part}
    (h : Separated (.reference name :: ps)) : Separated (.literal text :: .reference name :: ps) :=
  List.isChain_cons_cons.mpr ⟨trivial, h⟩

/-- The pattern refers to the name. -/
def Refers (pattern name : Text) : Prop :=
  NoBraces name ∧ '\x7b' :: (name ++ ['\x7d']) <:+: pattern

/-! ## Braces at fault -/

/-- A reference is open at the end of the text. -/
def IsOpen (t : Text) : Prop :=
  ∃ front name, NoBraces name ∧ t = front ++ '\x7b' :: name

/-- A brace at fault, given the text before it, and the error. -/
inductive Fault (before : Text) : Char → PatternError → Prop where
  /-- A reference is opened inside another one. -/
  | nested : IsOpen before → Fault before '\x7b' (.unbalanced (Text.byteSize before))
  /-- There is nothing to close. -/
  | stray : ¬ IsOpen before → Fault before '\x7d' (.unbalanced (Text.byteSize before))
  /-- The reference that is closed has no name. -/
  | unnamed {front name : Text} : before = front ++ '\x7b' :: name → NoBraces name →
      Text.allBlank name = true → Fault before '\x7d' (.emptyName (Text.byteSize front))

/-- No brace of the text is at fault. -/
def Sound (t : Text) : Prop :=
  ∀ before c after, t = before ++ c :: after → ∀ e, ¬ Fault before c e

/-- The first brace at fault from the left, or else an opening brace that is never closed. -/
inductive FirstFault (pattern : Text) : PatternError → Prop where
  | brace {before : Text} {c : Char} {after : Text} {e : PatternError} :
      pattern = before ++ c :: after → Sound before → Fault before c e → FirstFault pattern e
  | unclosed {front name : Text} : pattern = front ++ '\x7b' :: name → NoBraces name →
      Sound pattern → FirstFault pattern (.unbalanced (Text.byteSize front))

section Faults

variable {t u before name : Text} {c : Char} {e : PatternError}

theorem not_isOpen_nil : ¬ IsOpen [] := by
  rintro ⟨front, name, -, h⟩
  cases front <;> cases h

/-- Nothing is open behind a closing brace. -/
theorem not_isOpen_close (t : Text) : ¬ IsOpen (t ++ ['\x7d']) := by
  rintro ⟨front, name, hname, h⟩
  rcases List.append_eq_append_iff.mp h with ⟨a, -, ha⟩ | ⟨a, -, ha⟩
  · have hmem : '\x7b' ∈ ['\x7d'] := by simp [ha]
    exact absurd hmem (by decide)
  · have hmem : '\x7d' ∈ '\x7b' :: name := by simp [ha]
    exact hname.closing (by simpa using hmem)

/-- What holds no brace opens and closes nothing. -/
theorem isOpen_append_iff (hu : NoBraces u) : IsOpen (t ++ u) ↔ IsOpen t := by
  constructor
  · rintro ⟨front, name, hname, h⟩
    rcases List.append_eq_append_iff.mp h with ⟨a, rfl, rfl⟩ | ⟨a, rfl, ha⟩
    · exact absurd (by simp) hu.opening
    · cases a with
      | nil =>
          rw [List.nil_append] at ha
          exact absurd (by simp [← ha]) hu.opening
      | cons d a =>
          obtain ⟨rfl, rfl⟩ := List.cons.inj ha
          exact ⟨front, a, (NoBraces.append_iff.mp hname).1, rfl⟩
  · rintro ⟨front, name, hname, rfl⟩
    exact ⟨front, name ++ u, NoBraces.append_iff.mpr ⟨hname, hu⟩, by simp⟩

theorem Fault.isBrace (h : Fault before c e) : c = '\x7b' ∨ c = '\x7d' := by
  cases h with
  | nested _ => exact Or.inl rfl
  | stray _ => exact Or.inr rfl
  | unnamed _ _ => exact Or.inr rfl

/-- The name that is open at the end of a text is found in only one way. -/
theorem open_inj {front front' name' : Text} (hname : NoBraces name) (hname' : NoBraces name')
    (h : front ++ '\x7b' :: name = front' ++ '\x7b' :: name') : front = front' ∧ name = name' :=
  Text.append_cons_inj_last hname.opening hname'.opening h

theorem Fault.unique {e' : PatternError} (h : Fault before c e) (h' : Fault before c e') :
    e = e' := by
  cases h with
  | nested _ => cases h' with
    | nested _ => rfl
  | stray hclosed => cases h' with
    | stray _ => rfl
    | unnamed heq hname _ => exact absurd ⟨_, _, hname, heq⟩ hclosed
  | unnamed heq hname _ => cases h' with
    | stray hclosed => exact absurd ⟨_, _, hname, heq⟩ hclosed
    | unnamed heq' hname' _ => rw [(open_inj hname hname' (heq.symm.trans heq')).1]

theorem sound_nil : Sound [] := by
  intro before c after h
  cases before <;> cases h

theorem sound_concat_iff : Sound (t ++ [c]) ↔ Sound t ∧ ∀ e, ¬ Fault t c e := by
  constructor
  · intro h
    refine ⟨fun before d after ht => ?_, h t c [] rfl⟩
    exact h before d (after ++ [c]) (by rw [ht, List.append_assoc, List.cons_append])
  · rintro ⟨ht, hc⟩ before d after h
    rcases List.eq_nil_or_concat' after with rfl | ⟨after, x, rfl⟩
    · obtain ⟨rfl, hd⟩ := List.append_inj' h rfl
      rw [← (List.cons.inj hd).1]
      exact hc
    · have hinit := (List.append_inj' (h.trans (List.append_assoc before (d :: after) [x]).symm)
        rfl).1
      exact ht before d after hinit

/-- Text without braces adds no fault. -/
theorem Sound.append (ht : Sound t) (hu : NoBraces u) : Sound (t ++ u) := by
  induction u using List.reverseRecOn with
  | nil => rwa [List.append_nil]
  | append_singleton u c ih =>
      obtain ⟨hinit, hlast⟩ := NoBraces.append_iff.mp hu
      rw [← List.append_assoc, sound_concat_iff]
      refine ⟨ih hinit, fun e he => ?_⟩
      obtain ⟨⟨ho, hc⟩, -⟩ := NoBraces.cons_iff.mp hlast
      exact he.isBrace.elim ho hc

/-- A brace at fault is not before one that has nothing at fault before it. -/
theorem Fault.eq_of_sound {a after after' : Text} {c' : Char} {e' : PatternError}
    (h : Fault before c e) (h' : Fault (before ++ a) c' e') (hs' : Sound (before ++ a))
    (heq : c :: after = a ++ c' :: after') : e = e' := by
  cases a with
  | nil =>
      obtain ⟨rfl, -⟩ := List.cons.inj heq
      rw [List.append_nil] at h'
      exact h.unique h'
  | cons d a =>
      obtain ⟨rfl, -⟩ := List.cons.inj heq
      exact absurd h (hs' before c a rfl e)

/-- Of two braces at fault that have nothing at fault before them neither comes first. -/
theorem Fault.unique_of_sound {before' after after' : Text} {c' : Char} {e' : PatternError}
    (h : Fault before c e) (hs : Sound before) (h' : Fault before' c' e') (hs' : Sound before')
    (heq : before ++ c :: after = before' ++ c' :: after') : e = e' := by
  rcases List.append_eq_append_iff.mp heq with ⟨a, rfl, ha⟩ | ⟨a, rfl, ha⟩
  · exact h.eq_of_sound h' hs' ha
  · exact (h'.eq_of_sound h hs ha).symm

/-- A pattern has at most one first fault. -/
theorem FirstFault.unique {e' : PatternError} (h : FirstFault t e) (h' : FirstFault t e') :
    e = e' := by
  cases h with
  | brace heq hs hf => cases h' with
    | brace heq' hs' hf' => exact hf.unique_of_sound hs hf' hs' (heq.symm.trans heq')
    | unclosed _ _ hs' => exact absurd hf (hs' _ _ _ heq _)
  | unclosed heq hname hs => cases h' with
    | brace heq' _ hf' => exact absurd hf' (hs _ _ _ heq' _)
    | unclosed heq' hname' _ => rw [(open_inj hname hname' (heq.symm.trans heq')).1]

end Faults

/-! ## What proper parts spell -/

section Spelled

variable {parts : List Part}

theorem spelled_reference (name : Text) (parts : List Part) :
    spelled (.reference name :: parts) = '\x7b' :: (name ++ '\x7d' :: spelled parts) := by
  simp [Part.render]

/-- **What proper parts spell has no fault**, and no reference is open at its end. -/
theorem sound_spelled (h : ∀ p ∈ parts, p.Proper) :
    Sound (spelled parts) ∧ ¬ IsOpen (spelled parts) := by
  induction parts using List.reverseRecOn with
  | nil => exact ⟨sound_nil, not_isOpen_nil⟩
  | append_singleton parts p ih =>
      obtain ⟨hs, ho⟩ := ih fun q hq => h q (List.mem_append_left _ hq)
      have hp : p.Proper := h p (by simp)
      rw [spelled_append, spelled_cons, spelled_nil, List.append_nil]
      cases p with
      | literal text =>
          exact ⟨hs.append hp.2, (isOpen_append_iff hp.2).not.mpr ho⟩
      | reference name =>
          have hopened : Sound (spelled parts ++ ['\x7b']) := by
            refine sound_concat_iff.mpr ⟨hs, fun e he => ?_⟩
            cases he with
            | nested hopen => exact ho hopen
          have hnamed : Sound (spelled parts ++ '\x7b' :: name) := by
            simpa using hopened.append hp.noBraces
          have hclosed : Sound ((spelled parts ++ '\x7b' :: name) ++ ['\x7d']) := by
            refine sound_concat_iff.mpr ⟨hnamed, fun e he => ?_⟩
            cases he with
            | stray hnot => exact hnot ⟨_, _, hp.noBraces, rfl⟩
            | unnamed heq hname hblank =>
                obtain ⟨-, rfl⟩ := open_inj hp.noBraces hname heq
                rw [hp.notBlank] at hblank
                cases hblank
          have hrender : spelled parts ++ (Part.reference name).render =
              (spelled parts ++ '\x7b' :: name) ++ ['\x7d'] := by
            simp [Part.render]
          rw [hrender]
          exact ⟨hclosed, not_isOpen_close _⟩

theorem not_firstFault_spelled (h : ∀ p ∈ parts, p.Proper) (e : PatternError) :
    ¬ FirstFault (spelled parts) e := by
  obtain ⟨hs, ho⟩ := sound_spelled h
  intro hf
  cases hf with
  | brace heq _ hfault => exact hs _ _ _ heq _ hfault
  | unclosed heq hname _ => exact ho ⟨_, _, hname, heq⟩

/-- **A closing brace ends a reference.**  What is before it and what is behind it are spelled by
the parts before the reference and behind it. -/
theorem exists_reference_of_close (h : ∀ p ∈ parts, p.Proper) {before after : Text}
    (heq : spelled parts = before ++ '\x7d' :: after) :
    ∃ ps name qs, parts = ps ++ .reference name :: qs ∧
      before = spelled ps ++ '\x7b' :: name ∧ spelled qs = after := by
  induction parts generalizing before with
  | nil => cases before <;> cases heq
  | cons p parts ih =>
      have hp := h p List.mem_cons_self
      have hparts : ∀ q ∈ parts, q.Proper := fun q hq => h q (List.mem_cons_of_mem p hq)
      cases p with
      | literal text =>
          rw [spelled_cons] at heq
          obtain ⟨rest, rfl, hrest⟩ := Text.append_eq_append_cons hp.2.closing heq
          obtain ⟨ps, name, qs, rfl, rfl, hqs⟩ := ih hparts hrest
          exact ⟨.literal text :: ps, name, qs, rfl, by simp [Part.render], hqs⟩
      | reference name =>
          have hfront : '\x7d' ∉ '\x7b' :: name := by
            simp [hp.noBraces.closing]
          rw [spelled_reference, ← List.cons_append] at heq
          obtain ⟨rest, rfl, hrest⟩ := Text.append_eq_append_cons hfront heq
          cases rest with
          | nil =>
              refine ⟨[], name, parts, rfl, by simp, ?_⟩
              exact (List.cons.inj hrest).2
          | cons d rest =>
              obtain ⟨rfl, hlater⟩ := List.cons.inj hrest
              obtain ⟨ps, other, qs, rfl, rfl, hqs⟩ := ih hparts hlater
              exact ⟨.reference name :: ps, other, qs, rfl, by simp [Part.render], hqs⟩

/-- A reference that stands in the text is one of the parts. -/
theorem exists_parts_of_reference (h : ∀ p ∈ parts, p.Proper) {before name after : Text}
    (hname : NoBraces name) (heq : spelled parts = before ++ '\x7b' :: (name ++ '\x7d' :: after)) :
    ∃ ps qs, parts = ps ++ .reference name :: qs ∧ spelled ps = before ∧ spelled qs = after := by
  have hclose : spelled parts = (before ++ '\x7b' :: name) ++ '\x7d' :: after := by
    simp [heq]
  obtain ⟨ps, other, qs, rfl, hfront, hqs⟩ := exists_reference_of_close h hclose
  have hother : (Part.reference other).Proper := h _ (by simp)
  obtain ⟨rfl, rfl⟩ := open_inj hname hother.noBraces hfront
  exact ⟨ps, qs, rfl, rfl, hqs⟩

/-- The names that a pattern refers to are those of its parts. -/
theorem refers_spelled_iff (h : ∀ p ∈ parts, p.Proper) {name : Text} :
    Refers (spelled parts) name ↔ .reference name ∈ parts := by
  constructor
  · rintro ⟨hname, before, after, heq⟩
    have hcut : spelled parts = before ++ '\x7b' :: (name ++ '\x7d' :: after) := by
      simp [← heq]
    obtain ⟨ps, qs, rfl, -, -⟩ := exists_parts_of_reference h hname hcut
    simp
  · intro hmem
    have hproper : (Part.reference name).Proper := h _ hmem
    obtain ⟨ps, qs, rfl⟩ := List.append_of_mem hmem
    exact ⟨hproper.noBraces, spelled ps, spelled qs, by simp [Part.render]⟩

end Spelled

end Pattern

end ContentNegotiation
