import ContentNegotiation.Text.Character

/-!
# Patterns

A pattern is text with references to variables between braces. `Pattern.split` cuts it into literals
and references. Braces do not nest and cannot be escaped, and a reference has a name that is not
blank. Offsets in errors count bytes of UTF-8.

Principal statement: `Pattern.split_render` (the parts of a pattern spell it out again).
-/

namespace ContentNegotiation

/-- Why a pattern does not compile (`TemplateError`). -/
inductive PatternError where
  /-- A nested or stray brace, or one that is never closed, at a byte offset. -/
  | unbalanced (offset : Nat)
  /-- A reference without a name, at the byte offset of its opening brace. -/
  | emptyName (offset : Nat)
  /-- A reference to a variable that is not registered. -/
  | unknownVariable (name : Text)
  /-- A reference to a variable whose expression breaks the grammar of expressions. -/
  | invalidExpression (name : Text)
  /-- More bytes than a pattern may have. -/
  | tooLong (bytes : Nat)
  deriving DecidableEq, Repr

namespace Pattern

/-- The most bytes that a pattern may have. -/
def maxBytes : Nat := 4096

end Pattern

/-- The wording of each cause. -/
def PatternError.message : PatternError → Text
  | unbalanced offset =>
      "Unbalanced variable delimiter at byte ".toList ++ Nat.toDigits 10 offset
  | emptyName offset => "Empty variable name at byte ".toList ++ Nat.toDigits 10 offset
  | unknownVariable name => "Unknown variable: ".toList ++ name
  | invalidExpression name => "Invalid pattern for variable '".toList ++ name ++ "'".toList
  | tooLong bytes => "Pattern length ".toList ++ Nat.toDigits 10 bytes ++
      " exceeds maximum allowed length of ".toList ++ Nat.toDigits 10 Pattern.maxBytes ++
      " bytes".toList

namespace Pattern

/-- A part of a pattern. -/
inductive Part where
  | literal (text : Text)
  | reference (name : Text)
  deriving DecidableEq, Repr

namespace Part

/-- The part as it is written in a pattern. -/
def render : Part → Text
  | literal text => text
  | reference name => '\x7b' :: name ++ ['\x7d']

end Part

/-- A literal made of the characters read so far, if there are any. -/
def literalPart (text : Text) : List Part :=
  if text.isEmpty then [] else [.literal text]

/-- Splits a pattern from a byte offset on. `opened` is the offset of an open brace, and `held` is
the text since the last brace, last character first. -/
def splitFrom (offset : Nat) (opened : Option Nat) (held : Text) :
    Text → Except PatternError (List Part)
  | [] =>
    match opened with
    | some start => .error (.unbalanced start)
    | none => .ok (literalPart held.reverse)
  | c :: t =>
    let next := offset + c.utf8Size
    if c = '\x7b' then
      match opened with
      | some _ => .error (.unbalanced offset)
      | none => (splitFrom next (some offset) [] t).map (literalPart held.reverse ++ ·)
    else if c = '\x7d' then
      match opened with
      | none => .error (.unbalanced offset)
      | some start =>
        if Text.allBlank held.reverse then .error (.emptyName start)
        else (splitFrom next none [] t).map (.reference held.reverse :: ·)
    else splitFrom next opened (c :: held) t

/-- Splits a pattern into its parts; the first fault from the left decides the error
(`split_pattern`). -/
def split (pattern : Text) : Except PatternError (List Part) :=
  splitFrom 0 none [] pattern

theorem splitFrom_render {offset : Nat} {opened : Option Nat} {held t : Text} {parts : List Part}
    (h : splitFrom offset opened held t = .ok parts) :
    (parts.map Part.render).flatten =
      (if opened.isSome then ['\x7b'] else []) ++ held.reverse ++ t := by
  induction t generalizing offset opened held parts with
  | nil =>
    cases opened with
    | some s => simp [splitFrom] at h
    | none =>
      simp only [splitFrom, Except.ok.injEq] at h
      subst h
      cases held <;> simp [literalPart, Part.render]
  | cons c t ih =>
    unfold splitFrom at h
    by_cases h₁ : c = '\x7b'
    · cases opened with
      | some s => simp [h₁] at h
      | none =>
        simp only [h₁, if_true] at h
        cases hs : splitFrom (offset + '\x7b'.utf8Size) (some offset) [] t with
        | error e => simp [hs, Except.map] at h
        | ok ps =>
          simp only [hs, Except.map, Except.ok.injEq] at h
          subst h
          have := ih hs
          cases held <;> simp_all [literalPart, Part.render]
    · by_cases h₂ : c = '\x7d'
      · cases opened with
        | none => simp [h₂] at h
        | some s =>
          simp only [h₂] at h
          by_cases hb : Text.allBlank held.reverse = true
          · simp [hb] at h
          · cases hs : splitFrom (offset + '\x7d'.utf8Size) none [] t with
            | error e => simp [hb, hs, Except.map] at h
            | ok ps =>
              simp [hb, hs, Except.map] at h
              subst h
              have := ih hs
              simp_all [Part.render]
      · simp only [h₁, h₂, if_false] at h
        have := ih h
        simpa using this

theorem split_render {pattern : Text} {parts : List Part} (h : split pattern = .ok parts) :
    (parts.map Part.render).flatten = pattern := by
  simpa using splitFrom_render h

end Pattern

end ContentNegotiation
