/-!
# Text

Text is a list of characters: every reader, matcher and printer of this library recurses on it.
The module holds the operations that header fields and patterns need: prefixes, splitting at a
separator, joining, ASCII case and sizes in UTF-8 bytes.

Principal statements: `dropPrefix_eq_some_iff`, `join_splitAll` (splitting loses nothing but the
separators) and `lower_lower` (lower case stays as it is).
-/

namespace ContentNegotiation

/-- A sequence of Unicode scalar values. -/
abbrev Text := List Char

namespace Text

/-- The number of bytes of the UTF-8 encoding. -/
def byteSize (t : Text) : Nat :=
  (t.map Char.utf8Size).foldr (· + ·) 0

@[simp] theorem byteSize_nil : byteSize [] = 0 := rfl

@[simp] theorem byteSize_cons (c : Char) (t : Text) :
    byteSize (c :: t) = c.utf8Size + byteSize t := rfl

@[simp] theorem byteSize_append (s t : Text) : byteSize (s ++ t) = byteSize s + byteSize t := by
  induction s with
  | nil => simp
  | cons c s ih => simp [ih, Nat.add_assoc]

/-- What follows `p` in a text that starts with `p`. -/
def dropPrefix : Text → Text → Option Text
  | [], t => some t
  | _ :: _, [] => none
  | c :: p, d :: t => if c = d then dropPrefix p t else none

theorem dropPrefix_eq_some_iff {p t r : Text} : dropPrefix p t = some r ↔ t = p ++ r := by
  induction p generalizing t with
  | nil => simp [dropPrefix]
  | cons c p ih =>
    cases t with
    | nil => simp [dropPrefix]
    | cons d t =>
      by_cases h : c = d
      · subst h
        simp [dropPrefix, ih]
      · simpa [dropPrefix, h] using fun e => absurd e.symm h

@[simp] theorem dropPrefix_append (p r : Text) : dropPrefix p (p ++ r) = some r :=
  dropPrefix_eq_some_iff.2 rfl

/-- Splits at the first occurrence of `sep`; `none` where there is none. -/
def splitFirst (sep : Char) : Text → Option (Text × Text)
  | [] => none
  | c :: t => if c = sep then some ([], t) else (splitFirst sep t).map fun (l, r) => (c :: l, r)

/-- Splits at every occurrence of `sep` into a first piece and those after it. -/
def pieces (sep : Char) : Text → Text × List Text
  | [] => ([], [])
  | c :: t =>
    let (head, tail) := pieces sep t
    if c = sep then ([], head :: tail) else (c :: head, tail)

/-- Splits at every occurrence of `sep`; a text without it is its own single piece. -/
def splitAll (sep : Char) (t : Text) : List Text :=
  (pieces sep t).1 :: (pieces sep t).2

/-- Writes `sep` between each two neighbours. -/
def join (sep : Text) : List Text → Text
  | [] => []
  | [t] => t
  | t :: ts => t ++ sep ++ join sep ts

@[simp] theorem join_nil (sep : Text) : join sep [] = [] := rfl

@[simp] theorem join_singleton (sep t : Text) : join sep [t] = t := rfl

@[simp] theorem join_cons_cons (sep t u : Text) (ts : List Text) :
    join sep (t :: u :: ts) = t ++ sep ++ join sep (u :: ts) := rfl

theorem join_splitAll (sep : Char) (t : Text) : join [sep] (splitAll sep t) = t := by
  induction t with
  | nil => rfl
  | cons c t ih =>
    unfold splitAll at *
    by_cases h : c = sep
    · subst h
      simpa [pieces] using ih
    · cases hp : (pieces sep t).2 with
      | nil => simpa [pieces, h, hp] using ih
      | cons u us => simpa [pieces, h, hp] using ih

/-- The text in ASCII lower case; other characters stay as they are. -/
def lower (t : Text) : Text :=
  t.map Char.toLower

theorem toLower_toLower (c : Char) : c.toLower.toLower = c.toLower := by
  by_cases h : c.val ≥ 'A'.val ∧ c.val ≤ 'Z'.val
  · have hl : c.toLower.val = c.val + ('a'.val - 'A'.val) := by
      delta Char.toLower
      rw [dif_pos h]
    have hupper : ¬ (c.toLower.val ≥ 'A'.val ∧ c.toLower.val ≤ 'Z'.val) := by
      rw [hl]
      simp only [ge_iff_le, UInt32.le_iff_toNat_le, UInt32.toNat_add, UInt32.toNat_sub,
        Char.reduceVal, UInt32.reduceToNat] at *
      omega
    exact dif_neg hupper
  · have hl : c.toLower = c := dif_neg h
    rw [hl, hl]

theorem lower_lower (t : Text) : lower (lower t) = lower t := by
  unfold lower
  rw [List.map_map]
  exact List.map_congr_left fun c _ => toLower_toLower c

/-- The text in ASCII upper case; other characters stay as they are. -/
def upper (t : Text) : Text :=
  t.map Char.toUpper

/-- Equality up to ASCII case. -/
def sameIgnoringCase (s t : Text) : Bool :=
  lower s == lower t

/-- Removes every leading and trailing `c`. -/
def strip (c : Char) (t : Text) : Text :=
  ((t.dropWhile (· == c)).reverse.dropWhile (· == c)).reverse

end Text

end ContentNegotiation
