import ContentNegotiation.Text.Character

/-!
# Product tokens

A `User-Agent` field is a row of products, each a name with an optional version and an optional
comment in parentheses. `Product.readAll` is lenient: stray characters are skipped, a comment
belongs to the product right before it, and a comment that is never closed runs to the end.

Principal statements: `Product.closeComment_length_le` and `Product.splitVersion_length_le`, by
which every round of the scan leaves less text.
-/

namespace ContentNegotiation

/-- A piece of client software. -/
structure Product where
  name : Text
  version : Option Text
  comment : Option Text
  deriving DecidableEq, Repr

namespace Product

/-- An optional text that counts as missing if it is empty. -/
def unlessEmpty (t : Option Text) : Option Text :=
  t.filter (!·.isEmpty)

/-- A product; empty versions and comments count as missing (`Product::new`). -/
def of (name : Text) (version comment : Option Text) : Product :=
  ⟨name, unlessEmpty version, unlessEmpty comment⟩

/-- The written form (`Product::fmt`). -/
def print (p : Product) : Text :=
  p.name ++
    (match p.version with
      | some v => '/' :: v
      | none => []) ++
    match p.comment with
    | some c => " (".toList ++ c ++ [')']
    | none => []

/-- Splits a comment, whose opening parenthesis is already read, from what follows its closing one
(`split_comment`). `depth` counts further open parentheses and `inner` is what is read so far, last
character first. -/
def closeComment (depth : Nat) (inner : Text) : Text → Text × Text
  | [] => (inner.reverse, [])
  | c :: t =>
    if c = '(' then closeComment (depth + 1) (c :: inner) t
    else if c = ')' then
      match depth with
      | 0 => (inner.reverse, t)
      | depth + 1 => closeComment depth (c :: inner) t
    else closeComment depth (c :: inner) t

theorem closeComment_length_le (depth : Nat) (inner t : Text) :
    (closeComment depth inner t).2.length ≤ t.length := by
  induction t generalizing depth inner with
  | nil => simp [closeComment]
  | cons c t ih =>
    unfold closeComment
    split
    · exact Nat.le_succ_of_le (ih _ _)
    · split
      · cases depth with
        | zero => simp
        | succ depth => exact Nat.le_succ_of_le (ih _ _)
      · exact Nat.le_succ_of_le (ih _ _)

theorem dropWhile_length_le (p : Char → Bool) (t : Text) : (t.dropWhile p).length ≤ t.length :=
  (List.dropWhile_suffix p).length_le

/-- The version that a token is followed by, if a slash follows it, and what remains. -/
def splitVersion : Text → Option Text × Text
  | '/' :: t => (some (t.takeWhile isTokenChar), t.dropWhile isTokenChar)
  | t => (none, t)

theorem splitVersion_length_le (t : Text) : (splitVersion t).2.length ≤ t.length := by
  unfold splitVersion
  split
  · exact Nat.le_succ_of_le (dropWhile_length_le _ _)
  · exact Nat.le_refl _

/-- Gives a comment to the last product, which comes first here, unless it is empty or that product
has one already. -/
def attach (comment : Text) : List Product → List Product
  | p :: ps =>
    if p.comment.isNone && !comment.isEmpty then { p with comment := some comment } :: ps
    else p :: ps
  | [] => []

/-- Scans products from a text; those read so far come last one first. -/
def scan (found : List Product) (t : Text) : List Product :=
  match t with
  | [] => found.reverse
  | c :: t =>
    if isBlank c then scan found t
    else if c = '(' then
      scan (attach (Text.trim (closeComment 0 [] t).1) found) (closeComment 0 [] t).2
    else if isTokenChar c then
      scan
        (.of (c :: t.takeWhile isTokenChar) (splitVersion (t.dropWhile isTokenChar)).1 none ::
          found)
        (splitVersion (t.dropWhile isTokenChar)).2
    else scan found t
termination_by t.length
decreasing_by
  · simp
  · have := closeComment_length_le 0 [] t
    simp
    omega
  · have := splitVersion_length_le (t.dropWhile isTokenChar)
    have := dropWhile_length_le isTokenChar t
    simp
    omega
  · simp

/-- All products of a text (`parse_products`). -/
def readAll (t : Text) : List Product :=
  scan [] t

end Product

end ContentNegotiation
