import ContentNegotiation.Text.Basic

/-!
# Character classes of header fields

`isBlank` is the Unicode property `White_Space`, `isControl` the general category `Cc`, and
`isTokenChar` the class of characters an HTTP token is made of.

Principal statement: `not_isBlank_of_isTokenChar` (a token holds no blank), so trimming never
touches a token.
-/

namespace ContentNegotiation

/-- The property `White_Space`: ASCII blanks and the separators beyond ASCII. -/
def isBlank (c : Char) : Bool :=
  let n := c.toNat
  (9 ≤ n && n ≤ 13) || n == 0x20 || n == 0x85 || n == 0xA0 || n == 0x1680 ||
    (0x2000 ≤ n && n ≤ 0x200A) || n == 0x2028 || n == 0x2029 || n == 0x202F || n == 0x205F ||
    n == 0x3000

/-- The general category `Cc`: the C0 controls, delete and the C1 controls. -/
def isControl (c : Char) : Bool :=
  c.toNat < 0x20 || (0x7F ≤ c.toNat && c.toNat ≤ 0x9F)

/-- Visible ASCII: no blank and no control. -/
def isGraphic (c : Char) : Bool :=
  0x21 ≤ c.toNat && c.toNat ≤ 0x7E

/-- The delimiters that end an HTTP token. -/
def tokenSeparators : List Char :=
  ['(', ')', '<', '>', '@', ',', ';', ':', '\\', '"', '/', '[', ']', '?', '=', '\x7b', '\x7d']

/-- Visible ASCII except the delimiters. -/
def isTokenChar (c : Char) : Bool :=
  isGraphic c && !tokenSeparators.contains c

theorem not_isBlank_of_isGraphic {c : Char} (h : isGraphic c = true) : isBlank c = false := by
  simp [isGraphic, isBlank] at *
  omega

theorem not_isBlank_of_isTokenChar {c : Char} (h : isTokenChar c = true) : isBlank c = false := by
  simp only [isTokenChar, Bool.and_eq_true] at h
  exact not_isBlank_of_isGraphic h.1

namespace Text

/-- Every character is blank; the empty text counts. -/
def allBlank (t : Text) : Bool :=
  t.all isBlank

/-- The text without its leading blanks. -/
def trimStart (t : Text) : Text :=
  t.dropWhile isBlank

/-- The text without its leading and trailing blanks. -/
def trim (t : Text) : Text :=
  (t.trimStart.reverse.dropWhile isBlank).reverse

/-- A non-empty run of token characters. -/
def isToken (t : Text) : Bool :=
  !t.isEmpty && t.all isTokenChar

theorem isToken_iff {t : Text} : t.isToken = true ↔ t ≠ [] ∧ ∀ c ∈ t, isTokenChar c = true := by
  unfold isToken
  rw [Bool.and_eq_true, List.all_eq_true]
  cases t with
  | nil => simp
  | cons c t => simp

theorem not_mem_of_isToken {t : Text} {c : Char} (h : t.isToken = true)
    (hc : isTokenChar c = false) : c ∉ t := by
  intro hmem
  simp [(isToken_iff.mp h).2 c hmem] at hc

end Text

end ContentNegotiation
