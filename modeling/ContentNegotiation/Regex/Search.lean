import ContentNegotiation.Regex.Basic

/-!
# Searching with an expression

The positions of a text of `n` characters are `0` to `n`, and a set of positions is a number whose
bit `i` says whether `i` is in it. For a given text every expression becomes a map on such sets:
from where it may start to where it may then end. A search starts from all positions at once, so its
cost is bounded by the sizes of expression and text whatever the expression is.

Principal statement: `mask_testBit` (a mask holds the positions whose character is in the class).
-/

namespace ContentNegotiation

/-- The places at which a condition on a character and those around it holds. -/
def mask (p : Char → Bool) : Text → Nat
  | [] => 0
  | c :: t => 2 * mask p t + (p c).toNat

theorem mask_testBit (p : Char → Bool) (t : Text) (i : Nat) :
    (mask p t).testBit i = t[i]?.any p := by
  induction t generalizing i with
  | nil => simp [mask]
  | cons c t ih =>
    cases i with
    | zero => cases h : p c <;> simp [mask, Nat.testBit_zero, h]
    | succ i =>
      have hbit := Bool.toNat_le (p c)
      have hhalf : (2 * mask p t + (p c).toNat) / 2 = mask p t := by omega
      simp [mask, Nat.testBit_succ, hhalf, ih]

/-- The positions of a text at which an assertion holds, given the character before the text. -/
def assertionMask (a : Assertion) (before : Option Char) : Text → Nat
  | [] => (a.holds before none).toNat
  | c :: t => 2 * assertionMask a (some c) t + (a.holds before (some c)).toNat

/-- An expression laid out on one text: every class and every assertion is replaced by the positions
at which it holds. -/
inductive Walk where
  | stay
  | step (allowed : Nat)
  | check (allowed : Nat)
  | sequence (a b : Walk)
  | choice (a b : Walk)
  /-- `least` times, and then up to `more` times again. -/
  | repetition (a : Walk) (least more : Nat)
  deriving Repr

namespace Walk

/-- Applies a map `k` times, or until it changes nothing. -/
def power (f : Nat → Nat) : Nat → Nat → Nat
  | 0, s => s
  | k + 1, s =>
    let next := f s
    if next = s then s else power f k next

/-- Everything that at most `k` applications reach. -/
def reach (f : Nat → Nat) : Nat → Nat → Nat
  | 0, s => s
  | k + 1, s =>
    let next := s ||| f s
    if next = s then s else reach f k next

/-- The positions at which the walk may end if it starts at one of `s`. -/
def image : Walk → Nat → Nat
  | stay, s => s
  | step allowed, s => (s &&& allowed) <<< 1
  | check allowed, s => s &&& allowed
  | sequence a b, s => b.image (a.image s)
  | choice a b, s => a.image s ||| b.image s
  | repetition a least more, s => reach a.image more (power a.image least s)

end Walk

namespace Regex

/-- Lays the expression out on a text. An unbounded repetition needs no more rounds than the text
has positions. -/
def on (t : Text) : Regex → Walk
  | empty => .stay
  | chars ignoreCase k => .step (mask (k.contains ignoreCase) t)
  | assertion a => .check (assertionMask a none t)
  | sequence a b => .sequence (a.on t) (b.on t)
  | choice a b => .choice (a.on t) (b.on t)
  | repetition a least most =>
    .repetition (a.on t) least ((most.map (· - least)).getD (t.length + 1))

/-- The set of all positions of a text. -/
def everywhere (t : Text) : Nat :=
  Nat.pow 2 (t.length + 1) - 1

/-- The expression matches somewhere in the text. -/
def isFoundIn (r : Regex) (t : Text) : Bool :=
  (r.on t).image (everywhere t) != 0

end Regex

end ContentNegotiation
