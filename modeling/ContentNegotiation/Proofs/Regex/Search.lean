import ContentNegotiation.Regex.Search
import Mathlib.Data.Nat.Bitwise
import Mathlib.Logic.Function.Iterate

/-!
# What a search with an expression finds

An expression relates the positions of a text: it leads from a position to every position at which a
match that starts there may end.  The search computes with sets of positions, and the map of each
part of a walk is the image under the relation of that part.

* `Regex.Steps` — a relation followed a number of times.
* `Regex.Matches` — the expression matches the part of a text between two positions.
* `Regex.Leads` — a map on sets of positions is the image under a relation.

Principal results: `Regex.leads_image` (the walk of an expression is the image under its relation)
and `Regex.isFoundIn_iff` (an expression is found exactly where it matches some part).
-/

namespace ContentNegotiation

namespace Regex

/-! ## Relations followed a number of times -/

/-- A number of steps of a relation lead from one position to another. -/
def Steps (R : Nat → Nat → Prop) : Nat → Nat → Nat → Prop
  | 0, i, j => i = j
  | k + 1, i, j => ∃ m, R i m ∧ Steps R k m j

/-- The relation leads nowhere but forward, and where it does lead forward, to no position behind
the given one. -/
def Forward (last : Nat) (R : Nat → Nat → Prop) : Prop :=
  ∀ i j, R i j → i = j ∨ i < j ∧ j ≤ last

section Steps

variable {R : Nat → Nat → Prop} {a b i j k last : Nat}

theorem steps_add_iff : Steps R (a + b) i j ↔ ∃ m, Steps R a i m ∧ Steps R b m j := by
  induction a generalizing i with
  | zero => simp [Steps]
  | succ a ih =>
      rw [Nat.add_right_comm]
      simp only [Steps, ih]
      constructor
      · rintro ⟨m, hm, n, ha, hb⟩
        exact ⟨n, ⟨m, hm, ha⟩, hb⟩
      · rintro ⟨n, ⟨m, hm, ha⟩, hb⟩
        exact ⟨m, hm, n, ha, hb⟩

theorem Steps.forward (hR : Forward last R) (h : Steps R k i j) : i = j ∨ i < j ∧ j ≤ last := by
  induction k generalizing i with
  | zero => exact Or.inl h
  | succ k ih =>
      obtain ⟨m, hm, h⟩ := h
      have hfirst := hR i m hm
      have hrest := ih h
      omega

/-- Steps that stay where they are can be left out. -/
theorem Steps.exists_le (hR : Forward last R) (h : Steps R k i j) : ∃ m ≤ j - i, Steps R m i j := by
  induction k generalizing i with
  | zero => exact ⟨0, Nat.zero_le _, h⟩
  | succ k ih =>
      obtain ⟨m, hm, h⟩ := h
      obtain ⟨n, hn, hsteps⟩ := ih h
      rcases hR i m hm with rfl | ⟨hlt, -⟩
      · exact ⟨n, hn, hsteps⟩
      · have hrest := h.forward hR
        exact ⟨n + 1, by omega, m, hm, hsteps⟩

end Steps

/-! ## What an expression matches -/

/-- The expression matches the part of a text between two positions. -/
def Matches (t : Text) : Regex → Nat → Nat → Prop
  | empty, i, j => i = j
  | chars ignoreCase k, i, j => (∃ c, t[i]? = some c ∧ k.contains ignoreCase c = true) ∧ j = i + 1
  | assertion a, i, j => i = j ∧ i ≤ t.length ∧ a.holds (t.take i).getLast? t[i]? = true
  | sequence a b, i, j => ∃ m, a.Matches t i m ∧ b.Matches t m j
  | choice a b, i, j => a.Matches t i j ∨ b.Matches t i j
  | repetition a least most, i, j =>
    ∃ more, (∀ m ∈ most, more ≤ m - least) ∧ Steps (a.Matches t) (least + more) i j

/-- A match ends behind its start, and inside of the text. -/
theorem forward_matches (t : Text) (r : Regex) : Forward t.length (r.Matches t) := by
  induction r with
  | empty => exact fun i j h => Or.inl h
  | chars ignoreCase k =>
      rintro i j ⟨⟨c, hc, -⟩, rfl⟩
      obtain ⟨hi, -⟩ := List.getElem?_eq_some_iff.mp hc
      exact Or.inr ⟨Nat.lt_succ_self i, hi⟩
  | assertion a => exact fun i j h => Or.inl h.1
  | sequence a b iha ihb =>
      rintro i j ⟨m, ha, hb⟩
      have hfirst := iha i m ha
      have hrest := ihb m j hb
      omega
  | choice a b iha ihb =>
      rintro i j (h | h)
      · exact iha i j h
      · exact ihb i j h
  | repetition a least most iha =>
      rintro i j ⟨more, -, h⟩
      exact h.forward iha

/-! ## Maps on sets of positions -/

/-- The map takes every set of positions to what the relation reaches from there. -/
def Leads (f : Nat → Nat) (R : Nat → Nat → Prop) : Prop :=
  ∀ s j, (f s).testBit j = true ↔ ∃ i, s.testBit i = true ∧ R i j

namespace Leads

variable {f g : Nat → Nat} {R S : Nat → Nat → Prop}

theorem id : Leads (fun s => s) (· = ·) := by
  intro s j
  simp

theorem comp (hf : Leads f R) (hg : Leads g S) :
    Leads (fun s => g (f s)) (fun i j => ∃ m, R i m ∧ S m j) := by
  intro s j
  rw [hg]
  simp only [hf s]
  constructor
  · rintro ⟨m, ⟨i, hi, him⟩, hmj⟩
    exact ⟨i, hi, m, him, hmj⟩
  · rintro ⟨i, hi, m, him, hmj⟩
    exact ⟨m, ⟨i, hi, him⟩, hmj⟩

theorem or (hf : Leads f R) (hg : Leads g S) :
    Leads (fun s => f s ||| g s) (fun i j => R i j ∨ S i j) := by
  intro s j
  rw [Nat.testBit_or, Bool.or_eq_true, hf, hg, ← exists_or]
  simp only [and_or_left]

theorem iterate (hf : Leads f R) (k : Nat) : Leads f^[k] (Steps R k) := by
  induction k with
  | zero => exact id
  | succ k ih => exact hf.comp ih

/-- Stopping early changes nothing. -/
theorem power_eq_iterate (f : Nat → Nat) (k s : Nat) : Walk.power f k s = f^[k] s := by
  induction k generalizing s with
  | zero => rfl
  | succ k ih =>
      rw [Walk.power, Function.iterate_succ_apply]
      split
      · rename_i hfix
        rw [hfix, Function.iterate_fixed hfix]
      · exact ih (f s)

theorem power (hf : Leads f R) (k : Nat) : Leads (Walk.power f k) (Steps R k) := by
  intro s j
  rw [power_eq_iterate]
  exact hf.iterate k s j

/-- A set from which nothing else is reached in one step is never left. -/
theorem closed {s k i j : Nat} (hf : Leads f R) (hfix : s ||| f s = s) (h : Steps R k i j)
    (hi : s.testBit i = true) : s.testBit j = true := by
  induction k generalizing i with
  | zero => exact h ▸ hi
  | succ k ih =>
      obtain ⟨m, hm, h⟩ := h
      refine ih h ?_
      rw [← hfix, Nat.testBit_or, (hf s m).mpr ⟨i, hi, hm⟩, Bool.or_true]

theorem reach (hf : Leads f R) (k : Nat) :
    Leads (Walk.reach f k) (fun i j => ∃ m ≤ k, Steps R m i j) := by
  intro s j
  induction k generalizing s with
  | zero => simp [Walk.reach, Steps]
  | succ k ih =>
      rw [Walk.reach]
      split
      · rename_i hfix
        constructor
        · exact fun hj => ⟨j, hj, 0, Nat.zero_le _, rfl⟩
        · rintro ⟨i, hi, m, -, h⟩
          exact hf.closed hfix h hi
      · rw [ih]
        simp only [Nat.testBit_or, Bool.or_eq_true]
        constructor
        · rintro ⟨i, hi | hi, m, hm, h⟩
          · exact ⟨i, hi, m, by omega, h⟩
          · obtain ⟨n, hn, hstep⟩ := (hf s i).mp hi
            exact ⟨n, hn, m + 1, by omega, i, hstep, h⟩
        · rintro ⟨i, hi, m, hm, h⟩
          cases m with
          | zero => exact ⟨i, Or.inl hi, 0, Nat.zero_le _, h⟩
          | succ m =>
              obtain ⟨n, hstep, h⟩ := h
              exact ⟨n, Or.inr ((hf s n).mpr ⟨i, hi, hstep⟩), m, by omega, h⟩

theorem step (allowed : Nat) : Leads (fun s => (s &&& allowed) <<< 1)
    (fun i j => allowed.testBit i = true ∧ j = i + 1) := by
  intro s j
  rw [Nat.testBit_shiftLeft]
  constructor
  · intro h
    simp only [Nat.testBit_and, Bool.and_eq_true, decide_eq_true_eq] at h
    exact ⟨j - 1, h.2.1, h.2.2, by omega⟩
  · rintro ⟨i, hs, hallowed, rfl⟩
    simp [hs, hallowed]

theorem check (allowed : Nat) : Leads (fun s => s &&& allowed)
    (fun i j => i = j ∧ allowed.testBit i = true) := by
  intro s j
  simp [and_left_comm]

end Leads

/-! ## The search -/

theorem assertionMask_testBit (a : Assertion) (before : Option Char) (t : Text) (i : Nat) :
    (assertionMask a before t).testBit i = true ↔
      i ≤ t.length ∧ a.holds ((t.take i).getLast?.or before) t[i]? = true := by
  induction t generalizing before i with
  | nil =>
      cases i with
      | zero => cases h : a.holds before none <;> simp [assertionMask, h]
      | succ i => cases h : a.holds before none <;> simp [assertionMask, h, Nat.testBit_succ]
  | cons c t ih =>
      cases i with
      | zero => cases h : a.holds before (some c) <;> simp [assertionMask, Nat.testBit_zero, h]
      | succ i =>
          have hhalf : (2 * assertionMask a (some c) t + (a.holds before (some c)).toNat) / 2 =
              assertionMask a (some c) t := by
            have hle := Bool.toNat_le (a.holds before (some c))
            omega
          have hbefore : ((c :: t).take (i + 1)).getLast?.or before =
              (t.take i).getLast?.or (some c) := by
            cases h : (t.take i).getLast? <;> simp [List.getLast?_cons, h]
          rw [assertionMask, Nat.testBit_succ, hhalf, ih, hbefore]
          simp

/-- **The walk of an expression is the image under its relation.** -/
theorem leads_image (t : Text) (r : Regex) : Leads (r.on t).image (r.Matches t) := by
  induction r with
  | empty => exact Leads.id
  | chars ignoreCase k =>
      intro s j
      rw [on, Walk.image, Leads.step]
      simp only [mask_testBit, Option.any_eq_true, Matches]
  | assertion a =>
      intro s j
      rw [on, Walk.image, Leads.check]
      simp only [assertionMask_testBit, Option.or_none, Matches]
  | sequence a b iha ihb => exact iha.comp ihb
  | choice a b iha ihb => exact iha.or ihb
  | repetition a least most iha =>
      intro s j
      rw [on, Walk.image, ((iha.power least).comp (iha.reach _) s j)]
      refine exists_congr fun i => and_congr_right fun _ => ?_
      simp only [Matches, steps_add_iff]
      constructor
      · rintro ⟨m, hleast, more, hmore, h⟩
        refine ⟨more, ?_, m, hleast, h⟩
        rintro n hn
        cases hn
        exact hmore
      · rintro ⟨more, hmore, m, hleast, h⟩
        cases most with
        | some n => exact ⟨m, hleast, more, hmore n rfl, h⟩
        | none =>
            -- a round that counts leads forward, so no more than the positions are needed
            obtain ⟨fewer, hfewer, h'⟩ := h.exists_le (forward_matches t a)
            have hend := h.forward (forward_matches t a)
            exact ⟨m, hleast, fewer, by simp; omega, h'⟩

/-- **An expression is found in a text exactly if it matches some part of it.** -/
theorem isFoundIn_iff {r : Regex} {t : Text} :
    r.isFoundIn t = true ↔ ∃ i j, i ≤ t.length ∧ r.Matches t i j := by
  have heverywhere : ∀ i, (everywhere t).testBit i = true ↔ i ≤ t.length := by
    intro i
    have hbit : (everywhere t).testBit i = decide (i < t.length + 1) :=
      Nat.testBit_two_pow_sub_one (t.length + 1) i
    rw [hbit, decide_eq_true_iff, Nat.lt_succ_iff]
  rw [isFoundIn, bne_iff_ne]
  constructor
  · intro h
    obtain ⟨j, hj⟩ := Nat.exists_testBit_of_ne_zero h
    obtain ⟨i, hi, hmatch⟩ := (leads_image t r _ j).mp hj
    exact ⟨i, j, (heverywhere i).mp hi, hmatch⟩
  · rintro ⟨i, j, hi, hmatch⟩ hzero
    have hj := (leads_image t r _ j).mpr ⟨i, (heverywhere i).mpr hi, hmatch⟩
    rw [hzero, Nat.zero_testBit] at hj
    cases hj

end Regex

end ContentNegotiation
