import ContentNegotiation.Regex.Parser
import Mathlib.Data.List.TakeDrop
import Mathlib.Data.List.TakeWhile

/-!
# Readers that look no further than they read

Two texts may be alike up to a closing parenthesis only, with different ends behind it.  A reader
that leaves this parenthesis reads the same from both of them, so that what stands in a group is
read without regard to what stands behind the group.

* `Regex.Alike u s` — the texts are alike up to a parenthesis, behind which the first one goes on
  with `u`; the second one has `s` in its place.
* `Regex.Skips`, `Regex.Reads` — a map on texts, and a reader, to which it does not matter what
  stands behind the parenthesis that it leaves.

Principal results: `Alike.dropWhile` (a run of characters ends at one place in both texts),
`Reads.trans` (readers one after the other) and `skips_skipIgnored` (blanks and comments).
-/

namespace ContentNegotiation

namespace Regex

/-! ## Texts that are alike up to a parenthesis -/

/-- The texts are alike up to a closing parenthesis of the first one.  Behind it the first one goes
on with `u`.  The second one goes on with `s` in that place, and there it ends or has a closing
parenthesis too. -/
inductive Alike (u s : Text) : Text → Text → Prop where
  | here : (∀ c, s.head? = some c → c = ')') → Alike u s (')' :: u) s
  | cons {c : Char} {t v : Text} : Alike u s t v → Alike u s (c :: t) (c :: v)

namespace Alike

variable {u s t v x : Text} {c : Char} {p : Char → Bool}

theorem append (hs : ∀ c, s.head? = some c → c = ')') (x : Text) :
    Alike u s (x ++ ')' :: u) (x ++ s) := by
  induction x with
  | nil => exact .here hs
  | cons c x ih => exact .cons ih

theorem length_lt (h : Alike u s t v) : u.length < t.length := by
  induction h with
  | here => exact Nat.lt_succ_self _
  | cons _ ih => exact Nat.lt_succ_of_lt ih

/-- The place is found again by the length of what is behind it. -/
theorem eq_of_here (h : Alike u s (')' :: u) v) : v = s := by
  cases h with
  | here => rfl
  | cons h => exact absurd h.length_lt (Nat.lt_irrefl _)

/-- A character before the parenthesis is common to both. -/
theorem tail (h : Alike u s (c :: t) v) (ht : u.length < t.length) :
    ∃ w, v = c :: w ∧ Alike u s t w := by
  cases h with
  | here => exact absurd ht (Nat.lt_irrefl _)
  | cons h => exact ⟨_, rfl, h⟩

theorem tail_of_ne (h : Alike u s (c :: t) v) (hc : c ≠ ')') : ∃ w, v = c :: w ∧ Alike u s t w := by
  cases h with
  | here => exact absurd rfl hc
  | cons h => exact ⟨_, rfl, h⟩

/-- The second text begins as the first one, unless with the parenthesis or not at all. -/
theorem head (h : Alike u s t v) (hc : c ≠ ')') (hv : v.head? = some c) : t.head? = some c := by
  cases h with
  | here hs => exact absurd (hs c hv) hc
  | cons h => exact hv

theorem ne_cons (h : Alike u s t v) (hc : c ≠ ')') (ht : ∀ w, t ≠ c :: w) (w : Text) :
    v ≠ c :: w := by
  rintro rfl
  obtain ⟨r, hr⟩ := List.head?_eq_some_iff.mp (h.head hc rfl)
  exact ht r hr

/-- What the first text begins with is left out of the second one too. -/
theorem dropWhile (h : Alike u s t v) (ht : u.length < (t.dropWhile p).length) :
    v.takeWhile p = t.takeWhile p ∧ Alike u s (t.dropWhile p) (v.dropWhile p) := by
  induction h with
  | here hs =>
      have hp : p ')' = false := by
        by_contra hp
        rw [List.dropWhile_cons_of_pos (by simpa using hp)] at ht
        have hle := (List.dropWhile_suffix (l := u) p).length_le
        omega
      cases s with
      | nil => simpa [hp] using here hs
      | cons c s =>
          obtain rfl := hs c rfl
          simpa [hp] using here hs
  | @cons c t v h ih =>
      by_cases hp : p c = true
      · rw [List.dropWhile_cons_of_pos hp] at ht
        obtain ⟨htake, hdrop⟩ := ih ht
        simpa [hp, htake] using hdrop
      · simpa [hp] using h.cons

theorem drop (h : Alike u s t v) {n : Nat} (ht : u.length < (t.drop n).length) :
    v.take n = t.take n ∧ Alike u s (t.drop n) (v.drop n) := by
  induction n generalizing t v with
  | zero => simpa using h
  | succ n ih =>
      cases t with
      | nil => simp at ht
      | cons c t =>
          rw [List.drop_succ_cons] at ht
          obtain ⟨w, rfl, hw⟩ := h.tail (Nat.lt_of_lt_of_le ht (List.drop_suffix n t).length_le)
          obtain ⟨htake, hdrop⟩ := ih hw ht
          simpa [htake] using hdrop

/-- The part of the second text before the place is part of the first one too. -/
theorem append_right (h : Alike u s t (x ++ v)) (hx : ')' ∉ x) :
    ∃ w, t = x ++ w ∧ Alike u s w v := by
  induction x generalizing t with
  | nil => exact ⟨t, rfl, h⟩
  | cons c x ih =>
      rw [List.mem_cons, not_or] at hx
      cases h with
      | here hs => exact absurd (hs c rfl).symm hx.1
      | cons h =>
          obtain ⟨w, rfl, hw⟩ := ih h hx.2
          exact ⟨w, rfl, hw⟩

theorem ne_cons_cons {c' : Char} (h : Alike u s t v) (hc : c ≠ ')') (hc' : c' ≠ ')')
    (ht : ∀ w, t ≠ c :: c' :: w) (w : Text) : v ≠ c :: c' :: w := by
  rintro rfl
  obtain ⟨y, rfl, -⟩ := h.append_right (x := [c, c']) (by simp [hc.symm, hc'.symm])
  exact ht y rfl

theorem append_left (h : Alike u s (x ++ t) v) (ht : u.length < t.length) :
    ∃ w, v = x ++ w ∧ Alike u s t w := by
  induction x generalizing v with
  | nil => exact ⟨v, rfl, h⟩
  | cons c x ih =>
      have hlt : u.length < (x ++ t).length := by
        rw [List.length_append]
        omega
      obtain ⟨w, rfl, hw⟩ := h.tail hlt
      obtain ⟨w, rfl, hrest⟩ := ih hw
      exact ⟨w, rfl, hrest⟩

end Alike

/-! ## Local readers -/

/-- Skipping leaves the end of a text.  If the closing parenthesis before `u` is left, what stands
from there on does not matter for what is skipped. -/
structure Skips (u : Text) (skip : Text → Text) (t : Text) : Prop where
  suffix : skip t <:+ t
  alike : ∀ {s v}, Alike u s t v → u.length < (skip t).length → Alike u s (skip t) (skip v)

/-- Of a text the reader reads a value and leaves the end of the text.  If the closing parenthesis
before `u` is left, what stands from there on does not matter for what is read. -/
structure Reads {α : Type} (u : Text) (read : Text → Option (α × Text)) (t : Text) (a : α)
    (r : Text) : Prop where
  suffix : r <:+ t
  alike : ∀ {s v}, Alike u s t v → u.length < r.length →
    ∃ w, read v = some (a, w) ∧ Alike u s r w

namespace Skips

variable {u t : Text} {skip skip' : Text → Text}

theorem comp (hs : Skips u skip t) (hs' : Skips u skip' (skip t)) :
    Skips u (fun v => skip' (skip v)) t := by
  refine ⟨hs'.suffix.trans hs.suffix, fun hv ht => ?_⟩
  exact hs'.alike (hs.alike hv (Nat.lt_of_lt_of_le ht hs'.suffix.length_le)) ht

/-- Skipping as a reader of a value that does not depend on the text. -/
theorem reads {α : Type} (hs : Skips u skip t) (a : α) :
    Reads u (fun v => some (a, skip v)) t a (skip t) :=
  ⟨hs.suffix, fun hv hr => ⟨_, rfl, hs.alike hv hr⟩⟩

end Skips

namespace Reads

variable {α β γ : Type} {a : α} {b : β} {d : γ} {f : Text → Option (α × Text)}
  {g : Text → Option (β × Text)} {h : Text → Option (γ × Text)} {c : Char} {t r₀ r u : Text}

theorem of_lt (hr : r <:+ t) (hf : u.length < r.length → Reads u f t a r) : Reads u f t a r :=
  ⟨hr, fun hv hlt => (hf hlt).alike hv hlt⟩

theorem char (hh : ∀ v, h (c :: v) = some (d, v)) (t : Text) : Reads u h (c :: t) d t := by
  refine ⟨List.suffix_cons c t, fun hv hr => ?_⟩
  obtain ⟨v, rfl, hv'⟩ := hv.tail hr
  exact ⟨v, hh v, hv'⟩

/-- A character stands before what is read, and what is alike in both texts may be looked at. -/
theorem cons_alike (hf : Reads u f t a r)
    (hh : ∀ {s v w}, Alike u s t v → f v = some (a, w) → h (c :: v) = some (d, w)) :
    Reads u h (c :: t) d r := by
  refine ⟨hf.suffix.trans (List.suffix_cons c t), fun hv hr => ?_⟩
  obtain ⟨v, rfl, hv'⟩ := hv.tail (Nat.lt_of_lt_of_le hr hf.suffix.length_le)
  obtain ⟨w, hw, halike⟩ := hf.alike hv' hr
  exact ⟨w, hh hv' hw, halike⟩

theorem cons (hf : Reads u f t a r) (hh : ∀ {v w}, f v = some (a, w) → h (c :: v) = some (d, w)) :
    Reads u h (c :: t) d r :=
  hf.cons_alike fun _ => hh

theorem cons_cons {c' : Char} (hf : Reads u f t a r)
    (hh : ∀ {v w}, f v = some (a, w) → h (c :: c' :: v) = some (d, w)) :
    Reads u h (c :: c' :: t) d r := by
  have htail : Reads u (fun v => h (c :: v)) (c' :: t) d r := hf.cons hh
  exact htail.cons id

/-- Something is skipped first. -/
theorem skip {s : Text → Text} (hs : Skips u s t) (hf : Reads u f (s t) a r)
    (hh : ∀ {v w}, f (s v) = some (a, w) → h v = some (d, w)) : Reads u h t d r := by
  refine ⟨hf.suffix.trans hs.suffix, fun hv hr => ?_⟩
  obtain ⟨w, hw, halike⟩ := hf.alike (hs.alike hv (Nat.lt_of_lt_of_le hr hf.suffix.length_le)) hr
  exact ⟨w, hh hw, halike⟩

/-- One reader after the other, where what is alike in both texts may be looked at. -/
theorem trans_alike (hf : Reads u f t a r₀) (hg : Reads u g r₀ b r)
    (hh : ∀ {s v w x}, Alike u s t v → f v = some (a, w) → g w = some (b, x) →
      h v = some (d, x)) : Reads u h t d r := by
  refine ⟨hg.suffix.trans hf.suffix, fun hv hr => ?_⟩
  obtain ⟨w, hread, hw⟩ := hf.alike hv (Nat.lt_of_lt_of_le hr hg.suffix.length_le)
  obtain ⟨x, hx, halike⟩ := hg.alike hw hr
  exact ⟨x, hh hv hread hx, halike⟩

theorem trans (hf : Reads u f t a r₀) (hg : Reads u g r₀ b r)
    (hh : ∀ {v w x}, f v = some (a, w) → g w = some (b, x) → h v = some (d, x)) :
    Reads u h t d r :=
  hf.trans_alike hg fun _ => hh

/-- Another value is made of what is read, and what is alike in both texts may be looked at. -/
theorem map_alike (hf : Reads u f t a r)
    (hh : ∀ {s v w}, Alike u s t v → f v = some (a, w) → h v = some (d, w)) :
    Reads u h t d r := by
  refine ⟨hf.suffix, fun hv hr => ?_⟩
  obtain ⟨w, hw, halike⟩ := hf.alike hv hr
  exact ⟨w, hh hv hw, halike⟩

theorem map (hf : Reads u f t a r) (hh : ∀ {v w}, f v = some (a, w) → h v = some (d, w)) :
    Reads u h t d r :=
  hf.map_alike fun _ => hh

/-- Another value is made of what is read, and something is skipped behind it. -/
theorem skipped {skip : Text → Text} (hf : Reads u f t a r) (hs : Skips u skip r)
    (hh : ∀ {v w}, f v = some (a, w) → h v = some (d, skip w)) : Reads u h t d (skip r) :=
  hf.trans (hs.reads d) fun hv hw => by
    cases hw
    exact hh hv

/-- Another value is made of what is read, and the character behind it is dropped. -/
theorem behind (hf : Reads u f t a (c :: r))
    (hh : ∀ {v w}, f v = some (a, c :: w) → h v = some (d, w)) : Reads u h t d r := by
  refine ⟨(List.suffix_cons c r).trans hf.suffix, fun hv hr => ?_⟩
  obtain ⟨w, hread, hw⟩ := hf.alike hv (Nat.lt_succ_of_lt hr)
  obtain ⟨w, rfl, hw'⟩ := hw.tail hr
  exact ⟨w, hh hread, hw'⟩

end Reads

theorem skips_dropWhile (u : Text) (p : Char → Bool) (t : Text) : Skips u (List.dropWhile p) t :=
  ⟨List.dropWhile_suffix p, fun h ht => (h.dropWhile ht).2⟩

theorem reads_span (u : Text) {p : Char → Bool} {t a r : Text} (h : t.span p = (a, r)) :
    Reads u (fun t => some (t.span p)) t a r := by
  rw [List.span_eq_takeWhile_dropWhile] at h
  obtain ⟨rfl, rfl⟩ := Prod.mk.inj h
  refine ⟨List.dropWhile_suffix p, fun hv hr => ?_⟩
  obtain ⟨htake, hdrop⟩ := hv.dropWhile hr
  exact ⟨_, by rw [List.span_eq_takeWhile_dropWhile, htake], hdrop⟩

/-! ## Blanks and comments -/

theorem skipVerbose_eq_self {t : Text} (ht : ∀ c, t.head? = some c → isBlank c = false ∧ c ≠ '#') :
    skipVerbose false t = t := by
  cases t with
  | nil => rfl
  | cons c t =>
      obtain ⟨hblank, hmark⟩ := ht c rfl
      rw [skipVerbose, if_neg (by simp [hblank]), if_neg hmark]

theorem skipIgnored_eq_self (verbose : Bool) {c : Char} (hblank : isBlank c = false)
    (hmark : c ≠ '#') (t : Text) : skipIgnored verbose (c :: t) = c :: t := by
  cases verbose with
  | false => rfl
  | true =>
      refine skipVerbose_eq_self ?_
      rintro d ⟨⟩
      exact ⟨hblank, hmark⟩

theorem skips_skipVerbose (u : Text) (inside : Bool) (t : Text) :
    Skips u (skipVerbose inside) t := by
  have hstep : ∀ {c t} {next inside : Bool}, Skips u (skipVerbose next) t →
      (∀ v, skipVerbose inside (c :: v) = skipVerbose next v) →
        Skips u (skipVerbose inside) (c :: t) := by
    intro c t next inside ih heq
    refine ⟨?_, fun h ht => ?_⟩
    · rw [heq]
      exact ih.suffix.trans (List.suffix_cons ..)
    · rw [heq] at ht ⊢
      obtain ⟨w, rfl, hw⟩ := h.tail (Nat.lt_of_lt_of_le ht ih.suffix.length_le)
      rw [heq]
      exact ih.alike hw ht
  fun_induction skipVerbose inside t with
  | case1 => exact ⟨List.suffix_rfl, fun h _ => nomatch h⟩
  | case2 c t ih => exact hstep ih fun v => rfl
  | case3 c t hblank ih => exact hstep ih fun v => by rw [skipVerbose, if_pos hblank]
  | case4 t hblank ih => exact hstep ih fun v => by rw [skipVerbose, if_neg hblank, if_pos rfl]
  | case5 c t hblank hmark =>
      have hself : skipVerbose false (c :: t) = c :: t := by
        rw [skipVerbose, if_neg hblank, if_neg hmark]
      refine ⟨by simp [hself], fun h ht => ?_⟩
      rw [hself, skipVerbose_eq_self]
      · exact h
      · intro d hd
        by_cases hclose : d = ')'
        · subst hclose
          decide
        · obtain rfl := Option.some.inj (h.head hclose hd)
          exact ⟨Bool.eq_false_iff.mpr hblank, hmark⟩

theorem skips_skipIgnored (u : Text) (verbose : Bool) (t : Text) :
    Skips u (skipIgnored verbose) t := by
  cases verbose with
  | false => exact ⟨List.suffix_rfl, fun h _ => h⟩
  | true => exact skips_skipVerbose u false t

end Regex

end ContentNegotiation
