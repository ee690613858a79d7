import ContentNegotiation.Proofs.Agent.Product
import ContentNegotiation.Proofs.Template.Grammar
import ContentNegotiation.Proofs.Text.Cutting

/-!
# Products survive printing

A row of products, written one after the other with blanks between them, is scanned into the same
row.  The scanner holds its state in the product read last: a comment in parentheses goes there, and
the text of the comment may be anything as long as its parentheses are balanced.

* `Product.Proper` — the products that have a written form of their own.
* `Product.closeComment_balanced` — the closing parenthesis that is found is the right one.
* `Product.scan_print` — the step: scanning a written product adds that product.

Principal result: `Product.readAll_print` (a written row of products is read back).
-/

namespace ContentNegotiation

namespace Product

/-- The comments that can be told from their written form. -/
structure IsComment (c : Text) : Prop where
  nonempty : c ≠ []
  trimmed : c.Trimmed
  balanced : c.Balanced

instance (c : Text) : Decidable (IsComment c) :=
  decidable_of_iff (c ≠ [] ∧ c.Trimmed ∧ c.Balanced)
    ⟨fun ⟨hne, htrim, hbal⟩ => ⟨hne, htrim, hbal⟩, fun h => ⟨h.nonempty, h.trimmed, h.balanced⟩⟩

/-- Name and version are tokens, and a comment is balanced text without blanks around it. -/
structure Proper (p : Product) : Prop where
  name : p.name.isToken = true
  version : ∀ v ∈ p.version, v.isToken = true
  comment : ∀ c ∈ p.comment, IsComment c

instance (p : Product) : Decidable p.Proper :=
  decidable_of_iff (p.name.isToken = true ∧ (∀ v ∈ p.version, v.isToken = true) ∧
      ∀ c ∈ p.comment, IsComment c)
    ⟨fun ⟨hn, hv, hc⟩ => ⟨hn, hv, hc⟩, fun h => ⟨h.name, h.version, h.comment⟩⟩

/-! ## One comment -/

/-- The comment ends where the parentheses that are open before it are closed. -/
theorem closeComment_closes {c t : Text} {depth : Nat} (h : Text.Closes depth c) (inner : Text) :
    closeComment depth inner (c ++ ')' :: t) = (inner.reverse ++ c, t) := by
  induction c generalizing depth inner with
  | nil =>
      obtain rfl := Text.closes_nil_iff.mp h
      simp [closeComment]
  | cons x c ih =>
      rw [List.cons_append]
      unfold closeComment
      by_cases ho : x = '('
      · subst ho
        rw [if_pos rfl, ih (Text.closes_open_iff.mp h)]
        simp
      by_cases hc : x = ')'
      · subst hc
        cases depth with
        | zero => exact absurd h (Text.not_closes_zero_close c)
        | succ depth =>
            rw [if_neg ho, if_pos rfl]
            simp [ih (Text.closes_close_iff.mp h)]
      · rw [if_neg ho, if_neg hc, ih ((Text.closes_other_iff ho hc).mp h)]
        simp

/-- **The closing parenthesis that is found is the right one.** -/
theorem closeComment_balanced {c : Text} (h : c.Balanced) (t : Text) :
    closeComment 0 [] (c ++ ')' :: t) = (c, t) :=
  closeComment_closes h []

theorem scan_blank {found : List Product} {c : Char} (h : isBlank c = true) (t : Text) :
    scan found (c :: t) = scan found t := by
  rw [scan, if_pos h]

/-- A comment in parentheses goes to the product before it. -/
theorem scan_comment {found : List Product} {n : Text} {v : Option Text} {c : Text}
    (hc : IsComment c) (t : Text) :
    scan (⟨n, v, none⟩ :: found) ('(' :: (c ++ ')' :: t)) = scan (⟨n, v, some c⟩ :: found) t := by
  have hattach : attach c (⟨n, v, none⟩ :: found) = ⟨n, v, some c⟩ :: found := by
    simp [attach, hc.nonempty]
  rw [scan, if_neg (by decide), if_pos rfl, closeComment_balanced hc.balanced, hc.trimmed.trim,
    hattach]

/-! ## One product -/

/-- What may follow a written product: a text with which neither its last token goes on nor a
version begins. -/
structure Follows (t : Text) : Prop where
  token : t.EndsToken
  version : splitVersion t = (none, t)

theorem follows_nil : Follows [] := ⟨Text.endsToken_nil, rfl⟩

theorem follows_blank (t : Text) : Follows (' ' :: t) :=
  ⟨Text.endsToken_cons (by decide), rfl⟩

section Scan

variable {found : List Product} {n t : Text}

/-- A name with its version, if it has one, is a product without comment so far. -/
theorem scan_head {v : Option Text} (hn : n.isToken = true)
    (hv : ∀ w ∈ v, w.isToken = true) (ht : Follows t) :
    scan found (print ⟨n, v, none⟩ ++ t) = scan (⟨n, v, none⟩ :: found) t := by
  cases v with
  | none =>
      have hscan := @scan_token found n t hn ht.token
      rw [ht.version] at hscan
      simpa [print, of, unlessEmpty] using hscan
  | some w =>
      have hw := hv w rfl
      have hscan := @scan_token found n ('/' :: (w ++ t)) hn (Text.endsToken_slash _)
      rw [splitVersion_token hw ht.token, of, unlessEmpty_some (Text.isToken_iff.mp hw).1] at hscan
      simpa [print, unlessEmpty] using hscan

/-- **Scanning a written product adds that product**, whatever was found before and whatever
follows. -/
theorem scan_print {p : Product} (hp : p.Proper) (ht : Follows t) :
    scan found (p.print ++ t) = scan (p :: found) t := by
  obtain ⟨n, v, comment⟩ := p
  cases comment with
  | none => exact scan_head hp.name hp.version ht
  | some c =>
      have hsplit : print ⟨n, v, some c⟩ ++ t =
          print ⟨n, v, none⟩ ++ ' ' :: '(' :: (c ++ ')' :: t) := by
        simp [print]
      rw [hsplit, scan_head hp.name hp.version (follows_blank _), scan_blank (by decide),
        scan_comment (hp.comment c rfl)]

end Scan

/-! ## A row of products -/

/-- A written row is scanned behind any products found before it. -/
theorem scan_join {ps : List Product} (hps : ∀ p ∈ ps, p.Proper) (found : List Product) :
    scan found (Text.join [' '] (ps.map print)) = found.reverse ++ ps := by
  induction ps generalizing found with
  | nil => simp [scan]
  | cons p ps ih =>
      have hp := hps p List.mem_cons_self
      have hrest : ∀ q ∈ ps, q.Proper := fun q hq => hps q (List.mem_cons_of_mem p hq)
      cases ps with
      | nil =>
          have hscan := @scan_print found [] p hp follows_nil
          rw [List.append_nil] at hscan
          rw [List.map_singleton, Text.join_singleton, hscan, scan, List.reverse_cons]
      | cons q qs =>
          have hnext := ih hrest (p :: found)
          rw [List.map_cons] at hnext ⊢
          rw [List.map_cons, Text.join_cons_cons, List.append_assoc,
            List.singleton_append, scan_print hp (follows_blank _), scan_blank (by decide), hnext,
            List.reverse_cons, List.append_assoc, List.singleton_append]

/-- **A written row of products is read back.** -/
theorem readAll_print (ps : List Product) (hps : ∀ p ∈ ps, p.Proper) :
    readAll (Text.join [' '] (ps.map print)) = ps := by
  rw [readAll, scan_join hps]
  rfl

/-- The middle one of these has a comment that looks like a row of products itself. -/
def nested : List Product :=
  [⟨"gcc".toList, none, none⟩, ⟨"ld".toList, some "2.4".toList, some "(a b/1) é (c)".toList⟩,
    ⟨"as".toList, none, some "x".toList⟩]

theorem nested_readAll_print :
    (∀ p ∈ nested, p.Proper) ∧ readAll "gcc ld/2.4 ((a b/1) é (c)) as (x)".toList = nested := by
  have hproper : ∀ p ∈ nested, p.Proper := by decide +kernel
  have htext : Text.join [' '] (nested.map print) =
      "gcc ld/2.4 ((a b/1) é (c)) as (x)".toList := by decide +kernel
  have hread := readAll_print nested hproper
  rw [htext] at hread
  exact ⟨hproper, hread⟩

end Product

end ContentNegotiation
