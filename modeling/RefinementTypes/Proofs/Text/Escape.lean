import Mathlib.Algebra.Ring.Parity
import Mathlib.Data.List.Induction
import RefinementTypes.Proofs.Text.Quoted

/-!
# Escapes in quoted strings

Between its quotes a string is written without control characters, and a quote that stands there
comes behind an odd number of backslashes: the last of them escapes the quote and the others escape
each other.
-/

namespace RefinementTypes.Text

/-- How many backslashes a text ends with. -/
def backslashes (t : Text) : Nat := (t.reverse.takeWhile (· = .char '\\')).length

private theorem backslashes_concat_backslash (t : Text) :
    backslashes (t ++ [.char '\\']) = backslashes t + 1 := by
  simp [backslashes]

private theorem backslashes_concat_of_ne (t : Text) {p : CodePoint} (hp : p ≠ .char '\\') :
    backslashes (t ++ [p]) = 0 := by
  simp [backslashes, hp]

namespace Quoted

/-- A code point that stands for itself inside the quotes. -/
def IsPlain (p : CodePoint) : Prop := p ≠ .char '"' ∧ p ≠ .char '\\' ∧ 0x20 ≤ p.toNat

instance (p : CodePoint) : Decidable (IsPlain p) := inferInstanceAs (Decidable (_ ∧ _))

/-- How a code point is written inside the quotes. -/
inductive Escape (p : CodePoint) : Text → Prop
  | plain (h : IsPlain p) : Escape p [p]
  /-- A backslash in front of the code point itself. -/
  | same (h : p = .char '"' ∨ p = .char '\\') : Escape p [.char '\\', p]
  /-- A backslash in front of other code points, which are plain. -/
  | mark {t : Text} (hne : t ≠ []) (h : ∀ q ∈ t, IsPlain q) : Escape p (.char '\\' :: t)

private theorem isPlain_hexDigit (n : Nat) : IsPlain (.char (hexDigit n)) := by
  have hdigit : ∀ k < 16, IsPlain (.char (Nat.digitChar k)) := by decide
  exact hdigit (n % 16) (Nat.mod_lt n (by decide))

private theorem escape_escaped (p : CodePoint) : Escape p (escaped p) := by
  have hmark {c : Char} (h : IsPlain (.char c)) : Escape p [.char '\\', .char c] :=
    .mark (by simp) (by simpa using h)
  cases p with
  | half s =>
      have hrange := s.inRange
      refine .plain ⟨by simp, by simp, ?_⟩
      simp only [CodePoint.toNat]
      omega
  | char c =>
      simp only [escaped]
      unfold escape
      -- The quote and the backslash, the control characters with a letter, and all others.
      split
      · exact .same (by simp)
      · exact .same (by simp)
      · exact hmark (by decide)
      · exact hmark (by decide)
      · exact hmark (by decide)
      · exact hmark (by decide)
      · exact hmark (by decide)
      · rename_i hquote hslash _ _ _ _ _
        by_cases hcontrol : c.toNat < 0x20
        · rw [if_pos hcontrol]
          have hletter : IsPlain (.char 'u') := by decide
          have hzero : IsPlain (.char '0') := by decide
          exact .mark (by simp) (by simp [hletter, hzero, isPlain_hexDigit])
        · rw [if_neg hcontrol]
          refine .plain ⟨?_, ?_, ?_⟩
          · simpa using hquote
          · simpa using hslash
          · exact Nat.not_lt.1 hcontrol

private theorem expand_concat (t : Text) (p : CodePoint) :
    expand escape (t ++ [p]) = expand escape t ++ escaped p := by
  induction t with
  | nil =>
      rw [List.nil_append, expand_cons]
      exact List.append_nil _
  | cons q t ih => rw [List.cons_append, expand_cons, expand_cons, ih, List.append_assoc]

private theorem Escape.printable {p q : CodePoint} {t : Text} (h : Escape p t) (hq : q ∈ t) :
    0x20 ≤ q.toNat := by
  cases h with
  | plain h =>
      rw [List.mem_singleton.1 hq]
      exact h.2.2
  | same h =>
      have hp : 0x20 ≤ p.toNat := by rcases h with rfl | rfl <;> decide
      rcases List.mem_cons.1 hq with rfl | hq
      · decide
      · rwa [List.mem_singleton.1 hq]
  | mark hne h =>
      rcases List.mem_cons.1 hq with rfl | hq
      · decide
      · exact (h q hq).2.2

theorem printable_of_mem_expand {t : Text} {q : CodePoint} (h : q ∈ expand escape t) :
    0x20 ≤ q.toNat := by
  induction t with
  | nil => cases h
  | cons p t ih =>
      rw [expand_cons, List.mem_append] at h
      rcases h with h | h
      · exact (escape_escaped p).printable h
      · exact ih h

private theorem Escape.even_backslashes {p : CodePoint} {t u : Text} (h : Escape p u)
    (ht : Even (backslashes t)) : Even (backslashes (t ++ u)) := by
  cases h with
  | plain h =>
      rw [backslashes_concat_of_ne t h.2.1]
      exact Even.zero
  | same h =>
      rw [List.append_cons]
      rcases h with rfl | rfl
      · rw [backslashes_concat_of_ne _ (by decide)]
        exact Even.zero
      · rw [backslashes_concat_backslash, backslashes_concat_backslash]
        exact ht.add even_two
  | @mark mark hne h =>
      have hlast := h _ (List.getLast_mem hne)
      rw [← List.dropLast_concat_getLast hne, ← List.cons_append, ← List.append_assoc,
        backslashes_concat_of_ne _ hlast.2.1]
      exact Even.zero

/-- Behind the text of a whole number of code points no backslash waits for another one. -/
private theorem even_backslashes_expand (t : Text) : Even (backslashes (expand escape t)) := by
  induction t using List.reverseRecOn with
  | nil => exact Even.zero
  | append_singleton t p ih =>
      rw [expand_concat]
      exact (escape_escaped p).even_backslashes ih

/-- The only quote in the text of a code point comes behind a single backslash. -/
private theorem Escape.eq_of_quote {p : CodePoint} {u before after : Text} (h : Escape p u)
    (hu : u = before ++ .char '"' :: after) : before = [.char '\\'] := by
  have hnot {t : Text} (ht : ∀ q ∈ t, IsPlain q) : .char '"' ∉ t := fun hmem => (ht _ hmem).1 rfl
  cases h with
  | plain h =>
      have hmem : .char '"' ∈ [p] := by simp [hu]
      exact absurd hmem (hnot (by simpa using h))
  | same h =>
      cases before with
      | nil => simp at hu
      | cons a before =>
          have hlength := congrArg List.length hu
          simp only [List.length_append, List.length_cons, List.length_nil] at hlength
          have hbefore : before = [] := List.length_eq_zero_iff.1 (by omega)
          rw [List.cons_append, List.cons.injEq] at hu
          rw [← hu.1, hbefore]
  | mark hne h =>
      cases before with
      | nil => simp at hu
      | cons a before =>
          rw [List.cons_append, List.cons.injEq] at hu
          have hmem : .char '"' ∈ before ++ .char '"' :: after := by simp
          rw [← hu.2] at hmem
          exact absurd hmem (hnot h)

/-- A quote inside a string is escaped. -/
theorem odd_backslashes_of_quote {t before after : Text}
    (h : expand escape t = before ++ .char '"' :: after) : Odd (backslashes before) := by
  induction t using List.reverseRecOn generalizing after with
  | nil => simp [expand] at h
  | append_singleton t p ih =>
      rw [expand_concat, List.append_eq_append_iff] at h
      -- The quote stands in the text of the last code point, or in front of it.
      rcases h with ⟨front, rfl, hfront⟩ | ⟨back, hback, hrest⟩
      · rw [(escape_escaped p).eq_of_quote hfront, backslashes_concat_backslash]
        exact (even_backslashes_expand t).add_one
      · cases back with
        | nil =>
            rw [List.nil_append, ← List.nil_append (_ :: after)] at hrest
            have hempty := (escape_escaped p).eq_of_quote hrest.symm
            cases hempty
        | cons a back =>
            rw [List.cons_append, List.cons.injEq] at hrest
            rw [← hrest.1] at hback
            exact ih hback

end Quoted
end RefinementTypes.Text
