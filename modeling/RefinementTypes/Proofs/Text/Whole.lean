import RefinementTypes.Declaration.Companion
import RefinementTypes.Proofs.Term.Fresh
import RefinementTypes.Proofs.Text.Lines
import RefinementTypes.Proofs.Text.Quoted

/-!
# Whole texts

Wholeness is a matter of single code points, so what is put together from texts is whole exactly if
all of them are. Quoting and cutting into lines neither hide a surrogate nor bring one in.
-/

namespace RefinementTypes
namespace Text

@[simp]
theorem isWhole_nil : isWhole [] = true := rfl

@[simp]
theorem isWhole_append (s t : Text) : isWhole (s ++ t) = (s.isWhole && t.isWhole) :=
  List.all_append

theorem isWhole_cons (p : CodePoint) (t : Text) :
    isWhole (p :: t) = (!p.isHalf && isWhole t) := rfl

@[simp]
theorem isWhole_ofString (s : String) : isWhole (ofString s) = true := isWhole_ofChars _

theorem isWhole_join {separator : Text} (h : separator.isWhole = true) (ts : List Text) :
    isWhole (join separator ts) = ts.all isWhole := by
  induction ts with
  | nil => rfl
  | cons t ts ih =>
      cases ts with
      | nil => simp [join]
      | cons u us =>
          rw [join_cons_cons, isWhole_append, isWhole_append, h, ih, Bool.and_true, ← List.all_cons]

@[simp]
theorem isWhole_intText (i : Int) : isWhole (Decimal.intText i) = true := isWhole_ofChars _

private theorem isWhole_escaped (p : CodePoint) : isWhole (Quoted.escaped p) = !p.isHalf := by
  cases p with
  | char c => exact isWhole_ofChars _
  | half s => rfl

@[simp]
theorem isWhole_encode (t : Text) : isWhole (Quoted.encode t) = t.isWhole := by
  have hbody : isWhole (expand Quoted.escape t) = t.isWhole := by
    induction t with
    | nil => rfl
    | cons p t ih => rw [Quoted.expand_cons, isWhole_append, isWhole_escaped, ih, isWhole_cons]
  have hquote : isWhole [.char '"'] = true := rfl
  rw [Quoted.encode, isWhole_cons, isWhole_append, hbody, hquote]
  simp [CodePoint.isHalf]

private theorem isHalf_of_isLineSeparator {p : CodePoint} (h : isLineSeparator p = true) :
    p.isHalf = false := by
  cases p with
  | char c => rfl
  | half s =>
      have hrange := range_of_isLineSeparator h
      have hsurrogate := s.inRange.1
      simp only [CodePoint.toNat] at hrange
      omega

@[simp]
theorem isWhole_lines (t : Text) : (lines t).all isWhole = t.isWhole := by
  fun_induction lines t with
  | case1 => rfl
  | case2 t ih => simpa [isWhole_cons, CodePoint.isHalf] using ih
  | case3 p t _ hp ih => simpa [isWhole_cons, isHalf_of_isLineSeparator hp] using ih
  | case4 p t _ _ hlines ih =>
      rw [hlines] at ih
      simp [isWhole_cons, ← ih]
  | case5 p t _ _ first rest hlines ih =>
      rw [hlines] at ih
      simp [isWhole_cons, ← ih, Bool.and_assoc]

end Text

theorem Strategy.isWhole_spelling (strategy : Strategy) :
    (Spelled.spelling strategy).isWhole = true := by
  cases strategy <;> rfl

theorem Visibility.isWhole_spelling (visibility : Visibility) :
    (Spelled.spelling visibility).isWhole = true := by
  cases visibility <;> rfl

@[simp]
theorem isWhole_freshName (base : Text) (taken : List Text) :
    (freshName base taken).isWhole = base.isWhole := by
  have hfresh := freshName_firstFree base taken
  generalize freshName base taken = x at hfresh ⊢
  cases hfresh with
  | plain _ => rfl
  | numbered k _ _ _ => simp [numbered, Text.isWhole_ofChars]

end RefinementTypes
