import RefinementTypes.Source.Module

/-!
# Cutting a text into lines

Cutting at every line separator is the same as cutting at line feeds alone, for a text that has no
other separator and does not end with one. The lines themselves hold no separator.
-/

namespace RefinementTypes.Text

theorem range_of_isLineSeparator {p : CodePoint} (h : isLineSeparator p = true) :
    p.toNat ≤ 0x1e ∨ 0x85 ≤ p.toNat ∧ p.toNat ≤ 0x2029 := by
  simp only [isLineSeparator, Bool.or_eq_true, Bool.and_eq_true, decide_eq_true_eq,
    beq_iff_eq] at h
  omega

/-- The line separators that stand in a text, in order. -/
def separators (t : Text) : Text := t.filter isLineSeparator

/-- A line separator that is no line feed. -/
def isStray (p : CodePoint) : Bool := isLineSeparator p && p != .char '\n'

theorem separators_append (s t : Text) : separators (s ++ t) = separators s ++ separators t :=
  List.filter_append ..

theorem filter_isStray_separators (t : Text) :
    (separators t).filter isStray = t.filter isStray := by
  rw [separators, List.filter_filter]
  congr 1
  funext p
  cases hp : isLineSeparator p <;> simp [isStray, hp]

theorem join_cons_cons (separator t u : Text) (us : List Text) :
    join separator (t :: u :: us) = t ++ separator ++ join separator (u :: us) := rfl

theorem join_append_singleton (separator t : Text) {ts : List Text} (h : ts ≠ []) :
    join separator (ts ++ [t]) = join separator ts ++ separator ++ t := by
  induction ts with
  | nil => exact absurd rfl h
  | cons u us ih =>
      cases us with
      | nil => rfl
      | cons w us =>
          rw [List.cons_append, List.cons_append, join_cons_cons, join_cons_cons,
            ← List.cons_append, ih (by simp)]
          simp only [List.append_assoc]

private theorem join_eq_intercalate (separator : Text) (ts : List Text) :
    join separator ts = separator.intercalate ts := by
  induction ts with
  | nil => rw [join, List.intercalate_nil]
  | cons t ts ih =>
      cases ts with
      | nil => rw [join, List.intercalate_singleton]
      | cons u us => rw [join_cons_cons, ih, List.intercalate_cons_cons]

theorem filter_join {f : CodePoint → Bool} {separator : Text} (h : separator.filter f = [])
    (ts : List Text) : (join separator ts).filter f = ts.flatMap (List.filter f) := by
  induction ts with
  | nil => rfl
  | cons t ts ih =>
      cases ts with
      | nil => simp [join]
      | cons u us => simp [join_cons_cons, h, ih]

def splitFeeds (t : Text) : List Text := t.splitOn (.char '\n')

theorem join_splitFeeds (t : Text) : join "\n" (splitFeeds t) = t := by
  rw [join_eq_intercalate]
  exact List.intercalate_splitOn _

theorem splitFeeds_join {ts : List Text} (hne : ts ≠ []) (h : ∀ t ∈ ts, .char '\n' ∉ t) :
    splitFeeds (join "\n" ts) = ts := by
  rw [join_eq_intercalate]
  exact List.splitOn_intercalate _ h hne

theorem splitFeeds_ne_nil (t : Text) : splitFeeds t ≠ [] := List.splitOn_ne_nil _ _

private theorem splitFeeds_feed (t : Text) : splitFeeds (.char '\n' :: t) = [] :: splitFeeds t := by
  rw [splitFeeds, List.splitOn_cons_eq_if_modifyHead, if_pos (by simp)]
  rfl

private theorem splitFeeds_cons {p : CodePoint} (hp : p ≠ .char '\n') {t line : Text}
    {rest : List Text}
    (h : splitFeeds t = line :: rest) : splitFeeds (p :: t) = (p :: line) :: rest := by
  rw [splitFeeds] at h ⊢
  rw [List.splitOn_cons_eq_if_modifyHead, if_neg (by simpa using hp), h]
  rfl

theorem feed_not_mem_of_mem_splitFeeds {t line : Text} (h : line ∈ splitFeeds t) :
    .char '\n' ∉ line := by
  induction t generalizing line with
  | nil =>
      have hline : line = [] := by simpa [splitFeeds] using h
      simp [hline]
  | cons p t ih =>
      by_cases hp : p = .char '\n'
      · rw [hp, splitFeeds_feed] at h
        rcases List.mem_cons.1 h with rfl | h
        · simp
        · exact ih h
      · obtain ⟨first, rest, hsplit⟩ := List.exists_cons_of_ne_nil (splitFeeds_ne_nil t)
        rw [splitFeeds_cons hp hsplit] at h
        rw [hsplit] at ih
        rcases List.mem_cons.1 h with rfl | h
        · have hfirst : .char '\n' ∉ first := ih (by simp)
          simp [Ne.symm hp, hfirst]
        · exact ih (by simp [h])

theorem separators_of_mem_lines {t line : Text} (h : line ∈ lines t) : separators line = [] := by
  fun_induction lines t generalizing line with
  | case1 => cases h
  | case2 t ih =>
      rcases List.mem_cons.1 h with rfl | h
      · rfl
      · exact ih h
  | case3 p t hcrlf hp ih =>
      rcases List.mem_cons.1 h with rfl | h
      · rfl
      · exact ih h
  | case4 p t hcrlf hp hlines ih =>
      have hline : line = [p] := by simpa using h
      simp [hline, separators, hp]
  | case5 p t hcrlf hp first rest hlines ih =>
      rcases List.mem_cons.1 h with rfl | h
      · have hfirst : separators first = [] := ih (by simp [hlines])
        rw [separators] at hfirst ⊢
        rw [List.filter_cons_of_neg hp, hfirst]
      · exact ih (by simp [hlines, h])

private theorem lines_ne_nil {t : Text} (h : t ≠ []) : lines t ≠ [] := by
  fun_induction lines t with
  | case1 => exact absurd rfl h
  | _ => simp

theorem lines_eq_splitFeeds {t : Text} (hne : t ≠ []) (hlast : t.getLast? ≠ some (.char '\n'))
    (hstray : t.filter isStray = []) : lines t = splitFeeds t := by
  fun_induction lines t with
  | case1 => exact absurd rfl hne
  | case2 t ih =>
      -- A carriage return, even in front of a line feed, would be a stray separator.
      have hreturn : isStray (.char '\r') = true := by decide
      rw [List.filter_cons_of_pos hreturn] at hstray
      cases hstray
  | case3 p t hcrlf hp ih =>
      rw [List.filter_eq_nil_iff, List.forall_mem_cons] at hstray
      have hfeed : p = .char '\n' := by simpa [isStray, hp] using hstray.1
      have ht : t ≠ [] := by
        rintro rfl
        simp [hfeed] at hlast
      rw [List.getLast?_cons_of_ne_nil ht] at hlast
      rw [hfeed, splitFeeds_feed, ih ht hlast (List.filter_eq_nil_iff.2 hstray.2)]
  | case4 p t hcrlf hp hlines ih =>
      have ht : t = [] := by
        apply Classical.byContradiction
        intro ht
        exact lines_ne_nil ht hlines
      have hfeed : p ≠ .char '\n' := by
        rintro rfl
        exact hp (by decide)
      have hempty : splitFeeds [] = [[]] := rfl
      rw [ht, splitFeeds_cons hfeed hempty]
  | case5 p t hcrlf hp first rest hlines ih =>
      have ht : t ≠ [] := by
        rintro rfl
        simp [lines] at hlines
      have hfeed : p ≠ .char '\n' := by
        rintro rfl
        exact hp (by decide)
      rw [List.getLast?_cons_of_ne_nil ht] at hlast
      rw [List.filter_eq_nil_iff, List.forall_mem_cons] at hstray
      have hsplit := ih ht hlast (List.filter_eq_nil_iff.2 hstray.2)
      rw [hlines] at hsplit
      rw [splitFeeds_cons hfeed hsplit.symm]

end RefinementTypes.Text
