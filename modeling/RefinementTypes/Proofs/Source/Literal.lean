import RefinementTypes.Proofs.Binary64.Shortest
import RefinementTypes.Proofs.Decimal.Value
import RefinementTypes.Proofs.Json.Machine
import RefinementTypes.Proofs.Text.Escape
import RefinementTypes.Source.Term

/-!
# Literals keep their values

A finite double is written in positional notation, with the value and the sign of the text by which
it is shown. A string is written as a JSON string and is read back from it.
-/

namespace RefinementTypes

/-- The text by which a finite double is shown is read as a decimal with the value of the shortest
one and the sign of the double, and as the double. -/
theorem Binary64.exists_parse?_display (negative : Bool) (rank : Fin finiteCount) :
    ∃ cs d, display (.finite negative rank) = Text.ofChars cs ∧ Decimal.parse? cs = some d ∧
      d.value = (shortest negative rank).value ∧ d.negative = negative ∧
      ofDecimal d = .finite negative rank := by
  obtain ⟨d, hread, hd⟩ := Decimal.exists_parse?_general (shortest negative rank)
  refine ⟨(shortest negative rank).general, d, rfl, hread, ?_⟩
  rcases hd with rfl | rfl
  · exact ⟨rfl, negative_shortest negative rank, ofDecimal_shortest negative rank⟩
  · refine ⟨Decimal.value_pointed _, ?_, ?_⟩
    · rw [Decimal.negative_pointed, negative_shortest]
    · rw [ofDecimal_pointed, ofDecimal_shortest]

/-- A string as it is written is a JSON text, and that of the string. -/
theorem Json.parse_encode (s : Text) : Json.parse (Text.Quoted.encode s) = .ok (.str s) := by
  have hdecode := Text.Quoted.decode_expand s []
  have hstep : run? 1 (.ahead [] (Text.Quoted.encode s)) = some (.behind (.str s) [] []) := by
    simp only [run?, step?, Text.Quoted.encode, hdecode, Option.bind_some]
  exact parse_of_run hstep rfl

namespace Source

/-- A finite double is written as a sign, digits, a point and digits. Its text and the one by which
it is shown are read as decimals of one value and of its sign, and either of them as the double. An
atomic position puts it in parentheses if it begins with a minus sign. -/
theorem term_float_keeps_value (negative : Bool) (rank : Fin finiteCount) :
    ∃ written shown : List Char,
      Decimal.IsPositional negative written ∧
      (∀ p, term p (.lit (.float (.finite negative rank))) =
        .ok (parenthesize (p.isAtomic && written.head? = some '-') (Text.ofChars written))) ∧
      Binary64.display (.finite negative rank) = Text.ofChars shown ∧
      ∃ w s, Decimal.parse? written = some w ∧ Decimal.parse? shown = some s ∧
        w.value = s.value ∧ w.negative = negative ∧ s.negative = negative ∧
        Binary64.ofDecimal w = .finite negative rank ∧
        Binary64.ofDecimal s = .finite negative rank := by
  obtain ⟨shown, s, hshown, hread, hvalue, hsign, hdouble⟩ :=
    Binary64.exists_parse?_display negative rank
  have hform := Decimal.isPositional_positional (Binary64.shortest negative rank)
  rw [Binary64.negative_shortest] at hform
  refine ⟨(Binary64.shortest negative rank).positional, shown, hform, ?_, hshown,
    (Binary64.shortest negative rank).pointed, s, Decimal.parse?_positional _, hread, ?_, ?_, hsign,
    ?_, hdouble⟩
  · intro p
    simp only [hform.head?_eq_minus_iff, Bool.decide_eq_true, Bool.and_comm p.isAtomic]
    rfl
  · rw [Decimal.value_pointed, hvalue]
  · rw [Decimal.negative_pointed, Binary64.negative_shortest]
  · rw [Binary64.ofDecimal_pointed, Binary64.ofDecimal_shortest]

-- The sign of zero is kept, and so are the digits of a power that is shown with an exponent.
example : (Decimal.positional ⟨true, 0, 0⟩, Decimal.positional ⟨false, 1, 20⟩) =
    ("-0.0".toList, "100000000000000000000.0".toList) := by
  decide

/-- A string is written in double quotes, between which nothing is a control character and every
quote is escaped. It is read back from the text, which is used up. -/
theorem term_string_lossless (p : Position) (s : Text) :
    ∃ text body : Text,
      term p (.lit (.str s)) = .ok text ∧
      text = .char '"' :: (body ++ [.char '"']) ∧
      Text.Quoted.decode (body ++ [.char '"']) = .ok (s, []) ∧
      Json.parse text = .ok (.str s) ∧
      (∀ q ∈ text, 0x20 ≤ q.toNat) ∧
      ∀ before after, body = before ++ .char '"' :: after → Odd (Text.backslashes before) := by
  refine ⟨Text.Quoted.encode s, Text.expand Text.Quoted.escape s, rfl, rfl,
    Text.Quoted.decode_expand s [], Json.parse_encode s, ?_, ?_⟩
  · intro q hq
    rw [Text.Quoted.encode, List.mem_cons, List.mem_append, List.mem_singleton] at hq
    rcases hq with rfl | hq | rfl
    · decide
    · exact Text.Quoted.printable_of_mem_expand hq
    · decide
  · intro before after h
    exact Text.Quoted.odd_backslashes_of_quote h

end Source

end RefinementTypes
