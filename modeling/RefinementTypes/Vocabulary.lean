import RefinementTypes.Text.Basic

/-!
# Vocabulary

The names of the host language that generated declarations use, and the syntaxes of literals that
a refinement type can be given.
-/

namespace RefinementTypes

inductive LiteralKind where
  | integer
  | float
  | string
deriving DecidableEq

instance : Spelled LiteralKind where
  members := [.integer, .float, .string]
  spelling
    | .integer => "integer"
    | .float => "float"
    | .string => "string"

/-- A function that converts a literal of the given type. -/
structure Conversion where
  function : Text
  literalType : Text
deriving DecidableEq

structure Vocabulary where
  maybeType : Text := "Maybe"
  just : Text := "Just"
  nothing : Text := "Nothing"
  isJust : Text := "IsJust"
  fromJust : Text := "fromJust"
  /-- The decision procedure: applied to a predicate and a value it answers `yes` or `no`. -/
  decide : Text := "decide"
  yes : Text := "Yes"
  no : Text := "No"
  refineName : Text := "refine"
  /-- The three names that a generated binder takes when they are free. -/
  rawName : Text := "v"
  literalName : Text := "n"
  witnessName : Text := "prf"
  integerConversion : Text := "fromInteger"
  integerType : Text := "Integer"
  floatConversion : Text := "fromDouble"
  floatType : Text := "Double"
  stringConversion : Text := "fromString"
  stringType : Text := "String"
deriving DecidableEq

namespace Vocabulary

def conversion (v : Vocabulary) : LiteralKind → Conversion
  | .integer => ⟨v.integerConversion, v.integerType⟩
  | .float => ⟨v.floatConversion, v.floatType⟩
  | .string => ⟨v.stringConversion, v.stringType⟩

end Vocabulary
end RefinementTypes
