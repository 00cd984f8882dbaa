import RefinementTypes.Source.Term

/-!
# Tokens of terms

The tokens that the source text of a term spells, in order. They come from the term in the same way
as its text, and with the spaces the text loses nothing else.
-/

namespace RefinementTypes.Source

inductive Token where
  /-- A variable, a parameter, a literal or a hole. -/
  | atom (t : Term)
  | opening
  | closing
  | curlyOpening
  /-- A curly bracket behind the mark of an argument that is found automatically. -/
  | autoOpening
  | curlyClosing
  | colon
  | arrow
  | doubleArrow
  | semicolon
  | case
  | of
  | auto
  | default

namespace Token

def grouped (wrap : Bool) (ts : List Token) : List Token :=
  if wrap then opening :: (ts ++ [closing]) else ts

def isNegative : Literal → Bool
  | .int i => decide (i < 0)
  | .float (.finite negative _) => negative
  | _ => false

mutual

def ofPattern (nested : Bool) : Pattern → List Token
  | .con name [] => [atom (.var name)]
  | .con name (p :: ps) =>
      grouped nested (atom (.var name) :: (ofPattern true p ++ ofPatterns ps))
  | .bind name => [atom (.var name)]
  | .wild => [atom .hole]

def ofPatterns : List Pattern → List Token
  | [] => []
  | p :: ps => ofPattern true p ++ ofPatterns ps

end

def ofLiteral (p : Position) (value : Literal) : List Token :=
  grouped (isNegative value && p.isAtomic) [atom (.lit value)]

def ofQuantity : Multiplicity → List Token
  | .zero => [atom (.lit (.int 0))]
  | .linear => [atom (.lit (.int 1))]
  | .unrestricted => []

def ofBinderName (name : Option Text) : Term := (name.map .var).getD .hole

def ofBinder (name : Option Text) (m : Multiplicity) (info : Explicitness) (type : List Token) :
    List Token :=
  let inner := ofQuantity m ++ atom (ofBinderName name) :: colon :: type
  match info with
  | .explicit => opening :: (inner ++ [closing])
  | .implicit => curlyOpening :: (inner ++ [curlyClosing])
  | .autoImplicit => curlyOpening :: auto :: (inner ++ [curlyClosing])
  | .defaultImplicit => curlyOpening :: default :: (inner ++ [curlyClosing])

def ofArgument (info : Explicitness) (ts : List Token) : List Token :=
  match info with
  | .explicit => ts
  | .autoImplicit => autoOpening :: (ts ++ [curlyClosing])
  | _ => curlyOpening :: (ts ++ [curlyClosing])

mutual

def ofTerm (p : Position) : Term → List Token
  | .var name => [atom (.var name)]
  | .param index => [atom (.param index)]
  | .lit value => ofLiteral p value
  | .hole => [atom .hole]
  | .app fn arg info =>
      grouped (p = .argument)
        (ofTerm .head fn ++ ofArgument info (ofTerm (argumentPosition info) arg))
  | .pi name m info domain result =>
      let left :=
        if isPlainDomain name m info then ofTerm .domain domain
        else ofBinder name m info (ofTerm .top domain)
      grouped p.isInner (left ++ arrow :: ofTerm .top result)
  | .case scrutinee alternatives =>
      grouped p.isInner (case :: (ofTerm .top scrutinee ++
        of :: curlyOpening :: (ofAlternatives alternatives ++ [curlyClosing])))

def ofAlternatives : List (Pattern × Term) → List Token
  | [] => []
  | [(p, body)] => ofPattern false p ++ doubleArrow :: ofTerm .top body
  | (p, body) :: rest =>
      ofPattern false p ++ doubleArrow :: (ofTerm .top body ++ semicolon :: ofAlternatives rest)

end

end Token
end RefinementTypes.Source
