import ApiSurface.Facts.Types

/-!
# Validation constraints

Bounds, lengths, patterns and enumerated values that a declaration puts on a value.
-/

namespace ApiSurface

open ApiSurface.Numeral (Number)

/-- Constraints on a value; what is absent does not constrain. -/
structure Constraints where
  gt : Option Number
  ge : Option Number
  lt : Option Number
  le : Option Number
  multipleOf : Option Number
  minLength : Option Nat
  maxLength : Option Nat
  pattern : Option String
  enumValues : List LiteralValue
deriving Inhabited, Repr

namespace Constraints

/-- No constraint. -/
def empty : Constraints := ⟨none, none, none, none, none, none, none, none, []⟩

/-- Whether nothing is constrained. -/
def isEmpty (c : Constraints) : Bool :=
  c.gt.isNone && c.ge.isNone && c.lt.isNone && c.le.isNone && c.multipleOf.isNone &&
    c.minLength.isNone && c.maxLength.isNone && c.pattern.isNone && c.enumValues.isEmpty

/-- Fill what is absent from `other`. -/
def orElse (c other : Constraints) : Constraints where
  gt := c.gt <|> other.gt
  ge := c.ge <|> other.ge
  lt := c.lt <|> other.lt
  le := c.le <|> other.le
  multipleOf := c.multipleOf <|> other.multipleOf
  minLength := c.minLength <|> other.minLength
  maxLength := c.maxLength <|> other.maxLength
  pattern := c.pattern <|> other.pattern
  enumValues := if c.enumValues.isEmpty then other.enumValues else c.enumValues

def toJson (c : Constraints) : Json := .obj <|
  Json.member? "gt" .num c.gt ++ Json.member? "ge" .num c.ge ++
  Json.member? "lt" .num c.lt ++ Json.member? "le" .num c.le ++
  Json.member? "multiple_of" .num c.multipleOf ++
  Json.member? "min_length" .nat c.minLength ++
  Json.member? "max_length" .nat c.maxLength ++
  Json.member? "pattern" .str c.pattern ++
  Json.members? "enum_values" (fun l => .arr (l.map LiteralValue.toJson)) c.enumValues

/-- The member of a fact; left out when nothing is constrained. -/
def toMember (c : Constraints) : List (String × Json) :=
  if c.isEmpty then [] else [("constraints", c.toJson)]

end Constraints

end ApiSurface
