import ApiSurface.Expr.Template
import ApiSurface.Numeral.Number
import ApiSurface.Types.Descriptor

/-!
# Scalar literals

Truth values, numbers and the literal values that may stand in types and enumerations.
-/

namespace ApiSurface.Expr

open ApiSurface.Syntax (Node)
open ApiSurface.Numeral (Number)

/-- Whether the expression is `...`. -/
def isEllipsis (n : Node) : Bool := (stripParens n).kind == "ellipsis"

/-- The value of `True` or `False`. -/
def boolValue? (n : Node) : Option Bool :=
  match (stripParens n).kind with
  | "true" => some true
  | "false" => some false
  | _ => none

/-- The numeral that a number with signs in front of it amounts to, without underscores. Minus
signs are kept, the other prefix operators are not. -/
def numeral? (n : Node) : Option (List Char) :=
  let m := stripParens n
  if m.kind = "integer" ∨ m.kind = "float" then
    some (m.text.toList.filter (· ≠ '_'))
  else if m.kind = "unary_operator" then
    match _h : m.childByField? "argument" with
    | some operand =>
      (numeral? operand).map fun inner => if m.hasToken "-" then '-' :: inner else inner
    | none => none
  else none
termination_by sizeOf n
decreasing_by
  exact Nat.lt_of_lt_of_le (Node.sizeOf_lt_of_childByField? _h) (sizeOf_stripParens_le n)

/-- The value of an integer expression. -/
def intValue? (n : Node) : Option Int := (numeral? n).bind Numeral.word?

/-- The value of a number expression. -/
def numberValue? (n : Node) : Option Number := (numeral? n).bind Number.read?

/-- The literal value of an expression that may stand in a literal type or an enumeration. -/
def literalValue? (n : Node) : Option LiteralValue :=
  let n := stripParens n
  match n.kind with
  | "string" | "concatenated_string" => (stringLiteral? n).map .str
  | "true" => some (.bool true)
  | "false" => some (.bool false)
  | "none" => some .null
  | "integer" | "unary_operator" =>
    some (match intValue? n with
      | some i => .int i
      | none => .other n.text)
  | "float" | "attribute" | "identifier" => some (.other n.text)
  | _ => none

end ApiSurface.Expr
