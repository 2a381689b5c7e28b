import ApiSurface.TypeHint.Normalize
import ApiSurface.Facts.Schema

/-!
# Fields of classes

What an assignment in a class body says about a field, and lists of fields in which a name occurs
once.
-/

namespace ApiSurface.SchemaField

open ApiSurface.Syntax (Node)
open ApiSurface.Expr (Arguments stripParens)

/-- Put a field in the place of the one with its name, or else at the end. -/
def put (f : SchemaField) : List SchemaField → List SchemaField
  | [] => [f]
  | g :: r => if g.name = f.name then f :: r else g :: put f r

/-- The call that describes the field, when the value is one. -/
def factory? (s : Source) (value : Node) : Option Node := do
  let value := stripParens value
  if value.kind = "call" then
    let function ← value.childByField? "function"
    let path ← s.table.qualify function
    if Catalog.isFieldFactory path then pure value else none
  else none

/-- The type of a literal. -/
def literalType (value : Node) : TypeInfo :=
  match (stripParens value).kind with
  | "string" | "concatenated_string" => .of (.primitive "string")
  | "integer" => .of (.primitive "int")
  | "float" => .of (.primitive "float")
  | "true" | "false" => .of (.primitive "bool")
  | "none" => .of .none
  | _ => .unknown

/-- The type of a field and the constraints that its annotation carries. Without an annotation
there is a field only when the value is a literal or describes one. -/
def typeOf? (s : Source) (hint value : Option Node) : Option (TypeInfo × Constraints) :=
  match hint with
  | some a => some (TypeHint.normalize s a, TypeHint.constraintsIn s a)
  | none =>
    value.bind fun v =>
      if (factory? s v).isSome || (Expr.literalValue? v).isSome then
        some (literalType v, .empty)
      else none

/-- What the value of a field says. -/
structure Details where
  hasDefault : Bool
  default : Option String
  aliasName : Option String
  description : Option String
  constraints : Constraints

/-- Whether a call that describes a field gives a default, and its summary. -/
def defaultOf (args : Arguments) : Bool × Option String :=
  match args.keyword? "default_factory" with
  | some factory => (true, some ("factory:" ++ factory.text))
  | none =>
    match args.get? 0 "default" with
    | some v => if Expr.isEllipsis v then (false, none) else (true, some (Expr.summary v))
    | none => (false, none)

/-- What the value of a field says, on top of the constraints of its annotation. -/
def details (s : Source) (value : Option Node) (constraints : Constraints) : Details :=
  match value with
  | none => ⟨false, none, none, none, constraints⟩
  | some v =>
    match factory? s v with
    | some call =>
      let args := Arguments.ofCall call
      let (hasDefault, default) := defaultOf args
      { hasDefault, default
        aliasName := (args.keyword? "alias").bind Expr.stringLiteral?
        description := (args.keyword? "description").bind Expr.stringLiteral?
        constraints := (Expr.constraintsOf args).orElse constraints }
    | none => ⟨true, some (Expr.summary v), none, none, constraints⟩

/-- The constraints with the values of a literal type. -/
def withLiteralValues (c : Constraints) (d : Descriptor) : Constraints :=
  match d.unwrapOptional with
  | .literal values => if c.enumValues.isEmpty then { c with enumValues := values } else c
  | _ => c

/-- Whether a value has to be given for the field. Qualifiers decide first, then the settings of
the class. -/
def isRequired (type : TypeInfo) (total : Option Bool) (hasDefault : Bool) : Bool :=
  if type.metadata.contains "NotRequired" then false
  else if type.metadata.contains "Required" then true
  else if total = some false then false
  else !hasDefault && !type.descriptor.isOptional

/-- The field that an assignment to a name declares, if it declares one. -/
def ofAssignment? (s : Source) (total : Option Bool) (name : String)
    (hint value : Option Node) : Option SchemaField := do
  let (type, constraints) ← typeOf? s hint value
  if type.metadata.contains "ClassVar" then none
  else
    let d := details s value constraints
    pure
      { name, type
        required := isRequired type total d.hasDefault
        default := d.default
        aliasName := d.aliasName
        description := d.description
        constraints := withLiteralValues d.constraints type.descriptor
        inheritedFrom := none }

end ApiSurface.SchemaField
