import ApiSurface.TypeHint.Normalize
import ApiSurface.Doc.Docstring
import ApiSurface.Facts.Tool

/-!
# Tools of a file

The functions that a file offers on tool servers, with the signature that clients see.
-/

namespace ApiSurface.Tool

open ApiSurface.Syntax (Node)
open ApiSurface.Expr (Arguments stripParens stripType)

/-- Types of parameters that the server fills in. -/
def contextTypes : List String :=
  ["mcp.server.fastmcp.Context", "mcp.server.fastmcp.server.Context", "fastmcp.Context",
    "fastmcp.server.Context"]

/-- Whether the server fills in a parameter with the annotation. -/
def isContext (s : Source) (hint : Option Node) : Bool :=
  ((hint.map stripType).bind s.table.qualify).any contextTypes.contains

/-- The parameter that clients see, if they see one. -/
def parameter? (s : Source) (docParams : List (String × String)) (param : Node) :
    Option ToolParameter := do
  let (name, hint) ← Binding.parameterParts? param
  if name.text = "self" ∨ name.text = "cls" ∨ isContext s hint then none
  else
    let default := param.childByField? "value"
    pure
      { name := name.text
        type := match hint with
          | some a => TypeHint.normalize s a
          | none => .unknown
        required := default.isNone
        default := default.map Expr.summary
        description := KeyedList.get? docParams name.text }

/-- The parameters that clients see. -/
def signature (s : Source) (function : Node) (docParams : List (String × String)) :
    List ToolParameter :=
  match function.childByField? "parameters" with
  | some list => list.namedChildren.filterMap (parameter? s docParams)
  | none => []

/-- The name that a server is constructed with. -/
def serverName? (i : Binding.Instance) : Option String := do
  let origin ← i.origin
  if origin.kind = "call" then
    let name ← (Arguments.ofCall origin).get? 0 "name"
    Expr.stringLiteral? name
  else none

/-- A decorator that is a member of an object: the member's name, the object, and the arguments
when the decorator is called. -/
def memberOf? (decorator : Node) : Option (String × Node × Arguments) := do
  let expr ← decorator.firstNamed?.map stripParens
  let (target, args) ←
    if expr.kind = "call" then
      (expr.childByField? "function").map fun f => (stripParens f, Arguments.ofCall expr)
    else some (expr, .empty)
  if target.kind = "attribute" then
    let member ← target.childByField? "attribute"
    let object ← target.childByField? "object"
    pure (member.text, object, args)
  else none

/-- The tool that a decorator makes of a function. -/
def ofDecorator? (s : Source) (decorated function decorator : Node) : Option Tool := do
  let (member, object, args) ← memberOf? decorator
  let kind ← Catalog.toolDecorator? member
  let i ← s.resolve? object
  if i.role.isToolServer then
    let functionName ← function.childByField? "name"
    let doc := Doc.read (function.childByField? "body")
    let parameters := signature s function doc.params
    pure
      { file := s.path
        span := decorated.span
        name := ((args.keyword? "name").bind Expr.stringLiteral?).getD functionName.text
        function := functionName.text
        kind
        uri := (args.get? 0 "uri").bind Expr.stringLiteral?
        isAsync := function.hasToken "async"
        parameters
        returnType := (function.childByField? "return_type").map (TypeHint.normalize s)
        summary := doc.summary
        description := ((args.keyword? "description").bind Expr.stringLiteral?) <|> doc.description
        docParams := doc.params
        returnsDoc := doc.returns
        server := ⟨i.variableName.getD "", i.constructor, serverName? i⟩
        degradations :=
          Degradations.addIf (parameters.any fun p => p.type.descriptor.isUnknown) .unknownType [] }
  else none

/-- The tools that a decorated definition offers, one for each fitting decorator. -/
def ofDecorated (s : Source) (decorated : Node) : List Tool :=
  match (decorated.childByField? "definition").filter fun d => d.kind == "function_definition" with
  | some function =>
    match s.table.definitionOf? function with
    | some d => d.registrations.filterMap (ofDecorator? s decorated function)
    | none => []
  | none => []

/-- The tools of a file in source order. -/
def all (s : Source) : List Tool :=
  (s.tree.nodes.filter fun n => n.kind == "decorated_definition").flatMap (ofDecorated s)

end ApiSurface.Tool
