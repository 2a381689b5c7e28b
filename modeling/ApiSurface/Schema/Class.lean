import ApiSurface.Doc.Docstring
import ApiSurface.Schema.Config
import ApiSurface.Schema.Field

/-!
# Classes

Every class of a file with its bases, fields, settings and validators. Whether a class is a data
shape can depend on classes in other files, so nothing is left out here.
-/

namespace ApiSurface.ClassDecl

open ApiSurface.Syntax (Node)
open ApiSurface.Expr (Arguments stripParens stripType boolValue?)

/-! ### Bases -/

/-- The name and the type arguments of a base class. -/
def baseParts? (base : Node) : Option (Node × List Node) :=
  match base.kind with
  | "subscript" => (base.childByField? "value").map fun v => (v, base.childrenByField "subscript")
  | "identifier" | "attribute" => some (base, [])
  | _ => none

/-- Whether the first name of a base is imported. -/
def isImported (s : Source) (head : Node) : Bool :=
  let first := Text.trim (Text.beforeFirst '.' head.text.toList)
  match s.table.lookup (String.ofList first) head with
  | some (.imported _) => true
  | _ => false

/-- What is needed to find a base in another file. -/
def baseRef (s : Source) (base head : Node) (qualified : Option String) : BaseRef :=
  match if isImported s head then qualified else none with
  | some path =>
    match Text.splitLastString '.' path with
    | some (module, symbol) => ⟨base.text, symbol, some module, some path⟩
    | none => ⟨base.text, path, none, some path⟩
  | none => ⟨base.text, Text.afterLastString '.' head.text, none, none⟩

/-- Add a type parameter unless it is there. -/
def addTypeParam (l : List String) (n : Node) : List String :=
  let name := (stripType n).text
  if l.contains name then l else l ++ [name]

/-- The class with one more base. The base that lists type parameters is none of its bases. -/
def addBase (s : Source) (decl : ClassDecl) (arg : Node) : ClassDecl :=
  let base := stripParens arg
  match baseParts? base with
  | none => decl
  | some (head, args) =>
    let qualified := s.table.qualify head
    let path := qualified.getD head.text
    if path = "typing.Generic" ∨ path = "Generic" then
      { decl with typeParams := args.foldl addTypeParam decl.typeParams }
    else
      { decl with
        directKind := decl.directKind <|> qualified.bind s.catalog.modelBase?
        isEnum := decl.isEnum || qualified.any Catalog.isEnumBase
        bases := decl.bases ++ [baseRef s base head qualified] }

/-- The class with what stands between the parentheses of its statement. -/
def addBases (s : Source) (decl : ClassDecl) (superclasses : Node) : ClassDecl :=
  let args := Arguments.ofList superclasses
  let decl := args.positional.foldl (addBase s) decl
  let keywords := args.keywords.filter fun k => k.1 != "metaclass"
  { decl with config := decl.config.setAll keywords }

/-! ### Decorators -/

/-- The callee of a decorator, and the call when there is one; absent when the call has no
callee. -/
def decoratorParts? (expr : Node) : Option (Node × Option Node) :=
  if expr.kind = "call" then (expr.childByField? "function").map fun f => (f, some expr)
  else some (expr, none)

/-- The decorators of a decorated definition. -/
def decoratorsOf (decorated : Node) : List Node :=
  decorated.children.filter fun c => c.kind == "decorator"

/-- The class with what one decorator says. -/
def addDecorator (s : Source) (decl : ClassDecl) (decorator : Node) : ClassDecl :=
  match (decorator.firstNamed?.map stripParens).bind decoratorParts? with
  | none => decl
  | some (target, call) =>
    if (s.table.qualify target).any Catalog.isModelDecorator then
      let frozen := (call.bind fun c => (Arguments.ofCall c).keyword? "frozen").bind boolValue?
      { decl with
        directKind := decl.directKind <|> some .dataclass
        config := { decl.config with frozen := frozen.getD decl.config.frozen } }
    else decl

/-- The class with what its decorators say. -/
def addDecorators (s : Source) (decl : ClassDecl) (definition : Node) : ClassDecl :=
  match s.tree.parent? definition with
  | some p =>
    if p.kind = "decorated_definition" then (decoratorsOf p).foldl (addDecorator s) decl else decl
  | none => decl

/-! ### Body -/

/-- The validator that the first fitting decorator makes of a method. -/
def validatorFrom? (s : Source) (method : String) : List Node → Option Validator
  | [] => none
  | decorator :: rest =>
    match decorator.firstNamed?.map stripParens with
    | none => validatorFrom? s method rest
    | some expr =>
      match decoratorParts? expr with
      | none => none
      | some (target, call) =>
        match Catalog.validatorKind? ((s.table.qualify target).getD target.text) with
        | none => validatorFrom? s method rest
        | some kind =>
          let fields := match call with
            | some c => (Arguments.ofCall c).positional.filterMap Expr.stringLiteral?
            | none => []
          some ⟨method, kind, fields⟩

/-- The validator that a decorated method is. -/
def validator? (s : Source) (decorated : Node) : Option Validator := do
  let definition ← decorated.childByField? "definition"
  if definition.kind = "function_definition" then
    let name ← definition.childByField? "name"
    validatorFrom? s name.text (decoratorsOf decorated)
  else none

/-- The class with what an assignment in its body says: settings, a member of an enumeration or a
field. Names that start with an underscore are private. -/
def addAssignment (s : Source) (decl : ClassDecl) (assignment : Node) : ClassDecl :=
  match assignment.childByField? "left" with
  | none => decl
  | some left =>
    let value := assignment.childByField? "right"
    if left.kind ≠ "identifier" then decl
    else if left.text = "model_config" then
      match value with
      | some v => { decl with config := decl.config.readValue v }
      | none => decl
    else if Text.startsWith left.text "_" then decl
    else if decl.isEnum then
      match value with
      | some v =>
        { decl with
          enumValues := decl.enumValues ++ [(Expr.literalValue? v).getD (.other v.text)] }
      | none => decl
    else
      match SchemaField.ofAssignment? s decl.config.total left.text
          (assignment.childByField? "type") value with
      | some field => { decl with fields := SchemaField.put field decl.fields }
      | none => decl

/-- The class with what one statement of its body says. -/
def addStatement (s : Source) (decl : ClassDecl) (statement : Node) : ClassDecl :=
  match statement.kind with
  | "expression_statement" =>
    match statement.firstNamed? with
    | some n => if n.kind = "assignment" then addAssignment s decl n else decl
    | none => decl
  | "class_definition" =>
    if (statement.childByField? "name").any fun n => n.text == "Config" then
      { decl with config := decl.config.readClass statement }
    else decl
  | "decorated_definition" =>
    match validator? s statement with
    | some v => { decl with validators := decl.validators ++ [v] }
    | none => decl
  | _ => decl

/-- A class before anything but its name is known. -/
def named (name : String) (span : Span) : ClassDecl :=
  ⟨name, span, [], none, false, [], [], [], .plain, [], none⟩

/-- The declaration of a class. -/
def ofNode? (s : Source) (definition : Node) : Option ClassDecl := do
  let name ← definition.childByField? "name"
  let body := definition.childByField? "body"
  let decl :=
    { named name.text definition.span with
      doc := (Doc.read body).summary
      typeParams := match definition.childByField? "type_parameters" with
        | some params => params.namedChildren.map fun p => (stripType p).text
        | none => [] }
  let decl := match definition.childByField? "superclasses" with
    | some superclasses => addBases s decl superclasses
    | none => decl
  let decl := addDecorators s decl definition
  pure <| match body with
    | some b => b.namedChildren.foldl (addStatement s) decl
    | none => decl

/-- The classes of a file in source order. -/
def all (s : Source) : List ClassDecl :=
  (s.tree.nodes.filter fun n => n.kind == "class_definition").filterMap (ofNode? s)

end ApiSurface.ClassDecl
