import ApiSurface.Facts.Http
import ApiSurface.Facts.Types

/-!
# Tools

Facts about the functions that a program offers to clients of a tool server.
-/

namespace ApiSurface

/-- What a function is offered as. -/
inductive ToolKind where
  | tool | resource | prompt
deriving DecidableEq, Repr, Inhabited

def ToolKind.name : ToolKind → String
  | .tool => "tool"
  | .resource => "resource"
  | .prompt => "prompt"

/-- A parameter of a tool. -/
structure ToolParameter where
  name : String
  type : TypeInfo
  required : Bool
  default : Option String
  description : Option String
deriving DecidableEq, Repr, Inhabited

def ToolParameter.toJson (p : ToolParameter) : Json := .obj <|
  [("name", .str p.name), ("type", p.type.toJson), ("required", .bool p.required)] ++
  Json.member? "default" .str p.default ++ Json.member? "description" .str p.description

/-- The server that a tool is registered on. -/
structure ServerRef where
  variableName : String
  constructor : String
  name : Option String
deriving DecidableEq, Repr, Inhabited

def ServerRef.toJson (s : ServerRef) : Json := .obj <|
  [("variable", .str s.variableName), ("constructor", .str s.constructor)] ++
  Json.member? "name" .str s.name

/-- A function offered to clients of a tool server. -/
structure Tool where
  file : String
  span : Span
  name : String
  function : String
  kind : ToolKind
  uri : Option String
  isAsync : Bool
  parameters : List ToolParameter
  returnType : Option TypeInfo
  summary : Option String
  description : Option String
  /-- Documented parameters in the order of their names. -/
  docParams : List (String × String)
  returnsDoc : Option String
  server : ServerRef
  degradations : Degradations
deriving DecidableEq, Repr, Inhabited

namespace Tool

/-- The place that a tool is listed by. -/
def location (t : Tool) : String × Span := (t.file, t.span)

def toJson (t : Tool) : Json := .obj <|
  [("file", .str t.file), ("span", t.span.toJson), ("name", .str t.name),
    ("function", .str t.function), ("kind", .str t.kind.name)] ++
  Json.member? "uri" .str t.uri ++
  [("is_async", .bool t.isAsync),
    ("parameters", .arr (t.parameters.map ToolParameter.toJson))] ++
  Json.member? "return_type" TypeInfo.toJson t.returnType ++
  Json.member? "summary" .str t.summary ++ Json.member? "description" .str t.description ++
  Json.members? "doc_params" (fun l => .obj (l.map fun (k, v) => (k, .str v))) t.docParams ++
  Json.member? "returns_doc" .str t.returnsDoc ++
  [("server", t.server.toJson)] ++ t.degradations.toMember

end Tool

end ApiSurface
