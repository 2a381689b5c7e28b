import ApiSurface.Facts.Constraints
import ApiSurface.Facts.Http

/-!
# Inbound routes

Facts about the endpoints that a program serves, the groups that they belong to, and the calls
that put one group under another.
-/

namespace ApiSurface

/-- The web framework of a route or group. -/
inductive Framework where
  | fastApi | flask
deriving DecidableEq, Repr, Inhabited

def Framework.name : Framework → String
  | .fastApi => "fastapi"
  | .flask => "flask"

/-- Where the value of a route parameter comes from. -/
inductive ParameterSource where
  | path | query | body | header | cookie | dependency
deriving DecidableEq, Repr, Inhabited

def ParameterSource.name : ParameterSource → String
  | .path => "path"
  | .query => "query"
  | .body => "body"
  | .header => "header"
  | .cookie => "cookie"
  | .dependency => "dependency"

/-- A parameter of a route. -/
structure RouteParameter where
  name : String
  source : ParameterSource
  type : TypeInfo
  required : Bool
  default : Option String
  aliasName : Option String
  description : Option String
  constraints : Constraints
  /-- The annotation, when an explicit type disagrees with it. -/
  typeConflict : Option TypeInfo
deriving Inhabited, Repr

def RouteParameter.toJson (p : RouteParameter) : Json := .obj <|
  [("name", .str p.name), ("source", .str p.source.name), ("type", p.type.toJson),
    ("required", .bool p.required)] ++
  Json.member? "default" .str p.default ++ Json.member? "alias" .str p.aliasName ++
  Json.member? "description" .str p.description ++ p.constraints.toMember ++
  Json.member? "type_conflict" TypeInfo.toJson p.typeConflict

/-- A documented response besides the regular one. -/
structure ResponseInfo where
  model : Option TypeInfo
  description : Option String
deriving DecidableEq, Inhabited, Repr

def ResponseInfo.toJson (r : ResponseInfo) : Json := .obj <|
  Json.member? "model" TypeInfo.toJson r.model ++ Json.member? "description" .str r.description

/-- What a registration says about its route. -/
structure RouteMetadata where
  tags : List String
  deprecated : Bool
  statusCode : Option Nat
  summary : Option String
  description : Option String
  operationId : Option String
  /-- Documented responses by status code, in the order of their codes as texts. -/
  responses : List (String × ResponseInfo)
deriving DecidableEq, Inhabited, Repr

def RouteMetadata.toJson (m : RouteMetadata) : Json := .obj <|
  Json.members? "tags" Json.strs m.tags ++ [("deprecated", .bool m.deprecated)] ++
  Json.member? "status_code" .nat m.statusCode ++ Json.member? "summary" .str m.summary ++
  Json.member? "description" .str m.description ++
  Json.member? "operation_id" .str m.operationId ++
  Json.members? "responses" (fun l => .obj (l.map fun (k, r) => (k, r.toJson))) m.responses

/-- How a route is attached to its group. -/
inductive RegistrationStyle where
  | decorator | call
deriving DecidableEq, Repr, Inhabited

def RegistrationStyle.name : RegistrationStyle → String
  | .decorator => "decorator"
  | .call => "call"

/-- The identity of a group: its file, its variable and where it is constructed. -/
structure GroupKey where
  file : String
  name : String
  offset : Nat
deriving DecidableEq, Repr, Inhabited

namespace GroupKey

/-- Keys are ordered by file, name and offset. -/
def compare (a b : GroupKey) : Ordering :=
  (Ord.compare a.file b.file).then <| (Ord.compare a.name b.name).then <|
    Ord.compare a.offset b.offset

/-- The order of `compare` as the test that a stable sort takes. -/
def le (a b : GroupKey) : Bool := compare a b != .gt

def render (k : GroupKey) : String := k.file ++ "::" ++ k.name

def toJson (k : GroupKey) : Json :=
  .obj [("file", .str k.file), ("name", .str k.name), ("offset", .nat k.offset)]

end GroupKey

/-- An endpoint. -/
structure Route where
  file : String
  span : Span
  framework : Framework
  handler : String
  isAsync : Bool
  methods : List HttpMethod
  /-- The path as it is written at the registration. -/
  rawPath : Option String
  /-- The path under all enclosing groups. -/
  effectivePath : Option String
  parameters : List RouteParameter
  responseType : Option TypeInfo
  metadata : RouteMetadata
  group : Option GroupKey
  style : RegistrationStyle
  degradations : Degradations
deriving Inhabited, Repr

namespace Route

/-- The place that a route is listed by. -/
def location (r : Route) : String × Span := (r.file, r.span)

def toJson (r : Route) : Json := .obj <|
  [("file", .str r.file), ("span", r.span.toJson), ("framework", .str r.framework.name),
    ("handler", .str r.handler), ("is_async", .bool r.isAsync),
    ("methods", .arr (r.methods.map HttpMethod.toJson)), ("raw_path", Json.optStr r.rawPath),
    ("effective_path", Json.optStr r.effectivePath),
    ("parameters", .arr (r.parameters.map RouteParameter.toJson))] ++
  Json.member? "response_type" TypeInfo.toJson r.responseType ++
  [("metadata", r.metadata.toJson)] ++
  Json.member? "group" GroupKey.toJson r.group ++
  [("style", .str r.style.name)] ++ r.degradations.toMember

end Route

/-- What a group is in its framework. -/
inductive GroupKind where
  | application | router | blueprint
deriving DecidableEq, Repr, Inhabited

def GroupKind.name : GroupKind → String
  | .application => "application"
  | .router => "router"
  | .blueprint => "blueprint"

/-- Where a group lies once includes are resolved. -/
inductive GroupStatus where
  /-- Not included anywhere. -/
  | root
  /-- Below a root. -/
  | linked
  /-- On or below a cycle of includes; only its own prefix applies. -/
  | cyclic
deriving DecidableEq, Repr, Inhabited

def GroupStatus.name : GroupStatus → String
  | .root => "root"
  | .linked => "linked"
  | .cyclic => "cyclic"

/-- A router, a blueprint or an application. -/
structure RouteGroup where
  key : GroupKey
  span : Span
  framework : Framework
  kind : GroupKind
  declaredPrefix : Option String
  parent : Option GroupKey
  /-- What the include that put the group under its parent adds to the path. -/
  mountPrefix : Option String
  effectivePrefix : Option String
  status : GroupStatus
  /-- The spans of the routes that are registered on the group in its file. -/
  members : List Span
deriving DecidableEq, Inhabited, Repr

namespace RouteGroup

/-- The place that a group is listed by. -/
def location (g : RouteGroup) : String × Span := (g.key.file, g.span)

def toJson (g : RouteGroup) : Json := .obj <|
  [("key", g.key.toJson), ("span", g.span.toJson), ("framework", .str g.framework.name),
    ("kind", .str g.kind.name)] ++
  Json.member? "declared_prefix" .str g.declaredPrefix ++
  Json.member? "parent" GroupKey.toJson g.parent ++
  Json.member? "mount_prefix" .str g.mountPrefix ++
  Json.member? "effective_prefix" .str g.effectivePrefix ++
  [("status", .str g.status.name), ("members", .arr (g.members.map Span.toJson))]

end RouteGroup

/-- What an include call points at, as far as one file can tell. -/
inductive IncludeTarget where
  | local (key : GroupKey)
  | imported (module name : String)
  | unknown (expr : String)
deriving DecidableEq, Repr, Inhabited

def IncludeTarget.toJson : IncludeTarget → Json
  | .local key => .obj [("kind", .str "local"), ("key", key.toJson)]
  | .imported module name =>
    .obj [("kind", .str "imported"), ("module", .str module), ("name", .str name)]
  | .unknown expr => .obj [("kind", .str "unknown"), ("expr", .str expr)]

/-- A call that puts one group under another. -/
structure GroupInclude where
  file : String
  span : Span
  method : String
  parent : GroupKey
  target : IncludeTarget
  /-- What the call adds to the path. -/
  mountPrefix : Option String
  /-- The added prefix stands in for the one that the child declares. -/
  replacesPrefix : Bool
deriving DecidableEq, Repr, Inhabited

namespace GroupInclude

/-- The place that an include is listed by. -/
def location (i : GroupInclude) : String × Span := (i.file, i.span)

def toJson (i : GroupInclude) : Json := .obj <|
  [("file", .str i.file), ("span", i.span.toJson), ("method", .str i.method),
    ("parent", i.parent.toJson), ("target", i.target.toJson)] ++
  Json.member? "prefix" .str i.mountPrefix ++ [("replaces_prefix", .bool i.replacesPrefix)]

end GroupInclude

end ApiSurface
