import ApiSurface.TypeHint.Normalize
import ApiSurface.Facts.Route
import ApiSurface.Routing.Placeholder

/-!
# Route parameters

What a handler's signature and the path of a route say about the values that a request carries.
-/

namespace ApiSurface.Routing

open ApiSurface.Syntax (Node)
open ApiSurface.Expr (Arguments stripParens stripType)

/-- Types of parameters that the framework fills in. -/
def injectedTypes : List String :=
  ["fastapi.Request", "fastapi.Response", "fastapi.WebSocket", "fastapi.BackgroundTasks",
    "fastapi.requests.Request", "fastapi.responses.Response", "starlette.requests.Request",
    "starlette.responses.Response", "starlette.websockets.WebSocket",
    "starlette.background.BackgroundTasks"]

/-- The type that a converter of a path gives. -/
def converterType (converter : String) : TypeInfo :=
  match converter with
  | "int" => .of (.primitive "int")
  | "float" => .of (.primitive "float")
  | "uuid" => .of (.primitive "uuid")
  | "path" => (TypeInfo.of (.primitive "string")).withAlias "path"
  | _ => .of (.primitive "string")

/-- A call that marks where the value of a parameter comes from. -/
structure Marker where
  call : Node
  source : ParameterSource
  /-- Whether it stands as the default value, and not in the annotation. -/
  inDefault : Bool

/-- The source that a node marks. -/
def markedSource? (s : Source) (n : Node) : Option ParameterSource := do
  let function ← if n.kind = "call" then n.childByField? "function" else none
  let path ← s.table.qualify function
  Catalog.parameterMarker? path

/-- The marker of a parameter: its default value, or else the first one in its annotation. -/
def marker? (s : Source) (default hint : Option Node) : Option Marker :=
  let inDefault := do
    let d ← default.map stripParens
    let source ← markedSource? s d
    pure ⟨d, source, true⟩
  let inHint := do
    let a ← hint
    (a.descendants.take TypeHint.searchLimit).findSome? fun n =>
      (markedSource? s n).map fun source => ⟨n, source, false⟩
  inDefault <|> inHint

/-- Whether a value has to be given, and the default otherwise. -/
structure Presence where
  required : Bool
  default : Option String

namespace Presence

/-- A plain default value, or none. -/
def ofDefault : Option Node → Presence
  | some v => ⟨false, some (Expr.summary v)⟩
  | none => ⟨true, none⟩

/-- The default that a marker gives as the default value of the parameter. -/
def ofMarkerArgs (args : Arguments) : Presence :=
  match args.get? 0 "default" with
  | some v => if Expr.isEllipsis v then ⟨true, none⟩ else ⟨false, some (Expr.summary v)⟩
  | none => ⟨(args.keyword? "default_factory").isNone, none⟩

/-- What the marker and the default value of a parameter say together. A dependency is always
required, and shows what it depends on. -/
def of (marker : Option Marker) (default : Option Node) : Presence :=
  match marker with
  | none => ofDefault default
  | some m =>
    let args := Arguments.ofCall m.call
    if m.source = .dependency then ⟨true, (args.get? 0 "dependency").map Node.text⟩
    else if m.inDefault then ofMarkerArgs args
    else ofDefault default

end Presence

/-- The type of a parameter, and the annotation when an explicit type disagrees with it. -/
def chooseType (explicit annotated : Option TypeInfo) (framework : Framework)
    (inPath : Option Placeholder) : TypeInfo × Option TypeInfo :=
  match explicit, annotated with
  | some e, some a => (e, if e.descriptor ≠ a.descriptor then some a else none)
  | some e, none => (e, none)
  | none, some a => (a, none)
  | none, none =>
    match inPath with
    | some ⟨_, some converter⟩ => (converterType converter, none)
    | some ⟨_, none⟩ =>
      (if framework = .flask then .of (.primitive "string") else .unknown, none)
    | none => (.unknown, none)

/-- Where the value of a parameter comes from. Without a marker the path comes first, and where
the framework reads bodies, classes come from the body. -/
def chooseSource (marker : Option Marker) (framework : Framework) (inPath : Bool)
    (type : Descriptor) : ParameterSource :=
  match marker with
  | some m => m.source
  | none =>
    if inPath then .path
    else if framework = .fastApi ∧ type.mentionsReference = true then .body
    else .query

/-- Whether the framework fills in a parameter with the annotation. -/
def isInjected (s : Source) (hint : Option Node) : Bool :=
  ((hint.map stripType).bind s.table.qualify).any injectedTypes.contains

/-- The parameter of a handler that a request fills in, if one does. -/
def handlerParameter? (s : Source) (framework : Framework) (path : List Placeholder)
    (param : Node) : Option RouteParameter := do
  let (nameNode, hint) ← Binding.parameterParts? param
  let name := nameNode.text
  if name = "self" ∨ name = "cls" ∨ isInjected s hint then none
  else
    let default := param.childByField? "value"
    let inPath := path.find? fun p => p.name == name
    let marker := marker? s default hint
    let args := match marker with
      | some m => Arguments.ofCall m.call
      | none => .empty
    let annotated := hint.map (TypeHint.normalize s)
    let explicit := (args.keyword? "annotation" <|> args.keyword? "type").map
      (TypeHint.normalize s)
    let carried := match hint with
      | some a => TypeHint.constraintsIn s a
      | none => .empty
    let presence := Presence.of marker default
    let (type, typeConflict) := chooseType explicit annotated framework inPath
    pure
      { name
        source := chooseSource marker framework inPath.isSome type.descriptor
        type
        required := presence.required
        default := presence.default
        aliasName := (args.keyword? "alias").bind Expr.stringLiteral?
        description := (args.keyword? "description" <|> args.keyword? "title").bind
          Expr.stringLiteral?
        constraints := (Expr.constraintsOf args).orElse carried
        typeConflict }

/-- The parameters of a handler that a request fills in. -/
def handlerParameters (s : Source) (framework : Framework) (path : List Placeholder)
    (handler : Node) : List RouteParameter :=
  match handler.childByField? "parameters" with
  | some list => list.namedChildren.filterMap (handlerParameter? s framework path)
  | none => []

/-- A parameter that only the path mentions. -/
def pathParameter (p : Placeholder) : RouteParameter where
  name := p.name
  source := .path
  type := match p.converter with
    | some converter => converterType converter
    | none => .unknown
  required := true
  default := none
  aliasName := none
  description := none
  constraints := .empty
  typeConflict := none

/-- Add the parameters of the path that are not there yet. -/
def addMissing (parameters : List RouteParameter) (path : List Placeholder) :
    List RouteParameter :=
  path.foldl (fun ps p =>
    if ps.any fun q => q.name == p.name then ps else ps ++ [pathParameter p]) parameters

end ApiSurface.Routing
