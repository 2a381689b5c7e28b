import ApiSurface.Doc.Docstring
import ApiSurface.Routing.Include
import ApiSurface.Routing.Parameter
import ApiSurface.Text.Digit

/-!
# Routes of a file

The endpoints that decorators and registration calls attach to groups, with their methods, paths,
parameters and metadata.
-/

namespace ApiSurface.Routing

open ApiSurface.Syntax (Node)
open ApiSurface.Expr (Arguments stripParens)

/-! ### Metadata -/

/-- The status code in the name of a constant: three digits behind `HTTP_`, at the end or before
an underscore. The first such place counts. -/
def statusConstant? : List Char → Option Nat
  | [] => none
  | c :: r =>
    let here : Option (List Char) :=
      if ['H', 'T', 'T', 'P', '_'].isPrefixOf (c :: r) then
        let digits := ((c :: r).drop 5).take 3
        let next := ((c :: r).drop 8).head?
        if digits.length = 3 ∧ digits.all Text.isDecimalDigit ∧ (next.all fun d => d == '_') then
          some digits
        else none
      else none
    match here with
    | some digits => Numeral.natural? digits
    | none => statusConstant? r

/-- The greatest status code that is read. -/
def maxStatus : Nat := 65535

/-- The status code that an expression gives. -/
def statusCode? (n : Node) : Option Nat :=
  match Expr.intValue? n with
  | some i => if 0 ≤ i ∧ i ≤ maxStatus then some i.toNat else none
  | none => statusConstant? (stripParens n).text.toList

/-- A documented response with what one entry says. -/
def addResponseEntry (s : Source) (r : ResponseInfo) (entry : String × Node) : ResponseInfo :=
  match entry.1 with
  | "model" => { r with model := some (TypeHint.normalize s entry.2) }
  | "description" => { r with description := Expr.stringLiteral? entry.2 }
  | _ => r

/-- The documented responses of a dictionary display. -/
def responsesOf (s : Source) (n : Node) : List (String × ResponseInfo) :=
  (Expr.dictEntries n).foldl (fun responses (code, value) =>
    KeyedList.insert code ((Expr.dictEntries value).foldl (addResponseEntry s) ⟨none, none⟩)
      responses) []

/-- What the arguments of a registration say about its route. -/
def metadataOf (s : Source) (args : Arguments) : RouteMetadata where
  tags := ((args.keyword? "tags").bind Expr.stringList?).getD []
  deprecated := ((args.keyword? "deprecated").bind Expr.boolValue?).getD false
  statusCode := (args.keyword? "status_code").bind statusCode?
  summary := (args.keyword? "summary").bind Expr.stringLiteral?
  description := (args.keyword? "description").bind Expr.stringLiteral?
  operationId := (args.keyword? "operation_id").bind Expr.stringLiteral?
  responses := match args.keyword? "responses" with
    | some n => responsesOf s n
    | none => []

/-! ### Routes -/

/-- A place where a route is registered. -/
structure Site where
  spanNode : Node
  call : Node
  framework : Framework
  group : Option GroupKey
  /-- The method that the registration stands for, if it stands for one. -/
  method : Option HttpMethod
  pathKeyword : String
  /-- The definition of the handler, if it is found. -/
  handler : Option Node
  handlerName : String
  style : RegistrationStyle

/-- The methods of a route; absent when they are given but cannot be read. -/
def methodsOf? (method : Option HttpMethod) (args : Arguments) : Option (List HttpMethod) :=
  match method with
  | some m => some [m]
  | none =>
    match args.keyword? "methods" with
    | none => some [.get]
    | some n =>
      (Expr.stringList? n).map fun names =>
        (names.filterMap HttpMethod.ofName?).foldl
          (fun methods m => if methods.contains m then methods else methods ++ [m]) []

/-- The type of the response: the model of the registration, or else what the handler returns. -/
def responseType? (s : Source) (args : Arguments) (handler : Option Node) : Option TypeInfo :=
  (args.keyword? "response_model" <|> handler.bind fun h => h.childByField? "return_type").map
    (TypeHint.normalize s)

/-- The route that is registered at a site. -/
def routeAt (s : Source) (site : Site) : Route :=
  let args := Arguments.ofCall site.call
  let methods := methodsOf? site.method args
  let rawPath := (args.get? 0 site.pathKeyword).bind Expr.stringLiteral?
  let path := match rawPath with
    | some p => placeholders p
    | none => []
  let fromHandler := match site.handler with
    | some h => handlerParameters s site.framework path h
    | none => []
  let metadata := metadataOf s args
  let doc := (site.handler.bind fun h => h.childByField? "body").bind Doc.docstringOf?
  { file := s.path
    span := site.spanNode.span
    framework := site.framework
    handler := site.handlerName
    isAsync := site.handler.any fun h => h.hasToken "async"
    methods := methods.getD []
    rawPath
    effectivePath := none
    parameters := addMissing fromHandler path
    responseType := responseType? s args site.handler
    metadata := { metadata with description := metadata.description <|> doc }
    group := site.group
    style := site.style
    degradations :=
      ((((Degradations.addIf methods.isNone .unknownMethod []).addIf rawPath.isNone
        .unknownPath).addIf site.handler.isNone .unknownHandler).addIf
        (fromHandler.any fun p => p.type.descriptor.isUnknown) .unknownType).addIf
        (fromHandler.any fun p => p.typeConflict.isSome) .typeConflict }

/-- The name of a definition. -/
def definitionName (definition : Node) : String :=
  match definition.childByField? "name" with
  | some n => n.text
  | none => ""

/-- The keyword of the path in the route decorators of a framework. -/
def pathKeyword : Framework → String
  | .fastApi => "path"
  | .flask => "rule"

/-- The place where a decorator registers a function. -/
def decoratorSite? (s : Source) (groups : List Constructed)
    (decorated definition decorator : Node) : Option Site := do
  let call ← decorator.firstNamed?.map stripParens
  if call.kind = "call" then
    let (object, name) ← calledMember? call
    let (framework, group) ← groupOf? s groups object
    let method ← Catalog.routeDecorator? framework name
    pure
      { spanNode := decorated
        call, framework, group, method
        pathKeyword := pathKeyword framework
        handler := some definition
        handlerName := definitionName definition
        style := .decorator }
  else none

/-- The places where the decorators of a definition register it. -/
def decoratorSites (s : Source) (groups : List Constructed) (decorated : Node) : List Site :=
  match (decorated.childByField? "definition").filter fun d => d.kind == "function_definition" with
  | some definition =>
    match s.table.definitionOf? definition with
    | some d => d.registrations.filterMap (decoratorSite? s groups decorated definition)
    | none => []
  | none => []

/-- The function definition that an expression names. -/
def handlerDefinition? (s : Source) (expr : Node) : Option Node := do
  let name := stripParens expr
  if name.kind = "identifier" then
    let d ← s.table.definition? name.text name
    if d.node.kind = "function_definition" then pure d.node else none
  else none

/-- The place where a call registers a function. -/
def callSite? (s : Source) (groups : List Constructed) (call : Node) : Option Site := do
  let (object, member) ← calledMember? call
  let layout ← Catalog.registrationCall? member
  let (framework, group) ← groupOf? s groups object
  let expr := (Arguments.ofCall call).get? layout.handlerIndex layout.handlerKeyword
  let handler := expr.bind (handlerDefinition? s)
  let handlerName := match handler, expr with
    | some definition, _ => definitionName definition
    | none, some e => e.text
    | none, none => ""
  pure
    { spanNode := call
      call, framework, group
      method := none
      pathKeyword := layout.pathKeyword
      handler, handlerName
      style := .call }

/-- The routes that a node registers. -/
def routesAt (s : Source) (groups : List Constructed) (n : Node) : List Route :=
  if n.kind = "decorated_definition" then (decoratorSites s groups n).map (routeAt s)
  else if n.kind = "call" then (callSite? s groups n).toList.map (routeAt s)
  else []

/-- The includes that a node makes. A call that registers a route makes none. -/
def includesAt (s : Source) (groups : List Constructed) (n : Node) : List GroupInclude :=
  if n.kind = "call" ∧ (callSite? s groups n).isNone then (include? s groups n).toList else []

/-- The routes, groups and includes of a file. -/
structure Listing where
  routes : List Route
  groups : List RouteGroup
  includes : List GroupInclude

/-- The routes, groups and includes of a file in source order. -/
def listing (s : Source) : Listing :=
  let groups := constructedGroups s
  let routes := s.tree.nodes.flatMap (routesAt s groups)
  { routes
    groups := withMembers routes (groups.map (·.group))
    includes := s.tree.nodes.flatMap (includesAt s groups) }

end ApiSurface.Routing
