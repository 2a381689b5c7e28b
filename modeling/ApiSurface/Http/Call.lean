import ApiSurface.Http.Url
import ApiSurface.Source

/-!
# Request calls

Which calls of a file make a request, through which library and client, and what each of them
says about method, URL, options and the use of the response.
-/

namespace ApiSurface.Http

open ApiSurface.Syntax (Node Tree)
open ApiSurface.Expr (Arguments stripParens stripAwait)

/-- How a call reaches a library. -/
structure Target where
  library : String
  methodName : String
  convention : CallConvention
  client : Option ClientBinding
  baseUrl : Option UrlExpression
  isAsync : Bool

/-- Whether a function of the name makes a request. -/
def isRequestName (name : String) : Bool :=
  (Catalog.methodForName? name).isSome || Catalog.isGenericRequest name

/-- A call of a function of a library's module. -/
def moduleFunction? (s : Source) (function : Node) : Option Target := do
  let path ← s.table.qualify function
  let (module, name) ← Text.splitLastString '.' path
  if isRequestName name then
    let library ← s.catalog.httpModule? module
    pure ⟨library, name, .moduleFunction, none, none, false⟩
  else none

/-- The base URL that a client is constructed with. -/
def baseUrl? (i : Binding.Instance) : Option UrlExpression := do
  let origin ← i.origin
  if origin.kind = "call" then
    ((Arguments.ofCall origin).keyword? "base_url").map urlExpression
  else none

/-- How a method of an object is called. -/
def conventionOf (object : Node) (i : Binding.Instance) : CallConvention :=
  if (stripAwait object).kind = "call" then .inlineClient
  else if i.isScoped then .scopedClient
  else .boundClient

/-- A call of a method of a client. -/
def clientMethod? (s : Source) (function : Node) : Option Target := do
  if function.kind = "attribute" then
    let name ← (function.childByField? "attribute").map Node.text
    if isRequestName name then
      let object ← function.childByField? "object"
      let i ← s.resolve? object
      match i.role with
      | .httpClient library isAsync =>
        pure
          { library, methodName := name, convention := conventionOf object i
            client := some ⟨i.variableName, i.constructor, i.declaredAt.span⟩
            baseUrl := baseUrl? i, isAsync }
      | _ => none
    else none
  else none

/-! ### The response -/

/-- The variable that receives the value of a node, looking at most `fuel` nodes up. -/
def receiver? (tree : Tree) : Nat → Node → Option Node
  | 0, _ => none
  | fuel + 1, n =>
    match tree.parent? n with
    | none => none
    | some parent =>
      match parent.kind with
      | "await" | "parenthesized_expression" => receiver? tree fuel parent
      | "assignment" =>
        if n.field = some "right" then
          (parent.childByField? "left").filter fun left => left.kind == "identifier"
        else none
      | "as_pattern" =>
        if n.field = some "alias" then none
        else
          match parent.childByField? "alias" with
          | some aliasName =>
            (aliasName.namedChildren.find? fun c => c.kind == "identifier") <|>
              if aliasName.kind = "identifier" then some aliasName else none
          | none => none
      | _ => none

/-- The attribute that a node reads from a variable that still holds the value of the call. -/
def attributeRead? (s : Source) (call : Node) (name : String) (n : Node) : Option String :=
  if n.kind = "attribute" ∧ call.endByte ≤ n.startByte then
    match n.childByField? "object", n.childByField? "attribute" with
    | some object, some attr =>
      if object.kind = "identifier" ∧ object.text = name then
        match s.table.lookup name object with
        | some (.value v) => if v.origin.id = call.id then some attr.text else none
        | _ => none
      else none
    | _, _ => none
  else none

/-- Append what is not there yet. -/
def addNew (l : List String) (x : String) : List String := if l.contains x then l else l ++ [x]

/-- The attributes that are read from the response in the scope of the call, each once. -/
def responseUsage (s : Source) (call variableNode : Node) : List String :=
  match s.table.scopeNode? (s.table.scopeOf call) with
  | some scope =>
    (scope.descendants.filterMap (attributeRead? s call variableNode.text)).foldl addNew []
  | none => []

/-! ### Facts -/

/-- The method of a call, and its URL argument. -/
def methodAndUrl (methodName : String) (args : Arguments) : Option HttpMethod × Option Node :=
  if Catalog.isGenericRequest methodName then
    (((args.get? 0 "method").bind Expr.stringLiteral?).bind HttpMethod.ofName?, args.get? 1 "url")
  else (Catalog.methodForName? methodName, args.get? 0 "url")

/-- The literal keys of all values of one option. -/
def keysOf (args : Arguments) (kind : OptionKind) : List String :=
  args.keywords.flatMap fun (keyword, value) =>
    if Catalog.optionKind? keyword = some kind then Expr.dictKeys value else []

/-- The options for which there are literal keys, with the keys. -/
def optionKeys (args : Arguments) : List (OptionKind × List String) :=
  OptionKind.all.filterMap fun kind =>
    let keys := keysOf args kind
    if keys.isEmpty then none else some (kind, keys)

/-- The options that are given. -/
def optionsOf (args : Arguments) : List OptionKind :=
  OptionKind.all.filter fun kind =>
    args.keywords.any fun k => Catalog.optionKind? k.1 = some kind

/-- The fact of a call with a known target. -/
def factOf (s : Source) (call : Node) (target : Target) : HttpCall :=
  let args := Arguments.ofCall call
  let (method, urlNode) := methodAndUrl target.methodName args
  let url := match urlNode with
    | some n => urlExpression n
    | none => .unknown ""
  let response := receiver? s.tree s.tree.size call
  { file := s.path
    span := call.span
    library := target.library
    method
    url
    baseUrl := target.baseUrl
    options := optionsOf args
    optionKeys := optionKeys args
    convention := target.convention
    client := target.client
    isAsync := target.isAsync
    responseVariable := response.map Node.text
    responseUsage := match response with
      | some v => responseUsage s call v
      | none => []
    degradations := (Degradations.addIf url.isUnknown .unknownUrl []).addIf method.isNone
      .unknownMethod }

/-- The fact of a call, if it makes a request. -/
def callFact? (s : Source) (call : Node) : Option HttpCall := do
  let function ← (call.childByField? "function").map stripParens
  let target ← moduleFunction? s function <|> clientMethod? s function
  pure (factOf s call target)

/-- The request calls of a file in source order. -/
def calls (s : Source) : List HttpCall :=
  (s.tree.nodes.filter fun n => n.kind == "call").filterMap (callFact? s)

theorem exists_factOf_of_mem_calls {s : Source} {c : HttpCall} (h : c ∈ calls s) :
    ∃ call target, c = factOf s call target := by
  obtain ⟨call, -, hfact⟩ := List.mem_filterMap.mp h
  obtain ⟨function, -, hfact⟩ := Option.bind_eq_some_iff.mp hfact
  obtain ⟨target, -, hfact⟩ := Option.bind_eq_some_iff.mp hfact
  exact ⟨call, target, (Option.some.inj hfact).symm⟩

end ApiSurface.Http
