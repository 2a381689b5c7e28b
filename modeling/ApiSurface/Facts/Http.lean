import ApiSurface.Json
import ApiSurface.KeyedList
import ApiSurface.Syntax.Span

/-!
# Outbound calls

Facts about the requests that a program makes, and the flags that say which parts of a fact could
not be determined.
-/

namespace ApiSurface

/-- The members of a span in the data format. -/
def Span.toJson (s : Span) : Json := .obj [
  ("start_byte", .nat s.startByte), ("end_byte", .nat s.endByte),
  ("start_line", .nat s.startLine), ("start_col", .nat s.startCol),
  ("end_line", .nat s.endLine), ("end_col", .nat s.endCol)]

/-- Request method. -/
inductive HttpMethod where
  | get | post | put | patch | delete | head | options | trace
deriving DecidableEq, Repr, Inhabited

namespace HttpMethod

/-- All methods in the order of the type. -/
def all : List HttpMethod := [get, post, put, patch, delete, head, options, trace]

/-- The name on the wire. -/
def name : HttpMethod → String
  | get => "GET"
  | post => "POST"
  | put => "PUT"
  | patch => "PATCH"
  | delete => "DELETE"
  | head => "HEAD"
  | options => "OPTIONS"
  | trace => "TRACE"

/-- The method with the given name in any case of its ASCII letters. -/
def ofName? (s : String) : Option HttpMethod :=
  let upper := String.ofList (s.toList.map Char.toUpper)
  all.find? fun m => m.name == upper

def toJson (m : HttpMethod) : Json := .str m.name

end HttpMethod

/-- A part of a fact that could not be determined. -/
inductive Degradation where
  | unknownUrl | unknownMethod | unknownPath | unknownType | unknownHandler | unresolvedGroup
  | typeConflict
deriving DecidableEq, Repr, Inhabited

namespace Degradation

/-- All flags in the order in which they are listed. -/
def all : List Degradation :=
  [unknownUrl, unknownMethod, unknownPath, unknownType, unknownHandler, unresolvedGroup,
    typeConflict]

def name : Degradation → String
  | unknownUrl => "unknown_url"
  | unknownMethod => "unknown_method"
  | unknownPath => "unknown_path"
  | unknownType => "unknown_type"
  | unknownHandler => "unknown_handler"
  | unresolvedGroup => "unresolved_group"
  | typeConflict => "type_conflict"

theorem mem_all (d : Degradation) : d ∈ all := by cases d <;> decide

end Degradation

/-- A set of flags, listed in the order of `Degradation.all`. -/
abbrev Degradations := List Degradation

namespace Degradations

/-- The set with one more flag. -/
def add (d : Degradation) (l : Degradations) : Degradations :=
  KeyedList.addFlag Degradation.all d l

/-- The set with the flag when the condition holds. -/
def addIf (c : Bool) (d : Degradation) (l : Degradations) : Degradations :=
  if c then l.add d else l

theorem mem_add {d e : Degradation} {l : Degradations} : e ∈ l.add d ↔ e = d ∨ e ∈ l := by
  simp [add, KeyedList.addFlag, Degradation.mem_all]

theorem mem_addIf {d e : Degradation} {c : Bool} {l : Degradations} :
    e ∈ Degradations.addIf c d l ↔ e ∈ l ∨ e = d ∧ c := by
  unfold addIf
  cases c with
  | true => simp [mem_add, or_comm]
  | false => simp

/-- The member of a fact; left out when no flag is set. -/
def toMember (l : Degradations) : List (String × Json) :=
  Json.members? "degradations" (fun l => Json.strs (l.map Degradation.name)) l

end Degradations

/-- A piece of a URL template. -/
inductive UrlSegment where
  | literal (text : String)
  /-- An expression whose value is not known, kept as source text. -/
  | slot (expr : String)
deriving DecidableEq, Repr

def UrlSegment.toJson : UrlSegment → Json
  | .literal text => .obj [("kind", .str "literal"), ("text", .str text)]
  | .slot expr => .obj [("kind", .str "slot"), ("expr", .str expr)]

/-- What is known about a URL argument. -/
inductive UrlExpression where
  | literal (value : String)
  | templated (segments : List UrlSegment)
  | unknown (expr : String)
deriving DecidableEq, Repr

namespace UrlExpression

def isUnknown : UrlExpression → Bool
  | unknown _ => true
  | _ => false

/-- The text of a URL without slots. -/
def asLiteral? : UrlExpression → Option String
  | literal value => some value
  | _ => none

/-- Slots are shown between braces and unknown expressions between angle brackets. -/
def render : UrlExpression → String
  | literal value => value
  | templated segments => String.join <| segments.map fun
    | .literal text => text
    | .slot expr => "\x7b" ++ expr ++ "\x7d"
  | unknown expr => "<" ++ expr ++ ">"

def toJson : UrlExpression → Json
  | literal value => .obj [("kind", .str "literal"), ("value", .str value)]
  | templated segments =>
    .obj [("kind", .str "templated"), ("segments", .arr (segments.map UrlSegment.toJson))]
  | unknown expr => .obj [("kind", .str "unknown"), ("expr", .str expr)]

end UrlExpression

/-- A recognised keyword option of a request call. -/
inductive OptionKind where
  | json | params | headers | timeout | data | auth | cookies | files
deriving DecidableEq, Repr, Inhabited

namespace OptionKind

/-- All options in the order in which they are listed. -/
def all : List OptionKind := [json, params, headers, timeout, data, auth, cookies, files]

def name : OptionKind → String
  | json => "json"
  | params => "params"
  | headers => "headers"
  | timeout => "timeout"
  | data => "data"
  | auth => "auth"
  | cookies => "cookies"
  | files => "files"

end OptionKind

/-- How a call reaches its library. -/
inductive CallConvention where
  /-- A function of the library's module. -/
  | moduleFunction
  /-- A method of a client that was bound before. -/
  | boundClient
  /-- A method of a client that a `with` statement bound. -/
  | scopedClient
  /-- A method of a client that is constructed on the spot. -/
  | inlineClient
deriving DecidableEq, Repr, Inhabited

def CallConvention.name : CallConvention → String
  | .moduleFunction => "module_function"
  | .boundClient => "bound_client"
  | .scopedClient => "scoped_client"
  | .inlineClient => "inline_client"

/-- The client that a call goes through. -/
structure ClientBinding where
  variableName : Option String
  constructor : String
  span : Span
deriving DecidableEq, Repr

def ClientBinding.toJson (c : ClientBinding) : Json :=
  .obj (Json.member? "variable" .str c.variableName ++
    [("constructor", .str c.constructor), ("span", c.span.toJson)])

/-- A place where a request is made. -/
structure HttpCall where
  file : String
  span : Span
  library : String
  method : Option HttpMethod
  url : UrlExpression
  baseUrl : Option UrlExpression
  /-- Recognised options, in the order of `OptionKind.all`. -/
  options : List OptionKind
  /-- Literal keys of option values, for the options that have some. -/
  optionKeys : List (OptionKind × List String)
  convention : CallConvention
  client : Option ClientBinding
  isAsync : Bool
  responseVariable : Option String
  /-- Attributes that are read from the response later in the same scope. -/
  responseUsage : List String
  degradations : Degradations
deriving DecidableEq, Repr

namespace HttpCall

/-- The place that a call is listed by. -/
def location (c : HttpCall) : String × Span := (c.file, c.span)

def toJson (c : HttpCall) : Json := .obj <|
  [("file", .str c.file), ("span", c.span.toJson), ("library", .str c.library),
    ("method", Json.ofOption HttpMethod.toJson c.method), ("url", c.url.toJson)] ++
  Json.member? "base_url" UrlExpression.toJson c.baseUrl ++
  [("options", Json.strs (c.options.map OptionKind.name))] ++
  Json.members? "option_keys"
    (fun l => .obj (l.map fun (k, keys) => (k.name, Json.strs keys))) c.optionKeys ++
  [("convention", .str c.convention.name)] ++
  Json.member? "client" ClientBinding.toJson c.client ++
  [("is_async", .bool c.isAsync)] ++
  Json.member? "response_variable" .str c.responseVariable ++
  Json.members? "response_usage" Json.strs c.responseUsage ++
  c.degradations.toMember

end HttpCall

end ApiSurface
