import ApiSurface.Facts.Route
import ApiSurface.Facts.Schema
import ApiSurface.Facts.Tool
import ApiSurface.Text.Split

/-!
# Built-in recognition tables

Which qualified names mean what: constructors of clients, groups and servers, request functions,
route decorators, parameter markers, model bases, and the layouts of the calls that register
routes and include groups.
-/

namespace ApiSurface.Catalog

/-- What a constructor call produces. -/
inductive Role where
  /-- A client or a session that makes requests. -/
  | httpClient (library : String) (isAsync : Bool)
  /-- An application, a router or a blueprint. -/
  | routeGroup (framework : Framework) (kind : GroupKind)
  /-- A server that offers tools. -/
  | toolServer (framework : String)
deriving DecidableEq, Repr, Inhabited

namespace Role

def isRouteGroup : Role → Bool
  | routeGroup _ _ => true
  | _ => false

def isToolServer : Role → Bool
  | toolServer _ => true
  | _ => false

end Role

/-- The value of a name in a table. -/
def find? {α : Type} (table : List (String × α)) (name : String) : Option α :=
  (table.find? fun e => e.1 == name).map (·.2)

/-- What calls of the known constructors produce. -/
def constructors : List (String × Role) := [
  ("httpx.Client", .httpClient "httpx" false),
  ("httpx.AsyncClient", .httpClient "httpx" true),
  ("requests.Session", .httpClient "requests" false),
  ("requests.session", .httpClient "requests" false),
  ("requests.sessions.Session", .httpClient "requests" false),
  ("aiohttp.ClientSession", .httpClient "aiohttp" true),
  ("aiohttp.client.ClientSession", .httpClient "aiohttp" true),
  ("urllib3.PoolManager", .httpClient "urllib3" false),
  ("fastapi.FastAPI", .routeGroup .fastApi .application),
  ("fastapi.applications.FastAPI", .routeGroup .fastApi .application),
  ("fastapi.APIRouter", .routeGroup .fastApi .router),
  ("fastapi.routing.APIRouter", .routeGroup .fastApi .router),
  ("flask.Flask", .routeGroup .flask .application),
  ("flask.Blueprint", .routeGroup .flask .blueprint),
  ("flask.blueprints.Blueprint", .routeGroup .flask .blueprint),
  ("mcp.server.Server", .toolServer "mcp"),
  ("mcp.server.lowlevel.Server", .toolServer "mcp"),
  ("mcp.server.fastmcp.FastMCP", .toolServer "mcp"),
  ("fastmcp.FastMCP", .toolServer "fastmcp")]

/-- Modules whose functions make requests, with the name of their library. -/
def httpModules : List (String × String) := [
  ("requests", "requests"),
  ("requests.api", "requests"),
  ("httpx", "httpx")]

/-- Functions that are named for the method they use. -/
def methods : List (String × HttpMethod) := [
  ("get", .get),
  ("post", .post),
  ("put", .put),
  ("patch", .patch),
  ("delete", .delete),
  ("head", .head),
  ("options", .options)]

/-- Functions that take the method as an argument. -/
def genericRequests : List String := [
  "request",
  "stream"]

/-- Keyword options of request calls. -/
def optionKeywords : List (String × OptionKind) := [
  ("json", .json),
  ("params", .params),
  ("headers", .headers),
  ("timeout", .timeout),
  ("data", .data),
  ("content", .data),
  ("auth", .auth),
  ("cookies", .cookies),
  ("files", .files)]

/-- Route decorators of one framework; without a method it comes from the arguments. -/
def fastApiDecorators : List (String × Option HttpMethod) := [
  ("get", some .get),
  ("post", some .post),
  ("put", some .put),
  ("patch", some .patch),
  ("delete", some .delete),
  ("head", some .head),
  ("options", some .options),
  ("trace", some .trace),
  ("api_route", none)]

/-- Route decorators of the other framework. -/
def flaskDecorators : List (String × Option HttpMethod) := [
  ("route", none),
  ("get", some .get),
  ("post", some .post),
  ("put", some .put),
  ("patch", some .patch),
  ("delete", some .delete)]

/-- The arguments of a call that registers a route. The path is the first argument. -/
structure RegistrationCall where
  pathKeyword : String
  handlerIndex : Nat
  handlerKeyword : String
deriving DecidableEq, Repr

/-- Calls that register a route. -/
def registrationCalls : List (String × RegistrationCall) := [
  ("add_url_rule", ⟨"rule", 2, "view_func"⟩),
  ("add_api_route", ⟨"path", 1, "endpoint"⟩),
  ("add_route", ⟨"path", 1, "route"⟩)]

/-- The arguments of a call that includes a group. -/
structure IncludeCall where
  targetIndex : Nat
  targetKeyword : String
  prefixIndex : Option Nat
  prefixKeyword : String
  /-- The prefix stands in for the one that the child declares. -/
  replacesPrefix : Bool
deriving DecidableEq, Repr

/-- Calls that put one group under another. -/
def includeCalls : List (String × IncludeCall) := [
  ("include_router", ⟨0, "router", none, "prefix", false⟩),
  ("register_blueprint", ⟨0, "blueprint", none, "url_prefix", true⟩),
  ("mount", ⟨1, "app", some 0, "path", false⟩)]

/-- Calls that mark where the value of a parameter comes from. -/
def parameterMarkers : List (String × ParameterSource) := [
  ("fastapi.Query", .query),
  ("fastapi.Path", .path),
  ("fastapi.Body", .body),
  ("fastapi.Form", .body),
  ("fastapi.File", .body),
  ("fastapi.Header", .header),
  ("fastapi.Cookie", .cookie),
  ("fastapi.Depends", .dependency),
  ("fastapi.Security", .dependency),
  ("fastapi.params.Query", .query),
  ("fastapi.params.Path", .path),
  ("fastapi.params.Body", .body),
  ("fastapi.params.Form", .body),
  ("fastapi.params.File", .body),
  ("fastapi.params.Header", .header),
  ("fastapi.params.Cookie", .cookie),
  ("fastapi.params.Depends", .dependency),
  ("fastapi.params.Security", .dependency)]

/-- Base classes that make a class a data shape. -/
def modelBases : List (String × SchemaKind) := [
  ("pydantic.BaseModel", .pydantic),
  ("pydantic.main.BaseModel", .pydantic),
  ("pydantic.v1.BaseModel", .pydantic),
  ("pydantic.RootModel", .pydantic),
  ("pydantic.BaseSettings", .pydantic),
  ("pydantic.generics.GenericModel", .pydantic),
  ("pydantic_settings.BaseSettings", .pydantic),
  ("sqlmodel.SQLModel", .pydantic),
  ("typing.TypedDict", .typedDict),
  ("typing_extensions.TypedDict", .typedDict),
  ("mypy_extensions.TypedDict", .typedDict),
  ("typing.NamedTuple", .namedTuple)]

/-- Decorators that make a class a data shape. -/
def modelDecorators : List String := [
  "dataclasses.dataclass",
  "pydantic.dataclasses.dataclass"]

/-- Calls that describe a field. -/
def fieldFactories : List String := [
  "pydantic.Field",
  "pydantic.fields.Field",
  "sqlmodel.Field",
  "dataclasses.field"]

/-- Base classes that make a class an enumeration. -/
def enumBases : List String := [
  "enum.Enum",
  "enum.IntEnum",
  "enum.StrEnum",
  "enum.Flag",
  "enum.IntFlag"]

/-- Decorators of validators by their last segment, with what they check. -/
def validatorDecorators : List (String × String) := [
  ("validator", "field"),
  ("field_validator", "field"),
  ("root_validator", "model"),
  ("model_validator", "model")]

/-- Decorators that offer a function on a tool server. -/
def toolDecorators : List (String × ToolKind) := [
  ("tool", .tool),
  ("resource", .resource),
  ("prompt", .prompt)]

/-! ### Look-ups -/

def methodForName? (name : String) : Option HttpMethod := find? methods name

def isGenericRequest (name : String) : Bool := genericRequests.contains name

def optionKind? (keyword : String) : Option OptionKind := find? optionKeywords keyword

/-- The route decorator of a framework: absent when the name is none, else its method, which is
absent when it comes from the arguments. -/
def routeDecorator? : Framework → String → Option (Option HttpMethod)
  | .fastApi => find? fastApiDecorators
  | .flask => find? flaskDecorators

def registrationCall? (name : String) : Option RegistrationCall := find? registrationCalls name

def includeCall? (name : String) : Option IncludeCall := find? includeCalls name

def parameterMarker? (path : String) : Option ParameterSource := find? parameterMarkers path

def isModelDecorator (path : String) : Bool := modelDecorators.contains path

def isFieldFactory (path : String) : Bool := fieldFactories.contains path

def isEnumBase (path : String) : Bool := enumBases.contains path

/-- What a validator decorator checks; only the last segment of its path counts. -/
def validatorKind? (path : String) : Option String :=
  find? validatorDecorators (Text.afterLastString '.' path)

def toolDecorator? (name : String) : Option ToolKind := find? toolDecorators name

end ApiSurface.Catalog
