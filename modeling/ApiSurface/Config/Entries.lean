import ApiSurface.Catalog.Extended
import ApiSurface.Text.Quoted

/-!
# Catalog entries

What a project adds to the recognition tables, as it is written in a configuration, and the
extended catalog that the entries make (`CatalogEntries.toCatalog`). The only thing that can be
wrong with an entry is that it names a framework or a kind that does not exist.
-/

namespace ApiSurface

/-- A constructor of clients that make requests. -/
structure HttpClientEntry where
  constructor : String
  library : String
  isAsync : Bool
deriving DecidableEq, Repr

/-- A module whose functions make requests. -/
structure HttpModuleEntry where
  module : String
  library : String
deriving DecidableEq, Repr

/-- A constructor of applications, routers or blueprints. -/
structure RouteGroupEntry where
  constructor : String
  framework : String
  kind : String
deriving DecidableEq, Repr

/-- A constructor of tool servers. -/
structure ToolServerEntry where
  constructor : String
  framework : String
deriving DecidableEq, Repr

/-- A base class of data shapes. -/
structure ModelBaseEntry where
  path : String
  kind : Option String
deriving DecidableEq, Repr

/-- The framework of tool servers whose entry names none. -/
def ToolServerEntry.defaultFramework : String := "mcp"

/-- All entries of a configuration, by table and in written order. -/
structure CatalogEntries where
  httpClients : List HttpClientEntry
  httpModules : List HttpModuleEntry
  routeGroups : List RouteGroupEntry
  toolServers : List ToolServerEntry
  modelBases : List ModelBaseEntry
deriving DecidableEq, Repr

/-- The part of an entry that can name something unknown. -/
inductive RoleField where
  | framework | kind
deriving DecidableEq, Repr

def RoleField.name : RoleField → String
  | .framework => "framework"
  | .kind => "kind"

/-- An entry names a framework or a kind that does not exist. -/
structure UnknownRole where
  /-- The path that the entry is about. -/
  entry : String
  field : RoleField
  value : String
deriving DecidableEq, Repr

def UnknownRole.message (e : UnknownRole) : String :=
  "unknown " ++ e.field.name ++ " " ++ Text.quoted e.value ++ " for " ++ e.entry

/-! ### Names -/

/-- The framework that goes by a name. -/
def Framework.ofName? (name : String) : Option Framework :=
  if name = "fastapi" ∨ name = "starlette" then some .fastApi
  else if name = "flask" then some .flask
  else none

/-- The kind of group that goes by a name. -/
def GroupKind.ofName? (name : String) : Option GroupKind :=
  if name = "application" ∨ name = "app" then some .application
  else if name = "router" then some .router
  else if name = "blueprint" then some .blueprint
  else none

/-- The kind of data shape that goes by a name. -/
def SchemaKind.ofName? (name : String) : Option SchemaKind :=
  [SchemaKind.pydantic, .typedDict, .namedTuple, .dataclass].find? fun k => k.name == name

/-! ### Entries and what they add -/

namespace HttpClientEntry

/-- The catalog with the entry. -/
def addTo (e : HttpClientEntry) (c : Catalog) : Catalog :=
  c.addConstructor e.constructor (.httpClient e.library e.isAsync)

end HttpClientEntry

namespace HttpModuleEntry

/-- The catalog with the entry. -/
def addTo (e : HttpModuleEntry) (c : Catalog) : Catalog := c.addHttpModule e.module e.library

end HttpModuleEntry

namespace RouteGroupEntry

/-- What calls of the constructor produce. Of two unknown names the framework is reported. -/
def role (e : RouteGroupEntry) : Except UnknownRole Catalog.Role :=
  match Framework.ofName? e.framework, GroupKind.ofName? e.kind with
  | none, _ => .error ⟨e.constructor, .framework, e.framework⟩
  | some _, none => .error ⟨e.constructor, .kind, e.kind⟩
  | some framework, some kind => .ok (.routeGroup framework kind)

/-- The catalog with the entry. -/
def addTo (e : RouteGroupEntry) (c : Catalog) : Except UnknownRole Catalog :=
  e.role.map (c.addConstructor e.constructor)

end RouteGroupEntry

namespace ToolServerEntry

/-- The catalog with the entry. -/
def addTo (e : ToolServerEntry) (c : Catalog) : Catalog :=
  c.addConstructor e.constructor (.toolServer e.framework)

end ToolServerEntry

namespace ModelBaseEntry

/-- The kind of the subclasses of the base; models of the default kind need not say so. -/
def schemaKind (e : ModelBaseEntry) : Except UnknownRole SchemaKind :=
  match e.kind with
  | none => .ok .pydantic
  | some name =>
    match SchemaKind.ofName? name with
    | some kind => .ok kind
    | none => .error ⟨e.path, .kind, name⟩

/-- The catalog with the entry. -/
def addTo (e : ModelBaseEntry) (c : Catalog) : Except UnknownRole Catalog :=
  e.schemaKind.map (c.addModelBase e.path)

end ModelBaseEntry

namespace CatalogEntries

/-- No entries. -/
def none : CatalogEntries := ⟨[], [], [], [], []⟩

/-- The built-in tables with the entries on top of them. Entries are added table by table, each
in written order, and the first one that names something unknown is reported. -/
def toCatalog (e : CatalogEntries) : Except UnknownRole Catalog := do
  let c := e.httpClients.foldl (fun c h => h.addTo c) Catalog.builtin
  let c := e.httpModules.foldl (fun c m => m.addTo c) c
  let c ← e.routeGroups.foldlM (fun c g => g.addTo c) c
  let c := e.toolServers.foldl (fun c t => t.addTo c) c
  e.modelBases.foldlM (fun c b => b.addTo c) c

end CatalogEntries

end ApiSurface
