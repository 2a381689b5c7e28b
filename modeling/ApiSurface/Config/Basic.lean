import ApiSurface.Config.Entries
import ApiSurface.Glob.Match
import ApiSurface.Json

/-!
# Configurations

What a project can configure: which files are scanned, and what is added to the recognition
tables. A configuration is valid when its patterns can be read and its catalog entries name known
frameworks and kinds; patterns are checked first.
-/

namespace ApiSurface

/-- The settings of a project. -/
structure Config where
  version : String
  /-- Whether test files are scanned, if it says so. -/
  includeTestFiles : Option Bool
  /-- Patterns of the paths that are left out. -/
  excludedPaths : List String
  catalog : CatalogEntries
deriving DecidableEq, Repr

/-- What can be wrong with a configuration. -/
inductive ConfigError where
  | pattern (text : String)
  | role (cause : UnknownRole)
deriving DecidableEq, Repr

def ConfigError.message : ConfigError → String
  | pattern text => "invalid excluded_paths pattern " ++ Text.quoted text
  | role cause => cause.message

namespace Config

/-- The settings of a project that sets none. -/
def default : Config := ⟨"", none, [], .none⟩

/-- The names under which a configuration is looked for, in order. -/
def fileNames : List String := ["apiscan.yaml", ".apiscan.yaml"]

/-- Whether test files are scanned. -/
def includesTests (c : Config) : Bool := c.includeTestFiles.getD false

/-- The patterns of the paths that are left out. -/
def exclusions (c : Config) : Except ConfigError Glob.Patterns :=
  (Glob.Patterns.read c.excludedPaths).mapError ConfigError.pattern

/-- The recognition tables with the entries of the configuration. -/
def tables (c : Config) : Except ConfigError Catalog :=
  c.catalog.toCatalog.mapError ConfigError.role

/-- What a valid configuration says: the patterns and the tables. -/
def validate (c : Config) : Except ConfigError (Glob.Patterns × Catalog) := do
  let patterns ← c.exclusions
  let tables ← c.tables
  pure (patterns, tables)

end Config

/-! ### Written form -/

def HttpClientEntry.toJson (e : HttpClientEntry) : Json := .obj
  [("constructor", .str e.constructor), ("library", .str e.library), ("async", .bool e.isAsync)]

def HttpModuleEntry.toJson (e : HttpModuleEntry) : Json :=
  .obj [("module", .str e.module), ("library", .str e.library)]

def RouteGroupEntry.toJson (e : RouteGroupEntry) : Json := .obj
  [("constructor", .str e.constructor), ("framework", .str e.framework), ("kind", .str e.kind)]

def ToolServerEntry.toJson (e : ToolServerEntry) : Json :=
  .obj [("constructor", .str e.constructor), ("framework", .str e.framework)]

def ModelBaseEntry.toJson (e : ModelBaseEntry) : Json :=
  .obj [("path", .str e.path), ("kind", Json.optStr e.kind)]

def CatalogEntries.toJson (e : CatalogEntries) : Json := .obj
  [("http_clients", .arr (e.httpClients.map HttpClientEntry.toJson)),
    ("http_modules", .arr (e.httpModules.map HttpModuleEntry.toJson)),
    ("route_groups", .arr (e.routeGroups.map RouteGroupEntry.toJson)),
    ("tool_servers", .arr (e.toolServers.map ToolServerEntry.toJson)),
    ("model_bases", .arr (e.modelBases.map ModelBaseEntry.toJson))]

def Config.toJson (c : Config) : Json := .obj
  [("version", .str c.version),
    ("include_test_files", Json.ofOption .bool c.includeTestFiles),
    ("excluded_paths", Json.strs c.excludedPaths), ("catalog", c.catalog.toJson)]

end ApiSurface
