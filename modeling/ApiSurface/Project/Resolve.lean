import ApiSurface.Project.Classes
import ApiSurface.Project.Groups

/-!
# Facts of a project

The facts of all files taken together: routes with their effective paths, groups with their
places, and the schemas that classes of all files make up. Every list is in the order of files and
spans.
-/

namespace ApiSurface

/-- What is kept about a file itself. -/
structure FileSummary where
  path : String
  module : Option String
  hasParseErrors : Bool
deriving DecidableEq, Repr, Inhabited

def FileSummary.toJson (f : FileSummary) : Json := .obj <|
  [("path", .str f.path)] ++ Json.member? "module" .str f.module ++
  [("has_parse_errors", .bool f.hasParseErrors)]

/-- The facts of a project. -/
structure ProjectFacts where
  httpCalls : List HttpCall
  routes : List Route
  groups : List RouteGroup
  unresolvedIncludes : List GroupInclude
  schemas : List Schema
  tools : List Tool
  files : List FileSummary
deriving Inhabited, Repr

namespace ProjectFacts

/-- The number of calls, routes, schemas and tools. -/
def factCount (p : ProjectFacts) : Nat :=
  p.httpCalls.length + p.routes.length + p.schemas.length + p.tools.length

/-- The number of facts with a part that could not be determined. -/
def degradedCount (p : ProjectFacts) : Nat :=
  p.httpCalls.countP (fun f => !f.degradations.isEmpty) +
    p.routes.countP (fun f => !f.degradations.isEmpty) +
    p.schemas.countP (fun f => !f.degradations.isEmpty) +
    p.tools.countP (fun f => !f.degradations.isEmpty)

/-- The number of files that could not be read without errors. -/
def parseErrorCount (p : ProjectFacts) : Nat := p.files.countP (·.hasParseErrors)

/-- The members of the facts in the data format. -/
def toMembers (p : ProjectFacts) : List (String × Json) :=
  [("http_calls", .arr (p.httpCalls.map HttpCall.toJson)),
    ("routes", .arr (p.routes.map Route.toJson)),
    ("groups", .arr (p.groups.map RouteGroup.toJson)),
    ("unresolved_includes", .arr (p.unresolvedIncludes.map GroupInclude.toJson)),
    ("schemas", .arr (p.schemas.map Schema.toJson)),
    ("tools", .arr (p.tools.map Tool.toJson)),
    ("files", .arr (p.files.map FileSummary.toJson))]

def toJson (p : ProjectFacts) : Json := .obj p.toMembers

end ProjectFacts

namespace Project

/-- A list in the order of the places of its elements; elements of one place keep their order. -/
def byLocation {α : Type} (location : α → String × Span) (l : List α) : List α :=
  l.mergeSort fun a b => locationLE (location a) (location b)

/-- The files in the order of their paths; files of one path keep their order. -/
def byPath (files : List FileFacts) : List FileFacts :=
  files.mergeSort fun a b => compare a.path b.path != .gt

/-- What is kept about a file. -/
def summarize (f : FileFacts) : FileSummary := ⟨f.path, f.module, f.hasParseErrors⟩

/-- The facts of a project from the facts of its files. -/
def resolve (files : List FileFacts) : ProjectFacts :=
  let files := byPath files
  let index := GroupIndex.build files
  { httpCalls := byLocation HttpCall.location (files.flatMap (·.httpCalls))
    routes := byLocation Route.location ((files.flatMap (·.routes)).map index.resolve)
    groups := byLocation RouteGroup.location index.groups
    unresolvedIncludes := index.unresolved
    schemas := (Hierarchy.ofFiles files).schemas
    tools := byLocation Tool.location (files.flatMap (·.tools))
    files := files.map summarize }

end Project

end ApiSurface
