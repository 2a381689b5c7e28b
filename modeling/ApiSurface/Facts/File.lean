import ApiSurface.Facts.Route
import ApiSurface.Facts.Schema
import ApiSurface.Facts.Tool

/-!
# Facts of one file

Everything that one file shows by itself, before files are taken together.
-/

namespace ApiSurface

/-- The facts of one file. -/
structure FileFacts where
  path : String
  language : String
  /-- The dotted module name that other files import the file by. -/
  module : Option String
  httpCalls : List HttpCall
  routes : List Route
  groups : List RouteGroup
  includes : List GroupInclude
  classes : List ClassDecl
  tools : List Tool
  hasParseErrors : Bool
deriving Inhabited, Repr

namespace FileFacts

/-- A file without facts. -/
def empty (path language : String) : FileFacts :=
  ⟨path, language, none, [], [], [], [], [], [], false⟩

/-- The number of calls, routes and tools. -/
def factCount (f : FileFacts) : Nat := f.httpCalls.length + f.routes.length + f.tools.length

def toJson (f : FileFacts) : Json := .obj
  [("path", .str f.path), ("language", .str f.language), ("module", Json.optStr f.module),
    ("http_calls", .arr (f.httpCalls.map HttpCall.toJson)),
    ("routes", .arr (f.routes.map Route.toJson)),
    ("groups", .arr (f.groups.map RouteGroup.toJson)),
    ("includes", .arr (f.includes.map GroupInclude.toJson)),
    ("classes", .arr (f.classes.map ClassDecl.toJson)),
    ("tools", .arr (f.tools.map Tool.toJson)),
    ("has_parse_errors", .bool f.hasParseErrors)]

end FileFacts

end ApiSurface
