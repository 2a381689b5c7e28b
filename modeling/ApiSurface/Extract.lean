import ApiSurface.Facts.File
import ApiSurface.Http.Call
import ApiSurface.Routing.Route
import ApiSurface.Schema.Class
import ApiSurface.Tooling.Tool

/-!
# Facts of a source file

Everything that the extractors find in one file. Extraction never fails: what cannot be
determined is marked in the fact that needs it.
-/

namespace ApiSurface

open ApiSurface.Syntax (Tree)

/-- The language of the files that are analysed. -/
def language : String := "python"

/-- The extensions of the files that are analysed. -/
def extensions : List String := ["py", "pyi"]

/-- The patterns of the files that are analysed. -/
def filePatterns : List String := ["**/*.py", "**/*.pyi"]

/-- Whether files with the extension are analysed. -/
def handlesExtension (ext : String) : Bool := extensions.contains ext

namespace Source

/-- The facts of a file. -/
def facts (s : Source) (module : Option String) : FileFacts :=
  let routing := Routing.listing s
  { path := s.path
    language
    module
    httpCalls := Http.calls s
    routes := routing.routes
    groups := routing.groups
    includes := routing.includes
    classes := ClassDecl.all s
    tools := Tool.all s
    hasParseErrors := s.tree.hasErrors }

end Source

/-- The facts of a text as the file with the given path and module name. -/
def analyze (parse : String → Tree) (catalog : Catalog) (path : String) (module : Option String)
    (text : String) : FileFacts :=
  (Source.read parse catalog path text).facts module

end ApiSurface
