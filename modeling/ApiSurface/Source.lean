import ApiSurface.Binding.Build

/-!
# Source files

A file as the extractors see it: its path, its syntax tree, its binding table and the catalog. The
parser is a parameter, since annotations can hold further source text between quotes.
-/

namespace ApiSurface

open ApiSurface.Syntax (Tree)

/-- A file ready for extraction. -/
structure Source where
  path : String
  parse : String → Tree
  tree : Tree
  table : Binding.Table
  catalog : Catalog

namespace Source

/-- Parse a text and record its bindings. -/
def read (parse : String → Tree) (catalog : Catalog) (path text : String) : Source :=
  let tree := parse text
  ⟨path, parse, tree, Binding.Table.build tree catalog, catalog⟩

/-- The object with a catalog role that an expression of the file denotes. -/
def resolve? (s : Source) (n : Syntax.Node) : Option Binding.Instance :=
  s.table.resolve? s.catalog n

end Source

end ApiSurface
