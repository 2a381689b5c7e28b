/-!
# Paths

Joining of path fragments. The result starts with one slash, never has two slashes in a row, and
keeps the segments of the fragments in order.
-/

namespace ApiSurface.Routing

/-- Replace each run of slashes by one. -/
def collapse : List Char → List Char
  | [] => []
  | [c] => [c]
  | c :: d :: r => if c = '/' ∧ d = '/' then collapse (d :: r) else c :: collapse (d :: r)

/-- The fragments one after the other, each non-empty one behind a slash. -/
def rooted (parts : List (List Char)) : List Char :=
  parts.flatMap fun p => if p.isEmpty then [] else '/' :: p

/-- Join fragments to a path; without any text the path is a single slash. -/
def joinChars (parts : List (List Char)) : List Char :=
  match collapse (rooted parts) with
  | [] => ['/']
  | path => path

/-- Join fragments to a path. -/
def joinPaths (parts : List String) : String :=
  String.ofList (joinChars (parts.map String.toList))

/-- Join the fragments that are present. -/
def joinPresent (parts : List (Option String)) : String := joinPaths (parts.filterMap id)

end ApiSurface.Routing
