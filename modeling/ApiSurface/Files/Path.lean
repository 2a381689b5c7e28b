import ApiSurface.Text.Split

/-!
# Paths

Paths of files as they are written, and what they are made of. A path is a text; its steps say
where it leads. Repeated separators and dots inside a path make no difference to the steps, but
the text keeps them.
-/

namespace ApiSurface.Path

/-- A step of a path. -/
inductive Step where
  | root
  /-- The directory itself; it counts only at the start. -/
  | here
  | up
  | name (text : String)
deriving DecidableEq, Repr, Inhabited

namespace Step

/-- The place of a step among steps of other kinds. -/
def rank : Step → Nat
  | root => 0
  | here => 1
  | up => 2
  | name _ => 3

/-- The text of a step. -/
def text : Step → String
  | root => ""
  | here => "."
  | up => ".."
  | name t => t

/-- Steps are ordered by kind and names by their text. -/
def compare (a b : Step) : Ordering := (Ord.compare a.rank b.rank).then (Ord.compare a.text b.text)

instance : Ord Step := ⟨compare⟩

/-- The name that a step is. -/
def name? : Step → Option String
  | name t => some t
  | _ => none

end Step

/-- Whether a path begins at the root. -/
def isAbsolute (path : String) : Bool := path.toList.head? == some '/'

/-- The parts between separators. -/
def parts (path : String) : List String := Text.splitString '/' path

/-- The step that a part makes behind the start. -/
def step? (part : String) : Option Step :=
  if part = "" ∨ part = "." then none else if part = ".." then some .up else some (.name part)

/-- Where a path starts. -/
def start (path : String) : List Step :=
  if isAbsolute path then [.root]
  else if (parts path).head? = some "." then [.here]
  else []

/-- The steps of a path. -/
def steps (path : String) : List Step := start path ++ (parts path).filterMap step?

/-- A path with the given steps. -/
def ofSteps (l : List Step) : String :=
  match l with
  | [.root] => "/"
  | l => "/".intercalate (l.map Step.text)

/-- The names on a path. -/
def names (path : String) : List String := (steps path).filterMap Step.name?

/-- The order of paths. -/
def compare (a b : String) : Ordering := Ord.compare (steps a) (steps b)

/-- The order of paths as the test that a stable sort takes. -/
def le (a b : String) : Bool := compare a b != .gt

/-- A path as seen from a directory. -/
def join (dir path : String) : String :=
  if isAbsolute path ∨ dir = "" then path
  else if dir.toList.getLast? = some '/' then dir ++ path
  else dir ++ "/" ++ path

/-! ### Names -/

/-- The last name of a path. -/
def fileName? (path : String) : Option String := (steps path).getLast?.bind Step.name?

/-- A name without its extension, and the extension. A dot at the start of a name begins no
extension. -/
def splitName (name : String) : String × Option String :=
  match Text.splitLast '.' name.toList with
  | some ([], _) => (name, none)
  | some (stem, extension) => (String.ofList stem, some (String.ofList extension))
  | none => (name, none)

/-- The extension of the last name. -/
def extension? (path : String) : Option String := (fileName? path).bind fun n => (splitName n).2

/-- The directory that the last step starts from; the root has none. -/
def parent? (path : String) : Option String :=
  match (steps path).getLast? with
  | none => none
  | some .root => none
  | some _ => some (ofSteps (steps path).dropLast)

/-! ### Relative paths -/

/-- A text without separators and dots in front that make no step. -/
def trimStart : List Char → List Char
  | '/' :: r => trimStart r
  | '.' :: '/' :: r => trimStart r
  | ['.'] => []
  | l => l

/-- A text without separators and dots behind that make no step. -/
def trimEnd (l : List Char) : List Char := (trimStart l.reverse).reverse

/-- What is left of a text behind its first `n` names. -/
def dropNames : Nat → List Char → List Char
  | 0, l => l
  | n + 1, l => dropNames n ((trimStart l).dropWhile (· ≠ '/'))

/-- The part of a path below a directory, as it is written there. -/
def below? (dir path : String) : Option String :=
  if (steps dir).isPrefixOf (steps path) then
    let rest := dropNames ((parts dir).filterMap step?).length path.toList
    some (String.ofList (trimEnd (if steps dir = [] then rest else trimStart rest)))
  else none

/-- The part of a path below a directory; a path that does not lie there is left as it is. -/
def relativeTo (dir path : String) : String := (below? dir path).getD path

end ApiSurface.Path
