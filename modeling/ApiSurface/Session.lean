import ApiSurface.Extract
import ApiSurface.Files.Path
import ApiSurface.Project.Resolve

/-!
# Sessions

Analysis of the files below a base directory, with a memory of the facts that were found. What is
remembered of a file stays as it is until the memory is cleared, whatever becomes of the file.
Files are remembered under the steps of their absolute path.
-/

namespace ApiSurface

open ApiSurface.Syntax (Tree)

/-- The module name of a file with the given names on its path. The file that stands for a package
gives it its name. -/
def moduleName? (path : String) : Option String :=
  match (Path.names path).reverse with
  | [] => none
  | file :: dirs =>
    let stem := (Path.splitName file).1
    let segments := if stem = "__init__" then dirs.reverse else dirs.reverse ++ [stem]
    if segments.isEmpty then none else some (".".intercalate segments)

/-- A file could not be read as text. -/
structure ReadFailure where
  path : String
deriving DecidableEq, Repr

def ReadFailure.message (f : ReadFailure) : String := "failed to read " ++ f.path

/-- The language of files that are not analysed. -/
def otherLanguage : String := "unknown"

/-- An analysis in progress. -/
structure Session where
  /-- The directory that relative paths start from. -/
  base : String
  parse : String → Tree
  catalog : Catalog
  /-- Remembered facts by the steps of the absolute path. -/
  memory : List (List Path.Step × FileFacts)

namespace Session

/-- A session without memory. -/
def new (base : String) (parse : String → Tree) (catalog : Catalog) : Session :=
  ⟨base, parse, catalog, []⟩

/-- What a file is remembered under. -/
def key (s : Session) (path : String) : List Path.Step := Path.steps (Path.join s.base path)

/-- The remembered facts of a file. -/
def remembered? (s : Session) (path : String) : Option FileFacts :=
  (s.memory.find? fun e => e.1 == s.key path).map (·.2)

/-- The path of a file as facts carry it. -/
def shownPath (s : Session) (path : String) : String :=
  Path.relativeTo s.base (Path.join s.base path)

/-- Whether files at the path are analysed. -/
def handles (s : Session) (path : String) : Bool :=
  handlesExtension ((Path.extension? (Path.join s.base path)).getD "")

/-- The facts of a file with the given text. -/
def factsOf (s : Session) (path text : String) : FileFacts :=
  let shown := s.shownPath path
  analyze s.parse s.catalog shown (moduleName? shown) text

/-- The facts of a file: those that are remembered, or else those of its text, which are then
remembered. Files of other kinds have none, and nothing is remembered of them. `read` gives the
text at an absolute path. -/
def analyzeFile (s : Session) (read : String → Option String) (path : String) :
    Except ReadFailure FileFacts × Session :=
  match s.remembered? path with
  | some facts => (.ok facts, s)
  | none =>
    if !s.handles path then (.ok (FileFacts.empty (s.shownPath path) otherLanguage), s)
    else
      match read (Path.join s.base path) with
      | none => (.error ⟨Path.join s.base path⟩, s)
      | some text =>
        let facts := s.factsOf path text
        (.ok facts, { s with memory := (s.key path, facts) :: s.memory })

/-- The facts of those files that can be read, in the order in which the files are given. -/
def gather (s : Session) (read : String → Option String) : List String → List FileFacts × Session
  | [] => ([], s)
  | path :: paths =>
    match s.analyzeFile read path with
    | (.ok facts, s) =>
      let (rest, s) := s.gather read paths
      (facts :: rest, s)
    | (.error _, s) => s.gather read paths

/-- The facts of those files that can be read, in the order of their paths. -/
def analyzeFiles (s : Session) (read : String → Option String) (paths : List String) :
    List FileFacts × Session :=
  let (facts, s) := s.gather read paths
  (Project.byPath facts, s)

/-- The facts of a project from those files that can be read. -/
def analyzeProject (s : Session) (read : String → Option String) (paths : List String) :
    ProjectFacts × Session :=
  let (facts, s) := s.analyzeFiles read paths
  (Project.resolve facts, s)

/-- The paths of all remembered facts in order. -/
def analyzedFiles (s : Session) : List String :=
  (s.memory.map (·.2.path)).mergeSort fun a b => compare a b != .gt

/-- Forget everything. -/
def clear (s : Session) : Session := { s with memory := [] }

end Session

end ApiSurface
