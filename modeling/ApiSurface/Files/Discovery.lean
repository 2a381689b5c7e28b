import ApiSurface.Extract
import ApiSurface.Files.System

/-!
# Finding source files

Which files below a directory are scanned. Hidden directories and those of tools and builds are
never entered, and tests only when they are asked for.
-/

namespace ApiSurface.Files

/-- Directories that never hold sources of their own. -/
def skippedDirs : List String :=
  ["node_modules", "__pycache__", "site-packages", "venv", "env", "build", "dist"]

/-- Directories that hold tests. -/
def testDirs : List String := ["tests", "test", "testing"]

/-- Whether a file holds tests, by its name. -/
def isTestFile (name : String) : Bool :=
  name == "conftest.py" || (Text.startsWith name "test_" && Text.endsWith name ".py") ||
    Text.endsWith name "_test.py"

/-- Whether a directory is hidden. -/
def isHidden (name : String) : Bool := Text.startsWith name "."

/-- What is looked for. -/
structure Filter where
  includesTests : Bool
  /-- Paths, relative to where the search starts, that are left out. -/
  excluded : String → Bool

namespace Filter

/-- Whether a directory with the name is entered. -/
def enters (f : Filter) (name : String) : Bool :=
  !isHidden name && !skippedDirs.contains name && (f.includesTests || !testDirs.contains name)

/-- Whether a file is taken: the path that leads to it gives its name, and `relative` is its path
from where the search starts. -/
def takes (f : Filter) (path relative : String) : Bool :=
  handlesExtension ((Path.extension? path).getD "") &&
    (f.includesTests || !isTestFile ((Path.fileName? path).getD "")) && !f.excluded relative

end Filter

mutual
/-- The places of the files below an entry, from `place` on. Directories that are not entered are
left out with all that lies in them. -/
def placesBelow (f : Filter) (place : List String) : Entry → List (List String)
  | .file _ => [place]
  | .dir entries => placesBelowAll f place entries

/-- The places of the files below the entries of one directory. -/
def placesBelowAll (f : Filter) (place : List String) :
    List (String × Entry) → List (List String)
  | [] => []
  | (name, e) :: rest =>
    (if e.isDir && !f.enters name then [] else placesBelow f (place ++ [name]) e) ++
      placesBelowAll f place rest
end

/-- The path of a place below a directory. -/
def pathBelow (root : String) (place : List String) : String := place.foldl Path.join root

/-- The files that are found from a path on, in the order of their paths. -/
def collectFrom (f : Filter) (root : String) (e : Entry) : List String :=
  let paths := (placesBelow f [] e).map (pathBelow root)
  (paths.filter fun p => f.takes p (Path.relativeTo root p)).mergeSort Path.le

/-- The files that are found from a path on; `none` when nothing lies there. -/
def System.collect? (s : System) (f : Filter) (root : String) : Option (List String) :=
  (s.get? root).map (collectFrom f root)

end ApiSurface.Files
