import ApiSurface.Text.Blank
import ApiSurface.Text.Slice
import ApiSurface.Text.Split

/-!
# Layout of docstrings

A docstring as it stands in the source is indented like the code around it. `clean` removes the
indentation that its lines share, white space at the ends of lines, and blank lines at both ends.
-/

namespace ApiSurface.Doc

open ApiSurface.Text (allBlank byteSize dropBytes dropTailWhile isBlank trim trimEnd trimStart)

/-- A line without its ending. -/
abbrev Line := List Char

/-- The number of bytes of white space at the start of a line. -/
def indentOf (line : Line) : Nat := byteSize (line.takeWhile isBlank)

/-- The least indentation of the lines that are not blank. -/
def commonIndent (lines : List Line) : Nat :=
  (((lines.filter fun l => !allBlank l).map indentOf).min?).getD 0

/-- Take the shared indentation off a line. -/
def dedent (indent : Nat) (line : Line) : Line :=
  if allBlank line then []
  else trimEnd ((dropBytes indent line).getD (trimStart line))

/-- The cleaned lines, blank ones at the ends included. -/
def cleanedLines : List Line → List Line
  | [] => []
  | first :: rest => trim first :: rest.map (dedent (commonIndent rest))

/-- Drop empty lines at both ends. -/
def dropEmptyEnds (lines : List Line) : List Line :=
  dropTailWhile List.isEmpty (lines.dropWhile List.isEmpty)

/-- A docstring without the indentation of the code around it. -/
def clean (raw : List Char) : List Char :=
  Text.join ['\n'] (dropEmptyEnds (cleanedLines (Text.lines raw)))

end ApiSurface.Doc
