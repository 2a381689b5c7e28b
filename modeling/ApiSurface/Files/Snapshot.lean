import ApiSurface.Files.System
import ApiSurface.Numeral.Integer
import ApiSurface.Syntax.Position
import ApiSurface.Syntax.Tree

/-!
# Snapshots

Files of a project together with the syntax trees of their texts, as one text. A snapshot is a
sequence of records. Each record starts with a line of fields, with a tab between neighbours:

* `file`, a path, and the number of lines of the file, which follow;
* `tree`, the number of lines of a text, and the number of its nodes: the lines of the text follow
  and then a line for each node in pre-order, with its depth, kind, role, flags and the offsets of
  its start and its end.
-/

namespace ApiSurface.Files

open ApiSurface.Syntax (ParseTree Label Tree Position)

/-- Files and syntax trees. -/
structure Snapshot where
  files : List (String × String)
  trees : List (String × ParseTree)

namespace Snapshot

/-- Nothing. -/
def empty : Snapshot := ⟨[], []⟩

/-- Lines put together to a text. -/
def textOf (lines : List (List Char)) : String := String.ofList (Text.join ['\n'] lines)

/-- The node on a line. -/
def row? (positions : Array Position) (line : List Char) : Option ParseTree.Row :=
  match Text.splitOn '\t' line with
  | [depth, kind, field, flags, s, e] => do
    let s ← Numeral.natural? s
    let e ← Numeral.natural? e
    pure ⟨← Numeral.natural? depth,
      { kind := String.ofList kind
        field := if field.isEmpty then none else some (String.ofList field)
        named := flags.contains 'n'
        extra := flags.contains 'e'
        error := flags.contains '!'
        span := Syntax.spanBetween positions s e }⟩
  | _ => none

/-- The tree of a text with a line for each node. -/
def tree? (text : String) (lines : List (List Char)) : Option ParseTree := do
  let positions := Position.ofText text
  ParseTree.ofRows? (← lines.mapM (row? positions))

/-- Read records. The fuel bounds their number. -/
def records : Nat → Snapshot → List (List Char) → Option Snapshot
  | 0, _, _ => none
  | _ + 1, s, [] => some s
  | fuel + 1, s, line :: rest =>
    match Text.splitOn '\t' line with
    | [['f', 'i', 'l', 'e'], path, count] => do
      let n ← Numeral.natural? count
      records fuel
        { s with files := s.files ++ [(String.ofList path, textOf (rest.take n))] } (rest.drop n)
    | [['t', 'r', 'e', 'e'], textCount, nodeCount] => do
      let n ← Numeral.natural? textCount
      let m ← Numeral.natural? nodeCount
      let text := textOf (rest.take n)
      let tree ← tree? text ((rest.drop n).take m)
      records fuel { s with trees := s.trees ++ [(text, tree)] } (rest.drop (n + m))
    | [[]] => records fuel s rest
    | _ => none

/-- Read a snapshot. -/
def read? (text : String) : Option Snapshot :=
  let lines := Text.splitOn '\n' text.toList
  records (lines.length + 1) empty lines

/-- A file system that holds the files of a snapshot. -/
def system (s : Snapshot) : System :=
  s.files.foldl (fun system (path, text) =>
    let system := (system.withParent path).1
    (system.write? path text.toUTF8).getD system) ⟨.empty, []⟩

/-- A node that stands for a text without a tree. -/
def unread (text : String) : ParseTree :=
  .node ⟨"module", none, true, false, true, ⟨0, text.utf8ByteSize, 1, 1, 1, 1⟩⟩ []

/-- The trees of a snapshot as a parser. -/
def parse (s : Snapshot) (text : String) : Tree :=
  Tree.lower text (((s.trees.find? fun p => p.1 == text).map (·.2)).getD (unread text))

end Snapshot

end ApiSurface.Files
