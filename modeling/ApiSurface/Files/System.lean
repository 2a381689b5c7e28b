import ApiSurface.Files.Path

/-!
# File systems

A tree of directories and files with a working directory. There are no links, so every directory
has one place, and the place of a path is the list of names on the way to it.
-/

namespace ApiSurface.Files

/-- A file or a directory. -/
inductive Entry where
  | file (content : ByteArray)
  | dir (entries : List (String × Entry))
deriving Inhabited

namespace Entry

/-- An empty directory. -/
def empty : Entry := dir []

def isDir : Entry → Bool
  | dir _ => true
  | file _ => false

/-- The entry of a name in a list of entries. -/
def find? (name : String) (entries : List (String × Entry)) : Option Entry :=
  (entries.find? fun e => e.1 == name).map (·.2)

/-- The entry at a place. -/
def at? : Entry → List String → Option Entry
  | e, [] => some e
  | dir entries, n :: place => (find? n entries).bind fun e => e.at? place
  | file _, _ :: _ => none

/-- A list of entries with one that takes the place of the entry of its name, if there is one. -/
def set (name : String) (e : Entry) (entries : List (String × Entry)) : List (String × Entry) :=
  if entries.any fun p => p.1 == name then entries.map fun p => if p.1 == name then (name, e) else p
  else entries ++ [(name, e)]

/-- Put an entry at a place. Directories on the way must exist. -/
def put (new : Entry) : Entry → List String → Entry
  | _, [] => new
  | dir entries, n :: place =>
    dir (set n (put new ((find? n entries).getD empty) place) entries)
  | file content, _ :: _ => file content

/-- Take away the entry at a place. -/
def remove : Entry → List String → Entry
  | dir entries, [n] => dir (entries.filter fun p => p.1 != n)
  | dir entries, n :: place =>
    match find? n entries with
    | some e => dir (set n (e.remove place) entries)
    | none => dir entries
  | e, _ => e

end Entry

/-- A file system. -/
structure System where
  root : Entry
  /-- The place of the working directory. -/
  workingDir : List String
deriving Inhabited

namespace System

/-- The place that the parts of a path lead to, going on from `here`, whose names are listed last
one first. Every part but the last one must lead to a directory, and nothing leads on from a
file. -/
def walk (s : System) : List String → List String → Option (List String)
  | here, [] => some here
  | here, part :: rest =>
    match s.root.at? here.reverse with
    | some (.dir entries) =>
      if part = "" ∨ part = "." then s.walk here rest
      else if part = ".." then s.walk here.tail rest
      else if (Entry.find? part entries).isSome then s.walk (part :: here) rest
      else none
    | _ => none

/-- Where a path starts. -/
def startOf (s : System) (path : String) : List String :=
  if Path.isAbsolute path then [] else s.workingDir.reverse

/-- The place of a path, if there is something. The empty path leads nowhere. -/
def place? (s : System) (path : String) : Option (List String) :=
  if path = "" then none else (s.walk (s.startOf path) (Path.parts path)).map List.reverse

/-- What lies at a path. -/
def get? (s : System) (path : String) : Option Entry := (s.place? path).bind s.root.at?

/-- Whether something lies at a path. -/
def has (s : System) (path : String) : Bool := (s.get? path).isSome

/-- Whether a directory lies at a path. -/
def isDir (s : System) (path : String) : Bool := (s.get? path).any Entry.isDir

/-- The bytes of the file at a path. -/
def bytes? (s : System) (path : String) : Option ByteArray :=
  match s.get? path with
  | some (.file content) => some content
  | _ => none

/-- The text of the file at a path; a file that is not text has none. -/
def text? (s : System) (path : String) : Option String := (s.bytes? path).bind String.fromUTF8?

/-- The absolute path of a place. -/
def pathOf (place : List String) : String := "/" ++ "/".intercalate place

/-- The absolute path of what lies at a path. -/
def canonical? (s : System) (path : String) : Option String := (s.place? path).map pathOf

/-! ### Changes -/

/-- The place that a new file at a path gets: the path must end with a name in a directory. -/
def newPlace? (s : System) (path : String) : Option (List String) :=
  match (Path.parts path).getLast? with
  | some name =>
    if name = "" ∨ name = "." ∨ name = ".." then none
    else
      match s.walk (s.startOf path) (Path.parts path).dropLast with
      | some here =>
        if (s.root.at? here.reverse).any Entry.isDir then some (name :: here).reverse else none
      | none => none
  | none => none

/-- Write a file. -/
def write? (s : System) (path : String) (content : ByteArray) : Option System :=
  match s.newPlace? path with
  | some place =>
    if (s.root.at? place).any Entry.isDir then none
    else some { s with root := .put (.file content) s.root place }
  | none => none

/-- Create the directories on the way along the parts of a path, up to the first part that leads to
a file. Also tells whether the end was reached; what was created on the way stays. -/
def createAlong (s : System) : List String → List String → System × Bool
  | _, [] => (s, true)
  | here, part :: rest =>
    match s.root.at? here.reverse with
    | some (.dir entries) =>
      if part = "" ∨ part = "." then s.createAlong here rest
      else if part = ".." then s.createAlong here.tail rest
      else
        match Entry.find? part entries with
        | some (.dir _) => s.createAlong (part :: here) rest
        | some (.file _) => (s, false)
        | none =>
          { s with root := .put .empty s.root (part :: here).reverse }.createAlong
            (part :: here) rest
    | _ => (s, false)

/-- Create a directory and those that it lies in, as far as possible. Nothing happens where they
exist. -/
def createDirs (s : System) (path : String) : System × Bool :=
  s.createAlong (s.startOf path) (Path.parts path)

/-- The file system with the directory that a path lies in, as far as it can be created. -/
def withParent (s : System) (path : String) : System × Bool :=
  match Path.parent? path with
  | none => (s, true)
  | some dir => if dir = "" ∨ dir = "." then (s, true) else s.createDirs dir

/-- Remove a file. -/
def remove? (s : System) (path : String) : Option System :=
  match s.place? path, s.bytes? path with
  | some place, some _ => some { s with root := s.root.remove place }
  | _, _ => none

end System

end ApiSurface.Files
