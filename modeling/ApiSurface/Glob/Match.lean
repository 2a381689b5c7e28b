import ApiSurface.Glob.Pattern

/-!
# Matching

Which paths a glob pattern matches. Paths are matched byte by byte and as a whole. The offsets of a
path are marked that the pieces so far can end at; each piece moves the marks on, and a pattern
matches when the end of the path is marked at last.
-/

namespace ApiSurface.Glob

/-- The bytes of a character. -/
def bytesOf (c : Char) : List UInt8 := c.toString.toUTF8.toList

/-- The separator of names. -/
def slash : UInt8 := 47

/-- What stands before an extension. -/
def dot : UInt8 := 46

/-- Whether a byte is among those of a range. Only ASCII characters are one byte each: of the
other ones every byte counts by itself, and the range lies between the last byte of the first
character and the first byte of the last one. -/
def inRange (b : UInt8) (range : Char × Char) : Bool :=
  let first := bytesOf range.1
  let last := bytesOf range.2
  if range.1 = range.2 then first.contains b
  else
    first.dropLast.contains b || last.tail.contains b ||
      (match first.getLast?, last.head? with
        | some low, some high => low ≤ b && b ≤ high
        | _, _ => false)

/-! ### Marks -/

/-- Marks for the offsets of a path, from its start to its end. -/
abbrev Marks := List Bool

namespace Marks

/-- Only the start of a path is marked. -/
def atStart (path : List UInt8) : Marks := true :: path.map fun _ => false

/-- Nothing is marked. -/
def clear (m : Marks) : Marks := m.map fun _ => false

/-- What is marked in one or the other. -/
def union (m n : Marks) : Marks := List.zipWith (· || ·) m n

/-- The offsets that a byte which passes the test lies in front of, and a mark in front of it. -/
def advance (path : List UInt8) (test : UInt8 → Bool) (m : Marks) : Marks :=
  false :: List.zipWith (fun mark b => mark && test b) m path

/-- The offsets at a mark or behind it; `seen` tells whether there was a mark before. -/
def spreadFrom (seen : Bool) : Marks → Marks
  | [] => []
  | mark :: rest => (seen || mark) :: spreadFrom (seen || mark) rest

/-- The offsets at a mark or behind it. -/
def spread (m : Marks) : Marks := spreadFrom false m

/-- The offsets behind a separator that stands at a mark. -/
def enter (path : List UInt8) (m : Marks) : Marks := m.advance path (· == slash)

/-- Whether the end of the path is marked. -/
def isAtEnd (m : Marks) : Bool := m.getLast? == some true

end Marks

mutual
/-- Whether a piece stands for no text at all: an alternation without branches. -/
def Piece.isVoid : Piece → Bool
  | .oneOf branches => allBranchesVoid branches
  | _ => false

/-- Whether all pieces stand for no text at all. -/
def allVoid : List Piece → Bool
  | [] => true
  | p :: ps => p.isVoid && allVoid ps

/-- Whether all branches stand for no text at all. -/
def allBranchesVoid : List (List Piece) → Bool
  | [] => true
  | b :: bs => allVoid b && allBranchesVoid bs
end

mutual
/-- Where a piece that starts at a mark can end. -/
def Piece.follow (path : List UInt8) (m : Marks) : Piece → Marks
  | .literal c => (bytesOf c).foldl (fun m b => Marks.advance path (· == b) m) m
  | .any => m.advance path fun _ => true
  | .star => m.spread
  | .leading => m.union (m.spread.enter path)
  | .trailing => (m.enter path).spread
  | .between => (m.enter path).union ((m.enter path).spread.enter path)
  | .charset negated ranges => m.advance path fun b => ranges.any (inRange b) != negated
  | .oneOf branches => if allBranchesVoid branches then m else followAny path m branches

/-- Where pieces that start at a mark can end, one after the other. -/
def followAll (path : List UInt8) (m : Marks) : List Piece → Marks
  | [] => m
  | p :: ps => followAll path (p.follow path m) ps

/-- Where the branches of an alternation that starts at a mark can end. Empty branches do not
count. -/
def followAny (path : List UInt8) (m : Marks) : List (List Piece) → Marks
  | [] => m.clear
  | b :: bs => (if allVoid b then m.clear else followAll path m b).union (followAny path m bs)
end

/-! ### Names -/

/-- The character that a piece stands for, when it stands for only one. -/
def Piece.char? : Piece → Option Char
  | .literal c => some c
  | _ => none

/-- Whether pieces stand for only one text. -/
def isText (pieces : List Piece) : Bool := pieces.all fun p => p.char?.isSome

/-- Whether pieces have the given character at their end. -/
def endsWith (c : Char) (pieces : List Piece) : Bool := pieces.getLast?.bind Piece.char? == some c

/-- Whether a pattern with a dot at its end asks for the last name of a path or for its extension:
a single name in any directory does, and so does a pattern that is not only a text with something
in front. -/
def asksForName (pieces : List Piece) : Bool :=
  match pieces with
  | .leading :: .star :: rest => rest.length == 1 || !isText rest
  | .star :: rest => rest.length == 1 || !isText rest
  | .leading :: rest => !isText rest || !rest.any fun p => p.char? == some '/'
  | pieces => !isText pieces

/-- Whether a path leads to the directory above: its last name is two dots. -/
def leadsUp (path : List UInt8) : Bool :=
  match path.reverse with
  | [a, b] => a == dot && b == dot
  | a :: b :: c :: _ => a == dot && b == dot && c == slash
  | _ => false

/-- Whether a pattern matches a path. Directories alone match every path. A path that leads to the
directory above has no last name and no extension, so nothing that asks for them matches it. -/
def matchesPieces (pieces : List Piece) (path : List UInt8) : Bool :=
  match pieces with
  | [.leading] => true
  | pieces =>
    !(leadsUp path && endsWith '.' pieces && asksForName pieces) &&
      (followAll path (Marks.atStart path) pieces).isAtEnd

/-- Several patterns together. -/
structure Patterns where
  members : List (List Piece)

namespace Patterns

/-- Read several patterns; the first one that cannot be read is given back. -/
def read (patterns : List String) : Except String Patterns :=
  (patterns.mapM fun p => match read? p with
    | some pieces => Except.ok pieces
    | none => Except.error p).map Patterns.mk

/-- Whether one of the patterns matches the path. -/
def isMatch (p : Patterns) (path : String) : Bool :=
  let bytes := path.toUTF8.toList
  p.members.any fun pieces => matchesPieces pieces bytes

end Patterns

end ApiSurface.Glob
