/-!
# Splitting and joining

Text cut at a separator character and put together again. `splitOn` never returns the empty
list, and `join` undoes it.
-/

namespace ApiSurface.Text

/-- The pieces of a list between the occurrences of `sep`; one more piece than occurrences. -/
def splitOn (sep : Char) : List Char → List (List Char)
  | [] => [[]]
  | c :: r =>
    match splitOn sep r with
    | [] => [[c]]
    | piece :: pieces => if c = sep then [] :: piece :: pieces else (c :: piece) :: pieces

/-- The pieces in order with `sep` between neighbours. -/
def join (sep : List Char) : List (List Char) → List Char
  | [] => []
  | [p] => p
  | p :: q :: r => p ++ sep ++ join sep (q :: r)

theorem splitOn_ne_nil (sep : Char) (l : List Char) : splitOn sep l ≠ [] := by
  cases l with
  | nil => simp [splitOn]
  | cons c r =>
    simp only [splitOn]
    split
    · simp
    · split <;> simp

theorem join_splitOn (sep : Char) (l : List Char) : join [sep] (splitOn sep l) = l := by
  induction l with
  | nil => rfl
  | cons c r ih =>
    have hne := splitOn_ne_nil sep r
    simp only [splitOn]
    split
    · contradiction
    · next piece pieces heq =>
      rw [heq] at ih
      split
      · next hc => simp [join, ih, hc]
      · cases pieces <;> simp_all [join]

/-- Cut at the first occurrence of `sep`, which belongs to neither part. -/
def splitFirst (sep : Char) : List Char → Option (List Char × List Char)
  | [] => none
  | c :: r => if c = sep then some ([], r) else (splitFirst sep r).map fun (a, b) => (c :: a, b)

/-- Cut at the last occurrence of `sep`, which belongs to neither part. -/
def splitLast (sep : Char) : List Char → Option (List Char × List Char)
  | [] => none
  | c :: r =>
    match splitLast sep r with
    | some (a, b) => some (c :: a, b)
    | none => if c = sep then some ([], r) else none

/-- The part after the last occurrence of `sep`, or everything when there is none. -/
def afterLast (sep : Char) (l : List Char) : List Char :=
  match splitLast sep l with
  | some (_, b) => b
  | none => l

/-- The part before the first occurrence of `sep`, or everything when there is none. -/
def beforeFirst (sep : Char) (l : List Char) : List Char := l.takeWhile (· ≠ sep)

/-- The lines of a text. A line ends with a line feed, before which one carriage return is
dropped; the last line needs no ending, and an ending at the end of the text opens no line. -/
def lines (l : List Char) : List (List Char) :=
  let pieces := splitOn '\n' l
  let ended := pieces.dropLast.map fun p => if p.getLast? = some '\r' then p.dropLast else p
  match pieces.getLast? with
  | some [] => ended
  | some last => ended ++ [last]
  | none => ended

/-- The pieces of a string between the occurrences of `sep`. -/
def splitString (sep : Char) (s : String) : List String :=
  (splitOn sep s.toList).map String.ofList

/-- Cut a string at the first occurrence of `sep`. -/
def splitFirstString (sep : Char) (s : String) : Option (String × String) :=
  (splitFirst sep s.toList).map fun (a, b) => (String.ofList a, String.ofList b)

/-- Cut a string at the last occurrence of `sep`. -/
def splitLastString (sep : Char) (s : String) : Option (String × String) :=
  (splitLast sep s.toList).map fun (a, b) => (String.ofList a, String.ofList b)

/-- The part of a string after the last occurrence of `sep`. -/
def afterLastString (sep : Char) (s : String) : String := String.ofList (afterLast sep s.toList)

/-- Whether the dotted name has a dot in it. -/
def hasDot (s : String) : Bool := s.toList.contains '.'

/-- Whether `s` starts with `head`. -/
def startsWith (s head : String) : Bool := head.toList.isPrefixOf s.toList

/-- Whether `s` ends with `tail`. -/
def endsWith (s tail : String) : Bool := tail.toList.isSuffixOf s.toList

end ApiSurface.Text
