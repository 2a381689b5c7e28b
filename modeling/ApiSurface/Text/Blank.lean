/-!
# White space

The characters with the Unicode property White_Space, and the operations on character lists
that are defined by them: trimming, removing all of them, and splitting into words.
-/

namespace ApiSurface.Text

/-- White space in the sense of Unicode: twenty-five characters, six of them ASCII. -/
def isBlank (c : Char) : Bool :=
  let n := c.toNat
  (9 ≤ n && n ≤ 13) || n == 32 || n == 0x85 || n == 0xa0 || n == 0x1680 ||
    (0x2000 ≤ n && n ≤ 0x200a) || n == 0x2028 || n == 0x2029 || n == 0x202f || n == 0x205f ||
    n == 0x3000

/-- What core calls white space is blank; the converse fails, for example, at U+00A0. -/
theorem isBlank_of_isWhitespace {c : Char} (h : c.isWhitespace = true) : isBlank c = true := by
  simp only [Char.isWhitespace, Bool.or_eq_true, decide_eq_true_eq] at h
  rcases h with ((rfl | rfl) | rfl) | rfl <;> decide

/-- Drop the longest tail whose characters all satisfy `p`. -/
def dropTailWhile {α : Type} (p : α → Bool) (l : List α) : List α :=
  (l.reverse.dropWhile p).reverse

/-- Drop leading white space. -/
def trimStart (l : List Char) : List Char := l.dropWhile isBlank

/-- Drop trailing white space. -/
def trimEnd (l : List Char) : List Char := dropTailWhile isBlank l

/-- Drop white space at both ends. -/
def trim (l : List Char) : List Char := trimEnd (trimStart l)

/-- Whether nothing but white space occurs. -/
def allBlank (l : List Char) : Bool := l.all isBlank

/-- Drop white space everywhere. -/
def compact (l : List Char) : List Char := l.filter (fun c => !isBlank c)

/-- The maximal runs of characters that are not white space, in order. -/
def words (l : List Char) : List (List Char) :=
  let step (c : Char) (acc : List Char × List (List Char)) : List Char × List (List Char) :=
    if isBlank c then ([], if acc.1.isEmpty then acc.2 else acc.1 :: acc.2)
    else (c :: acc.1, acc.2)
  let (run, rest) := l.foldr step ([], [])
  if run.isEmpty then rest else run :: rest

theorem dropTailWhile_nil {α : Type} (p : α → Bool) : dropTailWhile p [] = [] := rfl

@[simp] theorem trim_nil : trim [] = [] := rfl

theorem compact_append (l m : List Char) : compact (l ++ m) = compact l ++ compact m :=
  List.filter_append ..

/-- `trim` on strings. -/
def trimString (s : String) : String := String.ofList (trim s.toList)

/-- `compact` on strings. -/
def compactString (s : String) : String := String.ofList (compact s.toList)

end ApiSurface.Text
