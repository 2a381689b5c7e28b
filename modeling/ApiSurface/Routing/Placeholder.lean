import ApiSurface.Text.Split

/-!
# Placeholders in route paths

A path names its parameters as `<name>`, `<converter:name>` or `<converter(arguments):name>`, or
as `{name}` with an optional converter behind a colon. Everything else in a path is literal.
-/

namespace ApiSurface.Routing

/-- A letter or an underscore. -/
def isLetter (c : Char) : Bool := ('a' ≤ c && c ≤ 'z') || ('A' ≤ c && c ≤ 'Z') || c == '_'

/-- A character that may stand inside an identifier. -/
def isWordChar (c : Char) : Bool := isLetter c || ('0' ≤ c && c ≤ '9')

/-- Whether the text is an ASCII identifier. -/
def isIdentifier : List Char → Bool
  | [] => false
  | c :: r => isLetter c && r.all isWordChar

/-- The longest identifier at the start of a text, and what follows it. -/
def takeIdentifier? : List Char → Option (List Char × List Char)
  | [] => none
  | c :: r =>
    if isLetter c then some (c :: r.takeWhile isWordChar, r.dropWhile isWordChar) else none

/-- A parameter that a path names. -/
structure Placeholder where
  name : String
  /-- The converter of the angle form, which has a default; the brace form has none. -/
  converter : Option String
deriving DecidableEq, Repr, Inhabited

/-- The converter of an angle placeholder that does not name one. -/
def defaultConverter : String := "string"

/-- Read the text between angle brackets. -/
def readAngle? (content : List Char) : Option Placeholder :=
  match takeIdentifier? content with
  | none => none
  | some (first, []) => some ⟨String.ofList first, some defaultConverter⟩
  | some (first, ':' :: name) =>
    if isIdentifier name then some ⟨String.ofList name, some (String.ofList first)⟩ else none
  | some (first, '(' :: rest) =>
    match Text.splitLast ')' rest with
    | some (_, ':' :: name) =>
      if isIdentifier name then some ⟨String.ofList name, some (String.ofList first)⟩ else none
    | _ => none
  | some _ => none

/-- Whether the text is what may follow the name in a brace placeholder. -/
def isBraceTail : List Char → Bool
  | [] => true
  | ':' :: c :: r => isLetter c && r.all isLetter
  | _ => false

/-- Read the text between braces. -/
def readBrace? (content : List Char) : Option Placeholder :=
  match takeIdentifier? content with
  | some (name, tail) => if isBraceTail tail then some ⟨String.ofList name, none⟩ else none
  | none => none

/-- Read a placeholder at the start of a text, together with the number of characters it takes
after its opening character. -/
def readAt? (c : Char) (rest : List Char) : Option (Placeholder × Nat) :=
  if c = '<' then do
    let (content, _) ← Text.splitFirst '>' rest
    let p ← readAngle? content
    pure (p, content.length + 1)
  else if c = '\x7b' then do
    let (content, _) ← Text.splitFirst '\x7d' rest
    let p ← readBrace? content
    pure (p, content.length + 1)
  else none

/-- The placeholders of a text from left to right, after skipping some characters. -/
def placeholdersFrom : Nat → List Char → List Placeholder
  | _, [] => []
  | skip + 1, _ :: r => placeholdersFrom skip r
  | 0, c :: r =>
    match readAt? c r with
    | some (p, used) => p :: placeholdersFrom used r
    | none => placeholdersFrom 0 r

/-- The placeholders of a path from left to right. -/
def placeholders (path : String) : List Placeholder := placeholdersFrom 0 path.toList

end ApiSurface.Routing
