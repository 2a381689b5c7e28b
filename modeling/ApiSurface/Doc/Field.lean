import ApiSurface.Doc.Layout
import ApiSurface.Routing.Placeholder

/-!
# Lines with a meaning in docstrings

Headers of sections, rules under section titles, and lines that describe a parameter or the
result, in the three usual styles. All functions take a line without white space at its ends.
-/

namespace ApiSurface.Doc

open ApiSurface.Routing (isIdentifier takeIdentifier?)
open ApiSurface.Text (isBlank splitFirst trim trimEnd trimStart)

/-- What a section is about. -/
inductive Topic where
  | params | returns | other
deriving DecidableEq, Repr, Inhabited

/-- Titles of sections about parameters. -/
def paramTitles : List String :=
  ["Args", "Arguments", "Parameters", "Params", "Keyword Args", "Keyword Arguments"]

/-- Titles of sections about the result. -/
def returnTitles : List String := ["Returns", "Return", "Yields"]

/-- Titles of the other sections that a colon may follow. -/
def otherTitles : List String :=
  ["Raises", "Example", "Examples", "Note", "Notes", "Attributes", "See Also", "Warning",
    "Warnings"]

/-- What the section with the title is about. -/
def topicOf (title : Line) : Topic :=
  let t := String.ofList title
  if paramTitles.contains t then .params
  else if returnTitles.contains t then .returns
  else .other

/-- The title of a header with a colon. -/
def headerTitle? (line : Line) : Option Line :=
  if line.getLast? = some ':' then
    let title := trimEnd line.dropLast
    let t := String.ofList title
    if paramTitles.contains t || returnTitles.contains t || otherTitles.contains t then some title
    else none
  else none

/-- Whether the line is a rule of at least three dashes. -/
def isRule (line : Line) : Bool := 3 ≤ line.length && line.all (· == '-')

/-- Drop at most two stars. -/
def dropStars : Line → Line
  | '*' :: '*' :: r => r
  | '*' :: r => r
  | l => l

/-- What follows a type in parentheses; without parentheses, everything. -/
def afterParens? : Line → Option Line
  | '(' :: r => (splitFirst ')' r).map (·.2)
  | l => some l

/-- The text after a colon at the start. -/
def afterColon? : Line → Option Line
  | ':' :: r => some r
  | _ => none

/-- The name and the text of a line `name (type): text`. -/
def colonParam? (line : Line) : Option (Line × Line) := do
  let (name, rest) ← takeIdentifier? (dropStars line)
  let rest ← afterParens? (trimStart rest)
  let text ← afterColon? (trimStart rest)
  pure (name, trim text)

/-- The name of a line `name` or `name : type`. -/
def underlinedParam? (line : Line) : Option Line := do
  let (name, rest) ← takeIdentifier? (dropStars line)
  match trimStart rest with
  | [] => pure name
  | ':' :: _ => pure name
  | _ => none

/-- What follows `head` at the start of a line. -/
def stripHead? (head : String) (line : Line) : Option Line :=
  if head.toList.isPrefixOf line then some (line.drop head.length) else none

/-- The name and the text of a line `:param type name: text`; the type may be left out. -/
def fieldParam? (line : Line) : Option (Line × Line) := do
  let rest ← stripHead? ":param" line
  let (spec, text) ← splitFirst ':' rest
  match spec with
  | c :: _ =>
    let name := (trimEnd spec).reverse.takeWhile (fun c => !isBlank c) |>.reverse
    if isBlank c && isIdentifier name then pure (name, trim text) else none
  | [] => none

/-- The text of a line `:return: text` or `:returns: text`. -/
def fieldReturns? (line : Line) : Option Line := do
  let rest ← stripHead? ":return" line
  let rest := match rest with
    | 's' :: r => r
    | r => r
  let text ← afterColon? (trimStart rest)
  pure (trim text)

/-- Whether the line is a field between colons at its start. -/
def isField : Line → Bool
  | ':' :: c :: r => (('a' ≤ c && c ≤ 'z') || ('A' ≤ c && c ≤ 'Z')) && r.contains ':'
  | _ => false

end ApiSurface.Doc
