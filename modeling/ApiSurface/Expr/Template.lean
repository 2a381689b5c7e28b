import ApiSurface.Expr.Escape
import ApiSurface.Expr.Strip
import ApiSurface.Facts.Http

/-!
# String literals

The value of a string expression as a list of literal pieces and slots, with neighbouring literal
pieces merged and empty ones left out.
-/

namespace ApiSurface.Expr

open ApiSurface.Syntax (Node)

/-- Append literal text, merging it with a literal piece at the end. -/
def pushLiteral (segments : List UrlSegment) (text : String) : List UrlSegment :=
  if text.isEmpty then segments
  else match segments.getLast? with
    | some (.literal last) => segments.dropLast ++ [.literal (last ++ text)]
    | _ => segments ++ [.literal text]

/-- Append one piece. -/
def pushSegment (segments : List UrlSegment) : UrlSegment → List UrlSegment
  | .literal text => pushLiteral segments text
  | .slot expr => segments ++ [.slot expr]

/-- Append several pieces. -/
def pushAll (segments more : List UrlSegment) : List UrlSegment := more.foldl pushSegment segments

/-- The letters before the opening quote, in lower case. -/
def literalPrefix (string : Node) : List Char :=
  match string.children.find? fun c => c.kind == "string_start" with
  | some start =>
    (start.text.toList.reverse.dropWhile fun c => c = '"' || c = '\'').reverse.map Char.toLower
  | none => []

/-- The source text of an interpolated expression. -/
def slotText (interpolation : Node) : String :=
  match interpolation.childByField? "expression" <|> interpolation.firstNamed? with
  | some e => e.text
  | none => ""

/-- Append the contribution of one child of a string node. -/
def pushPart (raw template : Bool) (segments : List UrlSegment) (part : Node) :
    List UrlSegment :=
  if part.kind = "string_content" ∨ part.kind = "escape_sequence" then
    pushLiteral segments (String.ofList (unescape raw template part.text.toList))
  else if part.kind = "interpolation" then segments ++ [.slot (slotText part)]
  else segments

/-- The pieces of one string node; a byte string has none. -/
def stringSegments? (string : Node) : Option (List UrlSegment) :=
  let letters := literalPrefix string
  if letters.contains 'b' then none
  else
    some (string.children.foldl (pushPart (letters.contains 'r') (letters.contains 'f')) [])

/-- The pieces of a string or of an implicit concatenation. -/
def template? (n : Node) : Option (List UrlSegment) :=
  let n := stripParens n
  if n.kind = "string" then stringSegments? n
  else if n.kind = "concatenated_string" then
    n.namedChildren.foldlM (fun segments part => (stringSegments? part).map (pushAll segments)) []
  else none

/-- The text of literal pieces; `none` when there is a slot. -/
def literalText? : List UrlSegment → Option String
  | [] => some ""
  | .literal text :: r => (literalText? r).map (text ++ ·)
  | .slot _ :: _ => none

/-- The value of a string expression without slots. -/
def stringLiteral? (n : Node) : Option String := (template? n).bind literalText?

/-- The strings of a list, tuple or set display, or a single string. -/
def stringList? (n : Node) : Option (List String) :=
  let n := stripParens n
  if n.kind = "list" ∨ n.kind = "tuple" ∨ n.kind = "set" then n.namedChildren.mapM stringLiteral?
  else if n.kind = "string" ∨ n.kind = "concatenated_string" then
    (stringLiteral? n).map fun s => [s]
  else none

end ApiSurface.Expr
