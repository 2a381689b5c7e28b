/-!
# Escapes in string literals

The value of the text between the quotes of a string literal.
-/

namespace ApiSurface.Expr

/-- The value of a backslash followed by a character. A pair that means nothing special stands
for itself, and an escaped line end for nothing. -/
def escaped (c : Char) : List Char :=
  if c = 'n' then ['\n']
  else if c = 't' then ['\t']
  else if c = 'r' then ['\r']
  else if c = '0' then [Char.ofNat 0]
  else if c = '\\' then ['\\']
  else if c = '\'' then ['\'']
  else if c = '"' then ['"']
  else if c = '\n' then []
  else ['\\', c]

/-- Whether the character opens or closes a replacement field. -/
def isBrace (c : Char) : Bool := c = '\x7b' || c = '\x7d'

/-- The value of the text of a literal. Escapes count unless the literal is raw; doubled braces
stand for one brace in a template. -/
def unescape (raw template : Bool) : List Char → List Char
  | [] => []
  | [c] => [c]
  | c :: d :: r =>
    if c = '\\' ∧ raw = false then escaped d ++ unescape raw template r
    else if template && isBrace c && d == c then c :: unescape raw template r
    else c :: unescape raw template (d :: r)

end ApiSurface.Expr
