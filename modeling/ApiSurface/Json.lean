import ApiSurface.Numeral.Number

/-!
# JSON values

Values of the data format with the members of an object in the order in which they are written,
and the two ways to write a value: compactly and indented by two spaces.
-/

namespace ApiSurface

open ApiSurface.Numeral (Number)

/-- A value of the data format. -/
inductive Json where
  | null
  | bool (value : Bool)
  | num (value : Number)
  | str (value : String)
  | arr (items : List Json)
  | obj (members : List (String × Json))
deriving Inhabited

namespace Json

/-- A natural number. -/
def nat (n : Nat) : Json := num (.int n)

/-- Absent values are null. -/
def ofOption {α : Type} (f : α → Json) : Option α → Json
  | some a => f a
  | none => null

/-- A string or null. -/
def optStr : Option String → Json := ofOption str

/-- An array of strings. -/
def strs (l : List String) : Json := arr (l.map str)

/-- A member that is left out when the value is absent. -/
def member? {α : Type} (key : String) (f : α → Json) : Option α → List (String × Json)
  | some a => [(key, f a)]
  | none => []

/-- A member that is left out when the list is empty. -/
def members? {α : Type} (key : String) (f : List α → Json) (l : List α) : List (String × Json) :=
  if l.isEmpty then [] else [(key, f l)]

/-! ### Strings -/

/-- The hexadecimal digit of a number below sixteen. -/
def hexDigit (n : Nat) : Char := if n < 10 then Char.ofNat (48 + n) else Char.ofNat (87 + n)

/-- A character inside a string: quote, backslash and control characters are escaped, everything
else stands for itself. -/
def escapeChar (c : Char) : List Char :=
  if c = '"' then ['\\', '"']
  else if c = '\\' then ['\\', '\\']
  else if c = '\n' then ['\\', 'n']
  else if c = '\r' then ['\\', 'r']
  else if c = '\t' then ['\\', 't']
  else if c.toNat = 8 then ['\\', 'b']
  else if c.toNat = 12 then ['\\', 'f']
  else if c.toNat < 32 then
    ['\\', 'u', '0', '0', hexDigit (c.toNat / 16), hexDigit (c.toNat % 16)]
  else [c]

/-- A string between quotes. -/
def quote (s : String) : String := String.ofList ('"' :: s.toList.flatMap escapeChar ++ ['"'])

/-! ### Writing -/

mutual
/-- Write a value without white space. -/
def compact : Json → String
  | null => "null"
  | bool true => "true"
  | bool false => "false"
  | num n => n.render
  | str s => quote s
  | arr items => "[" ++ ",".intercalate (compactItems items) ++ "]"
  | obj members => "\x7b" ++ ",".intercalate (compactMembers members) ++ "\x7d"

/-- The items of an array, each written without white space. -/
def compactItems : List Json → List String
  | [] => []
  | v :: vs => compact v :: compactItems vs

/-- The members of an object, each written without white space. -/
def compactMembers : List (String × Json) → List String
  | [] => []
  | (k, v) :: ms => (quote k ++ ":" ++ compact v) :: compactMembers ms
end

/-- The start of a line at the given depth. -/
def indentation (depth : Nat) : String := String.ofList (List.replicate (2 * depth) ' ')

/-- Items on lines of their own between two brackets; nothing between them when there are none. -/
def block (opening closing : String) (depth : Nat) (items : List String) : String :=
  if items.isEmpty then opening ++ closing
  else
    let inner := "\n" ++ indentation (depth + 1)
    opening ++ inner ++ ("," ++ inner).intercalate items ++ "\n" ++ indentation depth ++ closing

mutual
/-- Write a value with one item a line, two spaces deeper for each level. -/
def pretty (depth : Nat) : Json → String
  | null => "null"
  | bool true => "true"
  | bool false => "false"
  | num n => n.render
  | str s => quote s
  | arr items => block "[" "]" depth (prettyItems (depth + 1) items)
  | obj members => block "\x7b" "\x7d" depth (prettyMembers (depth + 1) members)

/-- The items of an array at the given depth. -/
def prettyItems (depth : Nat) : List Json → List String
  | [] => []
  | v :: vs => pretty depth v :: prettyItems depth vs

/-- The members of an object at the given depth. -/
def prettyMembers (depth : Nat) : List (String × Json) → List String
  | [] => []
  | (k, v) :: ms => (quote k ++ ": " ++ pretty depth v) :: prettyMembers depth ms
end

/-- Write a value as a text of its own. -/
def render (v : Json) : String := pretty 0 v

end Json

end ApiSurface
