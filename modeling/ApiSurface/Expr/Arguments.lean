import ApiSurface.Expr.Scalar
import ApiSurface.Facts.Constraints
import ApiSurface.Text.Blank
import ApiSurface.Text.Split

/-!
# Call arguments and displays

The arguments of a call by position and by keyword, the entries of a dictionary display, the
constraints that keyword arguments spell out, and the summary of a default value.
-/

namespace ApiSurface.Expr

open ApiSurface.Syntax (Node)

/-- The arguments of a call. -/
structure Arguments where
  positional : List Node
  keywords : List (String × Node)
  /-- Whether an iterable or a mapping is unpacked among them. -/
  hasSplat : Bool

namespace Arguments

/-- No arguments. -/
def empty : Arguments := ⟨[], [], false⟩

/-- One more argument at the end. -/
def add (args : Arguments) (n : Node) : Arguments :=
  match n.kind with
  | "keyword_argument" =>
    match n.childByField? "name", n.childByField? "value" with
    | some name, some value => { args with keywords := args.keywords ++ [(name.text, value)] }
    | _, _ => args
  | "list_splat" | "dictionary_splat" => { args with hasSplat := true }
  | _ => { args with positional := args.positional ++ [n] }

/-- The arguments of an argument list. Anything else is one positional argument, as a generator
without parentheses of its own. -/
def ofList (list : Node) : Arguments :=
  if list.kind = "argument_list" then list.namedChildren.foldl add empty
  else { empty with positional := [list] }

/-- The arguments of a call. -/
def ofCall (call : Node) : Arguments :=
  match call.childByField? "arguments" with
  | some list => ofList list
  | none => empty

/-- The value of the first argument with the keyword. -/
def keyword? (args : Arguments) (name : String) : Option Node :=
  (args.keywords.find? fun k => k.1 == name).map (·.2)

/-- The argument at a position. -/
def position? (args : Arguments) (i : Nat) : Option Node := args.positional[i]?

/-- The argument with the keyword, else the one at the position. -/
def get? (args : Arguments) (i : Nat) (name : String) : Option Node :=
  args.keyword? name <|> args.position? i

/-- Whether there is no argument at all. -/
def isEmpty (args : Arguments) : Bool :=
  args.positional.isEmpty && args.keywords.isEmpty && !args.hasSplat

end Arguments

/-! ### Dictionaries -/

/-- The literal key of a dictionary entry, as text. -/
def literalKey? (key : Node) : Option String :=
  stringLiteral? key <|> (intValue? key).map toString

/-- The entries of a dictionary display that have literal keys. -/
def dictEntries (n : Node) : List (String × Node) :=
  let n := stripParens n
  if n.kind = "dictionary" then
    (n.namedChildren.filter fun c => c.kind == "pair").filterMap fun pair => do
      let key ← pair.childByField? "key"
      let value ← pair.childByField? "value"
      let key ← literalKey? key
      pure (key, value)
  else []

/-- The literal keys of a dictionary display, or the keywords of a call of `dict`. -/
def dictKeys (n : Node) : List String :=
  let n := stripParens n
  match n.kind with
  | "dictionary" =>
    (n.namedChildren.filter fun c => c.kind == "pair").filterMap fun pair =>
      (pair.childByField? "key").bind literalKey?
  | "call" =>
    match n.childByField? "function" with
    | some f => if f.text = "dict" then (Arguments.ofCall n).keywords.map (·.1) else []
    | none => []
  | _ => []

/-! ### Summaries -/

/-- The greatest number of characters in a summary. -/
def summaryLimit : Nat := 80

/-- One line of text, cut off with three dots when it is too long. -/
def oneLine (text : String) : String :=
  let collapsed := Text.join [' '] (Text.words text.toList)
  if collapsed.length ≤ summaryLimit then String.ofList collapsed
  else String.ofList (collapsed.take (summaryLimit - 3) ++ ['.', '.', '.'])

/-- The summary of a value whose source is not worth showing. -/
def hiddenSummary : String := "<expr>"

/-- A short description of a default value. -/
def summary (n : Node) : String :=
  let n := stripParens n
  match n.kind with
  | "list" | "dictionary" | "tuple" | "set" =>
    if n.firstNamed?.isNone then "empty" else oneLine n.text
  | "call" =>
    let callee := match n.childByField? "function" with
      | some f => f.text
      | none => ""
    if (Arguments.ofCall n).isEmpty && ["list", "dict", "set", "tuple", "frozenset"].contains callee
    then "empty" else hiddenSummary
  | "string" | "concatenated_string" | "integer" | "float" | "true" | "false" | "none"
  | "identifier" | "attribute" | "unary_operator" => oneLine n.text
  | _ => hiddenSummary

/-! ### Constraints -/

/-- A length that a keyword gives. -/
def lengthValue? (n : Node) : Option Nat :=
  (intValue? n).bind fun i => if 0 ≤ i then some i.toNat else none

/-- The constraints with what one keyword argument says; a keyword that is repeated counts as it
is written last. -/
def addConstraint (c : Constraints) (arg : String × Node) : Constraints :=
  match arg.1 with
  | "gt" => { c with gt := numberValue? arg.2 }
  | "ge" => { c with ge := numberValue? arg.2 }
  | "lt" => { c with lt := numberValue? arg.2 }
  | "le" => { c with le := numberValue? arg.2 }
  | "multiple_of" => { c with multipleOf := numberValue? arg.2 }
  | "min_length" | "min_items" => { c with minLength := lengthValue? arg.2 }
  | "max_length" | "max_items" => { c with maxLength := lengthValue? arg.2 }
  | "pattern" | "regex" => { c with pattern := stringLiteral? arg.2 }
  | _ => c

/-- The constraints that the keyword arguments of a call spell out. -/
def constraintsOf (args : Arguments) : Constraints := args.keywords.foldl addConstraint .empty

end ApiSurface.Expr
