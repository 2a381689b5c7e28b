import ApiSurface.Doc.Field
import ApiSurface.Expr.Template
import ApiSurface.KeyedList

/-!
# Docstrings

The summary, the description, the parameters and the result that a docstring documents. The three
usual styles can be mixed; what belongs to no section is description.
-/

namespace ApiSurface.Doc

open ApiSurface.Syntax (Node)
open ApiSurface.Text (allBlank trim)

/-- What a docstring says. -/
structure Docstring where
  summary : Option String
  description : Option String
  /-- Documented parameters in the order of their names. -/
  params : List (String × String)
  returns : Option String
deriving DecidableEq, Repr, Inhabited

/-- A docstring that says nothing. -/
def Docstring.empty : Docstring := ⟨none, none, [], none⟩

/-- How the lines of a section are laid out. -/
inductive Style where
  /-- Entries with a colon behind the name. -/
  | colon
  /-- Entries under an underlined title, with the text on the lines below the name. -/
  | underlined
deriving DecidableEq, Repr, Inhabited

/-- The section that a line lies in. -/
structure Section where
  topic : Topic
  style : Style
  indent : Nat
deriving DecidableEq, Repr, Inhabited

/-- What is collected while lines are read. -/
structure Progress where
  description : List Line
  params : List (String × Line)
  returns : Line
  current : Option Section
  /-- The parameter that a deeper line continues, with the indentation of its entry. -/
  entry : Option (String × Nat)
deriving DecidableEq, Repr, Inhabited

namespace Progress

/-- Nothing is read yet. -/
def start : Progress := ⟨[], [], [], none, none⟩

/-- Text with more text behind it, a space between them. -/
def extend (text more : Line) : Line :=
  match trim more with
  | [] => text
  | m => if text.isEmpty then m else text ++ ' ' :: m

/-- A section begins. -/
def enter (p : Progress) (s : Section) : Progress := { p with current := some s, entry := none }

/-- A parameter begins. -/
def beginParam (p : Progress) (name text : Line) (indent : Nat) : Progress :=
  let key := String.ofList name
  { p with params := KeyedList.insert key text p.params, entry := some (key, indent) }

/-- The text of a parameter goes on. -/
def continueParam (p : Progress) (name : String) (more : Line) : Progress :=
  { p with params := KeyedList.modify name (extend · more) p.params }

/-- The text of the result goes on. -/
def addReturns (p : Progress) (more : Line) : Progress :=
  { p with returns := extend p.returns more }

/-- The parameter that a line with the indentation continues. -/
def continued? (p : Progress) (indent : Nat) : Option String :=
  match p.entry with
  | some (name, base) => if base < indent then some name else none
  | none => none

/-- The parameter that a line of a section begins, with its text. -/
def paramEntry? (s : Section) (indent : Nat) (trimmed : Line) : Option (Line × Line) :=
  match s.style with
  | .colon => colonParam? trimmed
  | .underlined =>
    if indent ≤ s.indent then (underlinedParam? trimmed).map fun name => (name, []) else none

/-- A line that has no meaning by itself. -/
def addPlain (p : Progress) (line trimmed : Line) (indent : Nat) : Progress :=
  match p.current with
  | none => { p with description := p.description ++ [line] }
  | some s =>
    if trimmed.isEmpty then p
    else match s.topic with
      | .params =>
        match p.continued? indent with
        | some name => p.continueParam name trimmed
        | none =>
          match paramEntry? s indent trimmed with
          | some (name, text) => p.beginParam name text indent
          | none => p
      | .returns => p.addReturns trimmed
      | .other =>
        match p.continued? indent with
        | some name => p.continueParam name trimmed
        | none => p

/-- One line that is not an underlined title. -/
def addLine (p : Progress) (line : Line) : Progress :=
  let trimmed := trim line
  let indent := indentOf line
  match headerTitle? trimmed with
  | some title => p.enter ⟨topicOf title, .colon, indent⟩
  | none =>
    match fieldParam? trimmed with
    | some (name, text) => (p.enter ⟨.other, .colon, indent⟩).beginParam name text indent
    | none =>
      match fieldReturns? trimmed with
      | some text => (p.addReturns text).enter ⟨.returns, .colon, indent⟩
      | none =>
        if isField trimmed then p.enter ⟨.other, .colon, indent⟩ else p.addPlain line trimmed indent

/-- Whether a line is a title that the next line underlines. -/
def isTitle (line next : Line) : Bool :=
  let trimmed := trim line
  (headerTitle? trimmed).isNone && !trimmed.isEmpty && isRule (trim next)

/-- Read lines to the end. -/
def readLines (p : Progress) : List Line → Progress
  | [] => p
  | [line] => p.addLine line
  | line :: next :: rest =>
    if isTitle line next then
      (p.enter ⟨topicOf (trim line), .underlined, indentOf line⟩).readLines rest
    else (p.addLine line).readLines (next :: rest)

/-- What was collected. -/
def finish (p : Progress) (summary : Line) : Docstring :=
  let description := trim (Text.join ['\n'] p.description)
  let present (l : Line) : Option String := if l.isEmpty then none else some (String.ofList l)
  ⟨some (String.ofList summary), present description,
    p.params.map fun (name, text) => (name, String.ofList text), present p.returns⟩

end Progress

/-- Read a cleaned docstring. The first line that is not blank is the summary. -/
def parse (text : List Char) : Docstring :=
  match (Text.lines text).dropWhile allBlank with
  | [] => .empty
  | first :: rest => (Progress.start.readLines rest).finish (trim first)

/-- The docstring of a function or class body: a string statement at its start. -/
def docstringOf? (body : Node) : Option String := do
  let first ← body.firstNamed?
  if first.kind = "expression_statement" then
    let expr ← first.firstNamed?
    if expr.kind = "string" ∨ expr.kind = "concatenated_string" then
      (Expr.stringLiteral? expr).map fun raw => String.ofList (clean raw.toList)
    else none
  else none

/-- Read the docstring of a body. -/
def read (body : Option Node) : Docstring :=
  match body.bind docstringOf? with
  | some text => parse text.toList
  | none => .empty

end ApiSurface.Doc
