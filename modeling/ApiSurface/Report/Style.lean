/-!
# Terminal styles

Text for a terminal that may show colours. A style is a list of display attributes; without
colours every style leaves the text as it is.
-/

namespace ApiSurface.Report

/-- A display attribute. -/
inductive Attribute where
  | bold | dimmed | red | green | yellow | blue | cyan
deriving DecidableEq, Repr

/-- The number that selects the attribute. -/
def Attribute.code : Attribute → Nat
  | .bold => 1
  | .dimmed => 2
  | .red => 31
  | .green => 32
  | .yellow => 33
  | .blue => 34
  | .cyan => 36

/-- Whether the terminal shows colours. -/
inductive Terminal where
  | plain | coloured
deriving DecidableEq, Repr

/-- The control sequence with the given parameters. -/
def control (parameters : List Nat) : List Char :=
  '\x1b' :: '[' :: ((";".intercalate (parameters.map toString)).toList ++ ['m'])

/-- The control sequence that ends every style. -/
def reset : List Char := control [0]

/-- The control sequence of a style. Attributes other than colours have the lower numbers and
stand first. -/
def start (style : List Attribute) : List Char := control (style.map Attribute.code)

/-- Begin the style again behind every reset inside the text. -/
def resume (style : List Attribute) : List Char → List Char
  | '\x1b' :: '[' :: '0' :: 'm' :: r => reset ++ start style ++ resume style r
  | c :: r => c :: resume style r
  | [] => []

/-- Text in a style. -/
def paint (t : Terminal) (style : List Attribute) (text : String) : String :=
  match t with
  | .plain => text
  | .coloured => String.ofList (start style ++ resume style text.toList ++ reset)

end ApiSurface.Report
