import ApiSurface.TypeHint.Names
import ApiSurface.Facts.Types
import ApiSurface.Source
import ApiSurface.Types.Union

/-!
# Reading annotations

The descriptor of a type annotation. Aliases and annotations between quotes are followed, every
way to allow the absent value gives the same descriptor, and what is nested too deeply or not
recognised is unknown.

One level of reading (`level`) is given the reading of everything below it; `readWithin` puts a
bounded number of levels together.
-/

namespace ApiSurface.TypeHint

open ApiSurface.Syntax (Node)
open ApiSurface.Expr (Arguments stripType)
open ApiSurface.Binding (Bound)
open ApiSurface.Text (compactString)

/-- The place at which names are looked up. -/
structure Anchor where
  scope : Nat
  pos : Nat

/-- The circumstances of a reading. -/
structure Look where
  /-- The targets of the aliases that are being expanded, by node number. -/
  visiting : List Nat
  /-- Where names are looked up, when that is not the place of the node. -/
  anchor : Option Anchor

/-- The circumstances at the start. -/
def Look.initial : Look := ⟨[], none⟩

/-- Where the names of a node are looked up. -/
def anchorOf (s : Source) (look : Look) (n : Node) : Anchor :=
  look.anchor.getD ⟨s.table.scopeOf n, n.startByte⟩

/-- The path of a dotted name, with the import of its first segment followed. -/
def pathOf? (s : Source) (text : String) (a : Anchor) : Option String :=
  match Text.splitFirstString '.' text with
  | some (first, rest) =>
    (s.table.headPath? first a.scope a.pos).map fun base => base ++ "." ++ rest
  | none => s.table.headPath? text a.scope a.pos

/-- The type of an argument that is not given. -/
def missing : Descriptor := .any

/-- What a construct means that is written without arguments. -/
def bareForm : Form → Descriptor
  | .list => .list missing
  | .set => .set missing
  | .dict => .dict missing missing
  | .tuple => .tuple [missing] true
  | .callable => .callable [] true missing
  | .type => .generic "type" [missing]
  | _ => .unknown

/-- What a path means that is written without arguments. -/
def ofPath (path written : String) : TypeInfo :=
  match primitive? path with
  | some name =>
    let info := TypeInfo.of (.primitive name)
    if Text.startsWith path "pydantic." then info.withAlias (Text.afterLastString '.' path)
    else info
  | none =>
    match form? path with
    | some form => .of (bareForm form)
    | none => .of (.reference (Text.afterLastString '.' written))

/-- The values of an argument of a literal type. -/
def literalOf (n : Node) : LiteralValue :=
  let n := stripType n
  (Expr.literalValue? n).getD (.other n.text)

/-- Whether a node is a union that is written with a bar. -/
def isUnion (n : Node) : Bool :=
  (n.kind == "binary_operator" && n.hasToken "|") || n.kind == "union_type"

/-- The operands of a union that is written with bars, from left to right. -/
def unionLeaves (n : Node) : List Node :=
  let m := stripType n
  if isUnion m then m.namedChildren.attach.flatMap fun ⟨c, _h⟩ => unionLeaves c else [m]
termination_by sizeOf n
decreasing_by
  exact Nat.lt_of_lt_of_le (Node.sizeOf_lt_of_mem_namedChildren _h) (Expr.sizeOf_stripType_le n)

/-! ### One level -/

section Level

/-- How everything below the level is read. -/
abbrev Below := Look → Node → TypeInfo

/-- The callees of type variables. -/
def isTypeVariable (v : Binding.Value) : Bool :=
  match v.callee with
  | some c => Text.endsWith c "TypeVar" || Text.endsWith c "ParamSpec"
  | none => false

/-- The type that an alias stands for, under the name of the alias. -/
def ofAlias (below : Below) (look : Look) (name : String) (a : Binding.TypeAlias) : TypeInfo :=
  if look.visiting.contains a.target.id then TypeInfo.unknown.withAlias name
  else { below ⟨a.target.id :: look.visiting, none⟩ a.target with aliasName := some name }

/-- The type that a name stands for. -/
def ofName (s : Source) (below : Below) (look : Look) (n : Node) : TypeInfo :=
  let text := compactString n.text
  let a := anchorOf s look n
  let viaPath : TypeInfo :=
    match pathOf? s text a with
    | some path => ofPath path text
    | none => .unknown
  if Text.hasDot text then viaPath
  else match s.table.lookupAt text a.scope a.pos with
    | some (.typeAlias aliasName) => ofAlias below look text aliasName
    | some (.value v) => if isTypeVariable v then .of (.reference text) else .unknown
    | some (.parameter _) => .unknown
    | _ => viaPath

/-- The expression between the quotes of an annotation. -/
def quotedExpr? (tree : Syntax.Tree) : Option Node := tree.root.firstNamed?.bind Node.firstNamed?

/-- The type between quotes. Its names are looked up where the quotes stand. -/
def ofQuoted (s : Source) (below : Below) (look : Look) (n : Node) : TypeInfo :=
  match Expr.stringLiteral? n with
  | none => .unknown
  | some text =>
    let inner := Text.trimString text
    let tree := s.parse inner
    match quotedExpr? tree with
    | none => .unknown
    | some expr =>
      if tree.hasErrors then TypeInfo.unknown.withAlias inner
      else below { look with anchor := some (anchorOf s look n) } expr

/-- The head and the arguments of a subscript in either of its two forms. -/
def subscriptParts (n : Node) : Option Node × List Node :=
  if n.kind = "subscript" then (n.childByField? "value", n.childrenByField "subscript")
  else
    match n.namedChildren with
    | [] => (none, [])
    | base :: rest =>
      (some base, match rest.find? fun c => c.kind == "type_parameter" with
        | some parameters => parameters.namedChildren
        | none => [])

/-- The type of the argument at a position. -/
def argument (below : Below) (look : Look) (args : List Node) (i : Nat) : Descriptor :=
  match args[i]? with
  | some a => (below look a).descriptor
  | none => missing

/-- The types of several arguments. -/
def descriptors (below : Below) (look : Look) (args : List Node) : List Descriptor :=
  args.map fun a => (below look a).descriptor

/-- A tuple type. Two arguments with `...` second make a tuple of any length, and an empty tuple
as the only argument makes an empty one. -/
def ofTuple (below : Below) (look : Look) (args : List Node) : Descriptor :=
  match args with
  | [first, second] =>
    if (stripType second).kind = "ellipsis" then .tuple (descriptors below look [first]) true
    else .tuple (descriptors below look args) false
  | [only] =>
    if (stripType only).kind = "tuple" then .tuple [] false
    else .tuple (descriptors below look args) false
  | _ => .tuple (descriptors below look args) false

/-- A callable type. -/
def ofCallable (below : Below) (look : Look) (args : List Node) : Descriptor :=
  let returns := argument below look args 1
  match args.head?.map stripType with
  | some p =>
    if p.kind = "list" then .callable (descriptors below look p.namedChildren) false returns
    else .callable [] true returns
  | none => .callable [] true returns

/-- The name under which a collection was written, unless it is the plain one. -/
def collectionHint (last : String) : Option String :=
  if ["List", "list", "Dict", "dict", "Set", "set"].contains last then none else some last

/-- A construct applied to arguments. -/
def ofForm (below : Below) (look : Look) (form : Form) (last : String) (args : List Node) :
    TypeInfo :=
  let arg := argument below look args
  let around (note : TypeInfo → TypeInfo) : TypeInfo :=
    match args.head? with
    | some first => note (below look first)
    | none => .unknown
  match form with
  | .list => ⟨.list (arg 0), collectionHint last, []⟩
  | .set => ⟨.set (arg 0), collectionHint last, []⟩
  | .dict => ⟨.dict (arg 0) (arg 1), collectionHint last, []⟩
  | .tuple => .of (ofTuple below look args)
  | .optional => .of (.unionOf [arg 0, .none])
  | .union => .of (.unionOf (descriptors below look args))
  | .literal => .of (.literal (args.map literalOf))
  | .callable => .of (ofCallable below look args)
  | .type => .of (.generic "type" [arg 0])
  | .annotated =>
    around fun info => { info with metadata := info.metadata ++ args.tail.map Node.text }
  | .qualifier name => around fun info => { info with metadata := name :: info.metadata }

/-- The type of a subscript. -/
def ofSubscript (s : Source) (below : Below) (look : Look) (n : Node) : TypeInfo :=
  match subscriptParts n with
  | (none, _) => .unknown
  | (some base, args) =>
    let written := compactString base.text
    match pathOf? s written (anchorOf s look base) with
    | none => .unknown
    | some path =>
      let last := Text.afterLastString '.' written
      match form? path with
      | some form => ofForm below look form last args
      | none => .of (.generic last (descriptors below look args))

/-- The type of a union that is written with bars. -/
def ofUnion (below : Below) (look : Look) (n : Node) : TypeInfo :=
  .of (.unionOf (descriptors below look (unionLeaves n)))

/-- The type of the items of a constrained collection. -/
def itemType (below : Below) (look : Look) (call : Node) : Descriptor :=
  match (Arguments.ofCall call).get? 0 "item_type" with
  | some a => (below look a).descriptor
  | none => missing

/-- The type that a call of the given kind describes. -/
def ofConstrained (below : Below) (look : Look) (call : Node) : ConstrainedKind → Descriptor
  | .scalar name => .primitive name
  | .list => .list (itemType below look call)
  | .set => .set (itemType below look call)

/-- The type that a call describes, under the name of the callee. -/
def ofCall (s : Source) (below : Below) (look : Look) (n : Node) : TypeInfo :=
  match n.childByField? "function" with
  | none => .unknown
  | some function =>
    let written := compactString function.text
    match (pathOf? s written (anchorOf s look function)).bind constrainedType? with
    | none => .unknown
    | some kind => ⟨ofConstrained below look n kind, some written, []⟩

/-- One level of reading. -/
def level (s : Source) (below : Below) (look : Look) (n : Node) : TypeInfo :=
  let m := stripType n
  match m.kind with
  | "none" => .of .none
  | "identifier" | "attribute" | "member_type" => ofName s below look m
  | "string" | "concatenated_string" => ofQuoted s below look m
  | "subscript" | "generic_type" => ofSubscript s below look m
  | "binary_operator" => if m.hasToken "|" then ofUnion below look m else .unknown
  | "union_type" => ofUnion below look m
  | "call" => ofCall s below look m
  | _ => .unknown

end Level

/-! ### All levels -/

/-- The number of levels after which a reading gives up. -/
def maxDepth : Nat := 64

/-- Read at most the given number of levels. -/
def readWithin (s : Source) : Nat → Look → Node → TypeInfo
  | 0, _, _ => .unknown
  | depth + 1, look, n => level s (readWithin s depth) look n

/-- Read an annotation. -/
def normalize (s : Source) (n : Node) : TypeInfo := readWithin s maxDepth .initial n

/-! ### Constraints -/

/-- The number of nodes that are searched for a call inside an annotation. -/
def searchLimit : Nat := 256

/-- The constraints that a call inside an annotation spells out. -/
def callConstraints? (s : Source) (n : Node) : Option Constraints := do
  let function ← if n.kind = "call" then n.childByField? "function" else none
  let path ← s.table.qualify function
  if (constrainedType? path).isSome || Catalog.isFieldFactory path then
    some (Expr.constraintsOf (Arguments.ofCall n))
  else none

/-- The constraints of the first call in an annotation that describes some. -/
def constraintsIn (s : Source) (n : Node) : Constraints :=
  ((n.descendants.take searchLimit).findSome? (callConstraints? s)).getD .empty

end ApiSurface.TypeHint
