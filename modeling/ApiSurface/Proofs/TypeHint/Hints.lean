import ApiSurface.Proofs.TypeHint.Below

/-!
# Hints

The grammar has two forms for most parts of an annotation: a subscript or a generic type, a binary
operator or a union, a dotted name as an attribute or as a member of a type. It also puts wrappers
and parentheses around arguments and operands. A hint (`Hint`) is what is left without all that: an
annotation whose names stand for what they are resolved to. It has a meaning of its own, level by
level (`Hint.typeWithin`).

A node of any file may encode a hint (`Encodes`), whichever form it takes at each place. Names,
aliases and quoted annotations in it are resolved where they stand.
-/

namespace ApiSurface.TypeHint

open ApiSurface.Syntax (Node)
open ApiSurface.Expr (Arguments stripType)
open ApiSurface.Text (compactString)

/-! ### Hints -/

/-- An annotation without the forms of the grammar, with its names resolved. -/
inductive Hint where
  | absent
  /-- A plain or a dotted name, with the path that it stands for. -/
  | name (written : String) (path : Option String)
  | typeVariable (written : String)
  /-- A name that is bound to no type. -/
  | value (written : String)
  | aliased (written : String) (target : Hint)
  /-- The name of an alias that is being expanded already. -/
  | recurring (written : String)
  | literal (v : LiteralValue)
  /-- An annotation between quotes. -/
  | quoted (text : String) (content : Hint)
  /-- A string that holds no annotation, or that has no text of its own. -/
  | unreadable (text : Option String)
  /-- A construct or a class with its arguments, each under its source text. -/
  | subscript (written : String) (path : Option String) (args : List (String × Hint))
  | bar (left right : Hint)
  /-- A call, with the argument for the type of the items, which is the only one that is read. -/
  | call (written : String) (path : Option String) (item : Option Hint)
  | list (items : List Hint)
  | tuple
  | ellipsis
  /-- An expression that is no annotation. -/
  | other

/-- What the constructs tell apart among their arguments. -/
inductive Shape where
  | list | tuple | ellipsis | plain
deriving DecidableEq, Repr

def shapeOf (kind : String) : Shape :=
  if kind = "list" then .list
  else if kind = "tuple" then .tuple
  else if kind = "ellipsis" then .ellipsis
  else .plain

namespace Hint

def shape : Hint → Shape
  | list _ => .list
  | tuple => .tuple
  | ellipsis => .ellipsis
  | _ => .plain

/-- The items of a list display. -/
def items : Hint → List Hint
  | list items => items
  | _ => []

/-- The literal value of a hint that has one. Names have none: they count with their text. -/
def literal? : Hint → Option LiteralValue
  | absent => some .null
  | literal v => some v
  | quoted text _ => some (.str text)
  | unreadable text => text.map .str
  | _ => none

/-- The operands of a union that is written with bars, from left to right. -/
def operands : Hint → List Hint
  | bar left right => left.operands ++ right.operands
  | h => [h]

/-! ### What a hint means -/

section Meaning

variable (below : Hint → Descriptor) (args : List (String × Hint))

/-- The type of the argument at a position. -/
def argument (i : Nat) : Descriptor :=
  match args[i]? with
  | some a => below a.2
  | none => missing

def arguments : List Descriptor := args.map fun a => below a.2

def tupleType : Descriptor :=
  match args with
  | [first, second] =>
    if second.2.shape = .ellipsis then .tuple [below first.2] true
    else .tuple (arguments below args) false
  | [only] => if only.2.shape = .tuple then .tuple [] false else .tuple (arguments below args) false
  | _ => .tuple (arguments below args) false

def callableType : Descriptor :=
  let returns := argument below args 1
  match args.head? with
  | some p =>
    if p.2.shape = .list then .callable (p.2.items.map below) false returns
    else .callable [] true returns
  | none => .callable [] true returns

/-- A construct applied to arguments. -/
def formType : Form → Descriptor
  | .list => .list (argument below args 0)
  | .set => .set (argument below args 0)
  | .dict => .dict (argument below args 0) (argument below args 1)
  | .tuple => tupleType below args
  | .optional => .unionOf [argument below args 0, .none]
  | .union => .unionOf (arguments below args)
  | .literal => .literal (args.map fun a => a.2.literal?.getD (.other a.1))
  | .callable => callableType below args
  | .type => .generic "type" [argument below args 0]
  | .annotated | .qualifier _ =>
    match args.head? with
    | some first => below first.2
    | none => .unknown

/-- A path with arguments. -/
def subscriptType (written path : String) : Descriptor :=
  match form? path with
  | some form => formType below args form
  | none => .generic (Text.afterLastString '.' written) (arguments below args)

/-- A call that describes a constrained type. -/
def callType (item : Option Hint) : ConstrainedKind → Descriptor
  | .scalar primitive => .primitive primitive
  | .list => .list (item.elim missing below)
  | .set => .set (item.elim missing below)

/-- One level of the meaning of a hint. -/
def level : Hint → Descriptor
  | absent => .none
  | name written path => path.elim .unknown fun path => (ofPath path written).descriptor
  | typeVariable written => .reference written
  | aliased _ target => below target
  | quoted _ content => below content
  | subscript written path args => path.elim .unknown (subscriptType below args written)
  | h@(bar ..) => .unionOf (h.operands.map below)
  | call _ path item => (path.bind constrainedType?).elim .unknown (callType below item)
  | value _ | recurring _ | literal _ | unreadable _ | list _ | tuple | ellipsis | other => .unknown

end Meaning

/-- The type of a hint that is read in at most the given number of levels. -/
def typeWithin : Nat → Hint → Descriptor
  | 0, _ => .unknown
  | depth + 1, h => level (typeWithin depth) h

end Hint

/-! ### Encodings -/

/-- What a name stands for. -/
inductive Meaning where
  | path (path : Option String)
  | aliased (a : Binding.TypeAlias)
  | typeVariable
  | value

/-- What a name in an annotation is resolved to. -/
def meaningOf (s : Source) (look : Look) (n : Node) : Meaning :=
  let text := compactString n.text
  let a := anchorOf s look n
  if Text.hasDot text then .path (pathOf? s text a)
  else match s.table.lookupAt text a.scope a.pos with
    | some (.typeAlias target) => .aliased target
    | some (.value v) => if isTypeVariable v then .typeVariable else .value
    | some (.parameter _) => .value
    | _ => .path (pathOf? s text a)

/-- The two forms of a head with arguments. -/
inductive IsSubscript (n base : Node) (args : List Node) : Prop
  | subscript (hk : n.kind = "subscript") (hbase : n.childByField? "value" = some base)
    (hargs : n.childrenByField "subscript" = args)
  | generic {parameters : Node} (hk : n.kind = "generic_type")
    (hchildren : n.namedChildren = [base, parameters]) (hp : parameters.kind = "type_parameter")
    (hargs : parameters.namedChildren = args)

/-- The kinds of literals other than `None` and strings. -/
def literalKinds : List String := ["true", "false", "integer", "float", "unary_operator"]

/-- The kinds that the constructs tell apart. -/
def shapedKinds : List String := ["list", "tuple", "ellipsis"]

/-- The kinds of what stands around an annotation. -/
def wrapperKinds : List String := ["type", "parenthesized_expression"]

/-- The kinds that are read, a bar apart. -/
def readKinds : List String :=
  "none" :: "call" :: "union_type" :: nameKinds ++ stringKinds ++ subscriptKinds

/-- The kinds of all hints, a bar apart. -/
def knownKinds : List String := readKinds ++ literalKinds ++ shapedKinds ++ wrapperKinds

/-- The node encodes the hint. When `kept` holds, the arguments of `Literal` that are no literals
have the text that the hint gives them. -/
inductive Encodes (kept : Prop) (s : Source) : Look → Node → Hint → Prop
  /-- The wrapper around annotations. -/
  | typed {look : Look} {n c : Node} {h : Hint} (hk : n.kind = "type")
    (hinner : n.firstNamed? = some c) (hc : Encodes kept s look c h) : Encodes kept s look n h
  /-- Parentheses. They stand inside all wrappers. -/
  | parens {look : Look} {n c : Node} {h : Hint} (hk : n.kind = "parenthesized_expression")
    (hinner : n.firstNamed? = some c) (hne : c.kind ≠ "type") (hc : Encodes kept s look c h) :
    Encodes kept s look n h
  | absent {look : Look} {n : Node} (hk : n.kind = "none") : Encodes kept s look n .absent
  | name {look : Look} {n : Node} {written : String} {path : Option String}
    (hk : n.kind ∈ nameKinds) (hwritten : compactString n.text = written)
    (hmeaning : meaningOf s look n = .path path) : Encodes kept s look n (.name written path)
  | typeVariable {look : Look} {n : Node} {written : String} (hk : n.kind ∈ nameKinds)
    (hwritten : compactString n.text = written) (hmeaning : meaningOf s look n = .typeVariable) :
    Encodes kept s look n (.typeVariable written)
  | value {look : Look} {n : Node} {written : String} (hk : n.kind ∈ nameKinds)
    (hwritten : compactString n.text = written) (hmeaning : meaningOf s look n = .value) :
    Encodes kept s look n (.value written)
  | aliased {look : Look} {n : Node} {written : String} {a : Binding.TypeAlias} {target : Hint}
    (hk : n.kind ∈ nameKinds) (hwritten : compactString n.text = written)
    (hmeaning : meaningOf s look n = .aliased a) (hnew : a.target.id ∉ look.visiting)
    (htarget : Encodes kept s ⟨a.target.id :: look.visiting, none⟩ a.target target) :
    Encodes kept s look n (.aliased written target)
  | recurring {look : Look} {n : Node} {written : String} {a : Binding.TypeAlias}
    (hk : n.kind ∈ nameKinds) (hwritten : compactString n.text = written)
    (hmeaning : meaningOf s look n = .aliased a) (hvisiting : a.target.id ∈ look.visiting) :
    Encodes kept s look n (.recurring written)
  | literal {look : Look} {n : Node} {v : LiteralValue} (hk : n.kind ∈ literalKinds)
    (hvalue : Expr.literalValue? n = some v) : Encodes kept s look n (.literal v)
  | quoted {look : Look} {n expr : Node} {text : String} {content : Hint}
    (hk : n.kind ∈ stringKinds) (htext : Expr.stringLiteral? n = some text)
    (hexpr : quotedExpr? (s.parse (Text.trimString text)) = some expr)
    (hread : (s.parse (Text.trimString text)).hasErrors = false)
    (hcontent : Encodes kept s { look with anchor := some (anchorOf s look n) } expr content) :
    Encodes kept s look n (.quoted text content)
  | unreadable {look : Look} {n : Node} {text : Option String} (hk : n.kind ∈ stringKinds)
    (htext : Expr.stringLiteral? n = text)
    (hunread : ∀ t ∈ text, quotedExpr? (s.parse (Text.trimString t)) = none ∨
      (s.parse (Text.trimString t)).hasErrors = true) : Encodes kept s look n (.unreadable text)
  | subscript {look : Look} {n base : Node} {written : String} {path : Option String}
    (parts : List (Node × String × Hint)) (hform : IsSubscript n base (parts.map Prod.fst))
    (hwritten : compactString base.text = written)
    (hpath : pathOf? s written (anchorOf s look base) = path)
    (hparts : ∀ p ∈ parts, Encodes kept s look p.1 p.2.2)
    (htext : kept → path.bind form? = some .literal →
      ∀ p ∈ parts, p.2.2.literal? = none → (stripType p.1).text = p.2.1) :
    Encodes kept s look n (.subscript written path (parts.map Prod.snd))
  | bar {look : Look} {n l r : Node} {left right : Hint} (hunion : isUnion n = true)
    (hoperands : n.namedChildren = [l, r]) (hl : Encodes kept s look l left)
    (hr : Encodes kept s look r right) : Encodes kept s look n (.bar left right)
  | call {look : Look} {n function : Node} {written : String} {path : Option String}
    (item : Option (Node × Hint)) (hk : n.kind = "call")
    (hfunction : n.childByField? "function" = some function)
    (hwritten : compactString function.text = written)
    (hpath : pathOf? s written (anchorOf s look function) = path)
    (hitem : (Arguments.ofCall n).get? 0 "item_type" = item.map Prod.fst)
    (hparts : ∀ p ∈ item, Encodes kept s look p.1 p.2) :
    Encodes kept s look n (.call written path (item.map Prod.snd))
  | list {look : Look} {n : Node} (parts : List (Node × Hint)) (hk : n.kind = "list")
    (hitems : n.namedChildren = parts.map Prod.fst)
    (hparts : ∀ p ∈ parts, Encodes kept s look p.1 p.2) :
    Encodes kept s look n (.list (parts.map Prod.snd))
  | tuple {look : Look} {n : Node} (hk : n.kind = "tuple") : Encodes kept s look n .tuple
  | ellipsis {look : Look} {n : Node} (hk : n.kind = "ellipsis") : Encodes kept s look n .ellipsis
  | other {look : Look} {n : Node} (hk : n.kind ∉ knownKinds) (hunion : isUnion n = false) :
    Encodes kept s look n .other

end ApiSurface.TypeHint
