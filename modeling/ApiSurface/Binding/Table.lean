import ApiSurface.Binding.Basic
import ApiSurface.Expr.Arguments

/-!
# Binding tables

The scopes of one file and the scope of each of its nodes, with the look-ups on them: the binding
of a name, the canonical path of a dotted name, and the object that an expression denotes.
-/

namespace ApiSurface.Binding

open ApiSurface.Syntax (Node)
open ApiSurface.Expr (stripParens stripAwait)

/-- The number of the module scope. -/
def moduleScope : Nat := 0

/-- The scopes of a file. A scope comes after the one it is nested in. -/
structure Table where
  scopes : Array Scope
  /-- The scope of each node, by node number. -/
  nodeScope : Array Nat
deriving Inhabited

namespace Table

/-- The scope that a node belongs to. -/
def scopeOf (t : Table) (n : Node) : Nat := t.nodeScope[n.id]?.getD moduleScope

/-- The node that opened a scope. -/
def scopeNode? (t : Table) (scope : Nat) : Option Node := t.scopes[scope]?.map (·.node)

/-- Whether a look-up that starts in `start` takes bindings of scope `id` into account: class
scopes are seen only from directly inside. -/
def sees (start id : Nat) (s : Scope) : Bool := s.kind != .classBody || id == start

/-- Look a name up in scope `id` and then outwards. -/
def findFrom (t : Table) (name : String) (pos start id : Nat) : Option Bound :=
  match t.scopes[id]? with
  | none => none
  | some s =>
    match if sees start id s then s.find? name pos else none with
    | some b => some b
    | none =>
      match s.parent with
      | some p => if p < id then findFrom t name pos start p else none
      | none => none
termination_by id

/-- The binding of a name that is visible at a position inside a scope. -/
def lookupAt (t : Table) (name : String) (scope pos : Nat) : Option Bound :=
  t.findFrom name pos scope scope

/-- The binding of a name that is visible at a node. -/
def lookup (t : Table) (name : String) (site : Node) : Option Bound :=
  t.lookupAt name (t.scopeOf site) site.startByte

/-! ### Qualified names -/

/-- The identifier at the base of an attribute chain and the attributes in source order. -/
def chain? (n : Node) : Option (Node × List String) :=
  let m := stripParens n
  if m.kind = "attribute" then
    match m.childByField? "attribute", _h : m.childByField? "object" with
    | some attr, some object =>
      (chain? object).map fun (base, attrs) => (base, attrs ++ [attr.text])
    | _, _ => none
  else if m.kind = "identifier" then some (m, [])
  else none
termination_by sizeOf n
decreasing_by
  exact Nat.lt_of_lt_of_le (Node.sizeOf_lt_of_childByField? _h) (Expr.sizeOf_stripParens_le n)

/-- The path that the first name of a chain stands for. Values and parameters have none; a name
that is not bound stands for itself, and so does the name of a type or definition. -/
def headPath? (t : Table) (name : String) (scope pos : Nat) : Option String :=
  match t.lookupAt name scope pos with
  | some (.imported i) => some i.path
  | some (.value _) => none
  | some (.parameter _) => none
  | _ => some name

/-- The canonical path of an identifier or attribute chain, with imports followed. -/
def qualifyAt (t : Table) (n : Node) (scope pos : Nat) : Option String := do
  let (base, attrs) ← chain? n
  let head ← t.headPath? base.text scope pos
  pure (attrs.foldl (fun path attr => path ++ "." ++ attr) head)

/-- The canonical path of a name at its own place. -/
def qualify (t : Table) (n : Node) : Option String := t.qualifyAt n (t.scopeOf n) n.startByte

/-! ### Objects -/

/-- The object that a value binding holds. -/
def instanceOfValue? (v : Value) : Option Instance := do
  let role ← v.role
  let callee ← v.callee
  pure ⟨role, some v.variableName, callee, some v.origin, v.declaredAt, v.isScoped⟩

/-- The object that a parameter is annotated to hold. -/
def instanceOfParameter? (name : String) (p : Parameter) : Option Instance := do
  let role ← p.role
  let path ← p.hintPath
  pure ⟨role, some name, path, none, p.parameter, false⟩

/-- The object with a catalog role that an expression denotes. -/
def resolve? (t : Table) (catalog : Catalog) (n : Node) : Option Instance :=
  let n := stripAwait n
  if n.kind = "identifier" then
    match t.lookup n.text n with
    | some (.value v) => instanceOfValue? v
    | some (.parameter p) => instanceOfParameter? n.text p
    | _ => none
  else if n.kind = "call" then do
    let function ← n.childByField? "function"
    let callee ← t.qualify function
    let role ← catalog.constructorRole? callee
    pure ⟨role, none, callee, some n, n, false⟩
  else none

/-! ### Definitions and values -/

/-- The definition that a name refers to at a node. -/
def definition? (t : Table) (name : String) (site : Node) : Option Definition :=
  match t.lookup name site with
  | some (.definition d) => some d
  | _ => none

/-- The definition recorded for a definition statement. -/
def definitionOf? (t : Table) (statement : Node) : Option Definition := do
  let name ← statement.childByField? "name"
  let scope ← t.scopes[t.scopeOf statement]?
  scope.entries.reverse.findSome? fun e =>
    match e.bound with
    | .definition d =>
      if e.name = name.text ∧ d.node.id = statement.id then some d else none
    | _ => none

/-- The value that an entry binds, when it has a role. -/
def roleValue? (e : Entry) : Option (Nat × Value) :=
  match e.bound with
  | .value v => if v.role.isSome then some (e.visibleFrom, v) else none
  | _ => none

/-- Every value binding with a role, by scope, then by position and name. -/
def roleValues (t : Table) : List Value :=
  t.scopes.toList.flatMap fun s =>
    let found := s.entries.reverse.filterMap roleValue?
    let le (a b : Nat × Value) : Bool :=
      (compare a.1 b.1).then (compare a.2.variableName b.2.variableName) != .gt
    (found.mergeSort le).map (·.2)

end Table

end ApiSurface.Binding
