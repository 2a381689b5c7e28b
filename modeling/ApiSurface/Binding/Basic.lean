import ApiSurface.Catalog.Extended
import ApiSurface.Syntax.Tree

/-!
# Bindings

What a name can be bound to, and the scopes that hold bindings. A binding is visible from a
position on and, when a `with` statement introduces it, up to the end of that statement.
-/

namespace ApiSurface.Binding

open ApiSurface.Syntax (Node)
open ApiSurface.Catalog (Role)

/-- What opens a scope. -/
inductive ScopeKind where
  | module | function | classBody
deriving DecidableEq, Repr, Inhabited

/-- A module, or a name of a module. -/
structure Import where
  module : String
  name : Option String
deriving DecidableEq, Repr, Inhabited

/-- The dotted path that an imported name stands for. Dots at the end of a relative module take
the place of the separating dot. -/
def Import.path (i : Import) : String :=
  match i.name with
  | none => i.module
  | some name => if Text.endsWith i.module "." then i.module ++ name else i.module ++ "." ++ name

/-- A variable that holds the value of an expression. -/
structure Value where
  variableName : String
  /-- The qualified callee, when the value comes from a call. -/
  callee : Option String
  role : Option Role
  /-- The expression; for a constructed object the constructing call. -/
  origin : Node
  /-- The statement or `with` item that introduces the variable. -/
  declaredAt : Node
  /-- Whether a `with` statement introduces it. -/
  isScoped : Bool
deriving Inhabited

/-- A parameter of a function. -/
structure Parameter where
  function : Node
  parameter : Node
  hint : Option Node
  hintPath : Option String
  role : Option Role
deriving Inhabited

/-- Another name for a type. -/
structure TypeAlias where
  target : Node
  /-- Whether it is a type of its own. -/
  newType : Bool
deriving Inhabited

/-- What a definition statement defines. -/
inductive DefinitionKind where
  | function | classType
deriving DecidableEq, Repr, Inhabited

/-- A function or a class. -/
structure Definition where
  kind : DefinitionKind
  node : Node
  /-- The decorators that go through a route group or a tool server, in source order. -/
  registrations : List Node
deriving Inhabited

/-- What a name is bound to. -/
inductive Bound where
  | imported (i : Import)
  | value (v : Value)
  | parameter (p : Parameter)
  | typeAlias (a : TypeAlias)
  | definition (d : Definition)
deriving Inhabited

/-- A binding of a name with the stretch of the source in which it is visible. -/
structure Entry where
  name : String
  visibleFrom : Nat
  visibleUntil : Option Nat
  bound : Bound
deriving Inhabited

/-- Whether the binding is visible at a position. -/
def Entry.visibleAt (e : Entry) (pos : Nat) : Bool :=
  e.visibleFrom ≤ pos && (match e.visibleUntil with
    | some last => pos < last
    | none => true)

/-- A scope with its bindings, the last recorded one first. -/
structure Scope where
  kind : ScopeKind
  parent : Option Nat
  node : Node
  entries : List Entry
deriving Inhabited

/-- The binding of a name that counts at a position: of those visible, the last recorded. -/
def Scope.find? (s : Scope) (name : String) (pos : Nat) : Option Bound :=
  (s.entries.find? fun e => e.name == name && e.visibleAt pos).map (·.bound)

/-- An object with a catalog role that an expression denotes. -/
structure Instance where
  role : Role
  variableName : Option String
  constructor : String
  /-- The constructing call, where there is one. -/
  origin : Option Node
  /-- The node that identifies the binding: assignment, `with` item, parameter or call. -/
  declaredAt : Node
  isScoped : Bool
deriving Inhabited

end ApiSurface.Binding
