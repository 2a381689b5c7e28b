import ApiSurface.Facts.Route
import ApiSurface.Source

/-!
# Groups of a file

One group for each call that constructs a router, a blueprint or an application and that some
name is bound to. The variable that the call is assigned to names the group; other names of the
same object are aliases.
-/

namespace ApiSurface.Routing

open ApiSurface.Syntax (Node Tree)
open ApiSurface.Expr (Arguments)

/-- A group with the number of the node that constructs it. -/
structure Constructed where
  origin : Nat
  group : RouteGroup
deriving Inhabited

/-- Whether the value of a node is assigned to the variable, looking at most `fuel` nodes up. -/
def isAssignedTo (tree : Tree) (name : String) : Nat → Node → Bool
  | 0, _ => false
  | fuel + 1, n =>
    match tree.parent? n with
    | none => false
    | some parent =>
      match parent.kind with
      | "await" | "parenthesized_expression" => isAssignedTo tree name fuel parent
      | "assignment" => (parent.childByField? "left").any fun left => left.text == name
      | _ => false

/-- What bindings of groups are sorted by: where the group is constructed, then the variable that
it is assigned to before aliases, then where the name is introduced, then the name. -/
structure NamingKey where
  constructedAt : Nat
  isAlias : Bool
  introducedAt : Nat
  name : String

namespace NamingKey

/-- Keys are ordered lexicographically. -/
def compare (a b : NamingKey) : Ordering :=
  (Ord.compare a.constructedAt b.constructedAt).then <|
  (Ord.compare a.isAlias.toNat b.isAlias.toNat).then <|
  (Ord.compare a.introducedAt b.introducedAt).then <|
  Ord.compare a.name b.name

/-- The key of a binding. -/
def of (tree : Tree) (v : Binding.Value) : NamingKey :=
  ⟨v.origin.startByte, !isAssignedTo tree v.variableName tree.size v.origin,
    v.declaredAt.startByte, v.variableName⟩

end NamingKey

/-- Keep the first of each run of neighbours with one origin. -/
def dropRepeats : List Binding.Value → List Binding.Value
  | [] => []
  | [v] => [v]
  | v :: w :: r =>
    if v.origin.id = w.origin.id then dropRepeats (v :: r) else v :: dropRepeats (w :: r)

/-- The group that a binding names. -/
def ofBinding? (path : String) (v : Binding.Value) : Option Constructed :=
  match v.role with
  | some (.routeGroup framework kind) =>
    let args := Arguments.ofCall v.origin
    let declared := (args.keyword? "prefix" <|> args.keyword? "url_prefix").bind
      Expr.stringLiteral?
    some
      { origin := v.origin.id
        group :=
          { key := ⟨path, v.variableName, v.origin.startByte⟩
            span := v.declaredAt.span
            framework, kind
            declaredPrefix := declared
            parent := none
            mountPrefix := none
            effectivePrefix := none
            status := .root
            members := [] } }
  | _ => none

/-- The bindings that name groups, in the order of their keys. -/
def groupBindings (s : Source) : List Binding.Value :=
  let bindings := s.table.roleValues.filter fun v => v.role.any (·.isRouteGroup)
  let keyed := bindings.map fun v => (NamingKey.of s.tree v, v)
  (keyed.mergeSort fun a b => NamingKey.compare a.1 b.1 != .gt).map (·.2)

/-- The groups of a file in the order in which they are constructed. -/
def constructedGroups (s : Source) : List Constructed :=
  (dropRepeats (groupBindings s)).filterMap (ofBinding? s.path)

/-- The key of the group that a node constructs. -/
def keyOf? (groups : List Constructed) (origin : Node) : Option GroupKey :=
  (groups.reverse.find? fun g => g.origin == origin.id).map (·.group.key)

/-- The framework of the group object that an expression denotes, and the key of its group. -/
def groupOf? (s : Source) (groups : List Constructed) (object : Node) :
    Option (Framework × Option GroupKey) := do
  let i ← s.resolve? object
  match i.role with
  | .routeGroup framework _ => pure (framework, i.origin.bind (keyOf? groups))
  | _ => none

/-- The groups with the spans of the routes that are registered on them. Of groups with one key
the last takes the routes. -/
def withMembers (routes : List Route) : List RouteGroup → List RouteGroup
  | [] => []
  | g :: r =>
    let own := routes.filter fun route => route.group = some g.key
    let members := if r.any fun h => h.key = g.key then [] else own.map (·.span)
    { g with members } :: withMembers routes r

end ApiSurface.Routing
