import ApiSurface.Routing.Group

/-!
# Includes of a file

The calls that put one group under another, with what they point at.
-/

namespace ApiSurface.Routing

open ApiSurface.Syntax (Node)
open ApiSurface.Expr (Arguments stripParens)

/-- What an expression points at as the target of an include. -/
def includeTarget (s : Source) (groups : List Constructed) (n : Node) : IncludeTarget :=
  match groupOf? s groups n with
  | some (_, some key) => .local key
  | _ =>
    let m := stripParens n
    if m.kind = "identifier" ∨ m.kind = "attribute" then
      match s.table.qualify m with
      | some path =>
        match Text.splitLastString '.' path with
        | some (module, name) => .imported module name
        | none => .imported "" path
      | none => .unknown m.text
    else .unknown m.text

/-- The member of an object that a call calls: the object and the name of the member. -/
def calledMember? (call : Node) : Option (Node × String) := do
  let function ← (call.childByField? "function").map stripParens
  if function.kind = "attribute" then
    let member ← function.childByField? "attribute"
    let object ← function.childByField? "object"
    pure (object, member.text)
  else none

/-- The include that a call makes. -/
def include? (s : Source) (groups : List Constructed) (call : Node) : Option GroupInclude := do
  let (object, method) ← calledMember? call
  let layout ← Catalog.includeCall? method
  let (_, parent) ← groupOf? s groups object
  let parent ← parent
  let args := Arguments.ofCall call
  let target := match args.get? layout.targetIndex layout.targetKeyword with
    | some n => includeTarget s groups n
    | none => .unknown ""
  let mount := match layout.prefixIndex with
    | some i => args.get? i layout.prefixKeyword
    | none => args.keyword? layout.prefixKeyword
  pure
    { file := s.path
      span := call.span
      method, parent, target
      mountPrefix := mount.bind Expr.stringLiteral?
      replacesPrefix := layout.replacesPrefix }

end ApiSurface.Routing
