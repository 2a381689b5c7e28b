import ApiSurface.TypeHint.Names
import ApiSurface.Binding.Table

/-!
# Recording bindings

One pass over a syntax tree in source order that records what each statement binds. Look-ups
during the pass see what is recorded so far.
-/

namespace ApiSurface.Binding

open ApiSurface.Syntax (Node Tree)
open ApiSurface.Expr (Arguments stripParens stripAwait stripType)
open ApiSurface.Text (compactString)

/-- The name and the annotation of a parameter. Separators and unpacked parameters have none. -/
def parameterParts? (param : Node) : Option (Node × Option Node) :=
  match param.kind with
  | "identifier" => some (param, none)
  | "typed_parameter" =>
    match param.firstNamed? with
    | some name =>
      if name.kind = "identifier" then some (name, param.childByField? "type") else none
    | none => none
  | "default_parameter" | "typed_default_parameter" =>
    match param.childByField? "name" with
    | some name =>
      if name.kind = "identifier" then some (name, param.childByField? "type") else none
    | none => none
  | _ => none

/-! ### Targets -/

mutual
/-- The identifiers at and below a node that are not parts of an attribute. -/
def targetNames (parentKind : String) : Node → List Node
  | n@(.mk _ _ _ cs) =>
    (if n.kind = "identifier" ∧ parentKind ≠ "attribute" then [n] else []) ++
      targetNamesAll n.kind cs

/-- The target identifiers of several nodes under one parent. -/
def targetNamesAll (parentKind : String) : List Node → List Node
  | [] => []
  | n :: ns => targetNames parentKind n ++ targetNamesAll parentKind ns
end

mutual
/-- The items at and below a node that do not belong to a `with` statement further down. -/
def withItems : Node → List Node
  | n@(.mk _ _ _ cs) =>
    (if n.kind = "with_item" then [n] else []) ++
      (if n.kind = "with_statement" then [] else withItemsAll cs)

/-- The items of several nodes. -/
def withItemsAll : List Node → List Node
  | [] => []
  | n :: ns => withItems n ++ withItemsAll ns
end

/-- The value at the end of a chain of assignments. -/
def assignedValue? (n : Node) : Option Node :=
  match _h : n.childByField? "right" with
  | none => none
  | some r => if r.kind = "assignment" then assignedValue? r else some r
termination_by sizeOf n
decreasing_by exact Node.sizeOf_lt_of_childByField? _h

namespace Table

/-- Record that a name is bound in a scope. -/
def bind (t : Table) (scope : Nat) (name : String) (visibleFrom : Nat) (visibleUntil : Option Nat)
    (bound : Bound) : Table :=
  { t with
    scopes := t.scopes.modify scope fun s =>
      { s with entries := ⟨name, visibleFrom, visibleUntil, bound⟩ :: s.entries } }

/-- Record the scope of a node. -/
def place (t : Table) (n : Node) (scope : Nat) : Table :=
  { t with nodeScope := t.nodeScope.setIfInBounds n.id scope }

/-- Open a scope; it takes the next number. -/
def openScope (t : Table) (kind : ScopeKind) (parent : Nat) (n : Node) : Table :=
  { t with scopes := t.scopes.push ⟨kind, some parent, n, []⟩ }

/-! ### Values -/

/-- A value about which nothing is known. -/
def plainValue (name : String) (value statement : Node) : Bound :=
  .value ⟨name, none, none, value, statement, false⟩

/-- Whether a call of the path makes a new type. -/
def isNewType (path : String) : Bool :=
  path == "typing.NewType" || path == "typing_extensions.NewType" || path == "NewType"

/-- What a variable is bound to that holds the result of a call. -/
def boundToCall (t : Table) (catalog : Catalog) (name : String) (call statement : Node)
    (scope : Nat) : Bound :=
  let callee := (call.childByField? "function").bind fun f => t.qualifyAt f scope call.startByte
  let value : Bound := .value
    ⟨name, callee, callee.bind catalog.constructorRole?, call, statement, false⟩
  match callee with
  | some path =>
    if isNewType path then
      match (Arguments.ofCall call).position? 1 with
      | some target => .typeAlias ⟨target, true⟩
      | none => value
    else value
  | none => value

/-- Whether an assigned expression reads as a type: a subscript of a type constructor, or a union
of such, of type names and of `None`. -/
def looksLikeType (t : Table) (scope : Nat) (n : Node) : Bool :=
  let side (m : Node) (deeper : Unit → Bool) : Bool :=
    match m.kind with
    | "none" => true
    | "binary_operator" | "subscript" | "generic_type" => deeper ()
    | "identifier" | "attribute" =>
      match t.qualifyAt m scope m.startByte with
      | some path => TypeHint.isTypeName path
      | none => false
    | _ => false
  match n.kind with
  | "subscript" | "generic_type" =>
    match n.childByField? "value" <|> n.firstNamed? with
    | some base =>
      match t.qualifyAt base scope n.startByte with
      | some path => TypeHint.isTypeConstructor path
      | none => false
    | none => false
  | "binary_operator" =>
    n.hasToken "|" &&
      (match _h : n.childByField? "left" with
        | some l => side l fun _ => looksLikeType t scope l
        | none => true) &&
      (match _h : n.childByField? "right" with
        | some r => side r fun _ => looksLikeType t scope r
        | none => true)
  | _ => false
termination_by sizeOf n
decreasing_by all_goals exact Node.sizeOf_lt_of_childByField? _h

/-- What a variable is bound to that is assigned a value. -/
def boundToValue (t : Table) (catalog : Catalog) (name : String) (value statement : Node)
    (scope : Nat) : Bound :=
  match value.kind with
  | "call" => t.boundToCall catalog name value statement scope
  | "identifier" =>
    match t.lookupAt value.text scope value.startByte with
    | some (.value v) => .value { v with variableName := name, declaredAt := statement }
    | some (.imported i) => .imported i
    | some (.typeAlias a) => .typeAlias a
    | _ => plainValue name value statement
  | "subscript" | "generic_type" | "binary_operator" =>
    if t.looksLikeType scope value then .typeAlias ⟨value, false⟩
    else plainValue name value statement
  | _ => plainValue name value statement

/-! ### Statements -/

/-- Hide the names in a target behind values about which nothing is known. -/
def shadowTargets (t : Table) (target : Node) (scope visibleFrom : Nat) : Table :=
  (targetNames "" target).foldl
    (fun t n => t.bind scope n.text visibleFrom none (plainValue n.text n n)) t

/-- Record what an `import` statement binds. -/
def recordImport (t : Table) (n : Node) (scope : Nat) : Table :=
  (n.childrenByField "name").foldl (fun t item =>
    match item.kind with
    | "dotted_name" =>
      let first := String.ofList (Text.trim (Text.beforeFirst '.' item.text.toList))
      t.bind scope first n.endByte none (.imported ⟨first, none⟩)
    | "aliased_import" =>
      match item.childByField? "name", item.childByField? "alias" with
      | some module, some aliasName =>
        t.bind scope aliasName.text n.endByte none (.imported ⟨compactString module.text, none⟩)
      | _, _ => t
    | _ => t) t

/-- The name that an item of a `from` statement imports, and the name it binds. -/
def importedName? (item : Node) : Option (String × String) :=
  if item.kind = "aliased_import" then
    match item.childByField? "name", item.childByField? "alias" with
    | some name, some aliasName => some (compactString name.text, aliasName.text)
    | _, _ => none
  else some (compactString item.text, compactString item.text)

/-- Record what a `from` statement binds. -/
def recordImportFrom (t : Table) (n : Node) (scope : Nat) : Table :=
  match n.childByField? "module_name" with
  | none => t
  | some module =>
    (n.childrenByField "name").foldl (fun t item =>
      match importedName? item with
      | some (name, bound) =>
        t.bind scope bound n.endByte none (.imported ⟨compactString module.text, some name⟩)
      | none => t) t

/-- Whether an assignment declares its target to be a type alias. -/
def isExplicitAlias (n : Node) : Bool :=
  match n.childByField? "type" with
  | some type =>
    let text := (stripType type).text
    text == "TypeAlias" || Text.endsWith text ".TypeAlias"
  | none => false

/-- Record what an assignment binds. -/
def recordAssignment (t : Table) (catalog : Catalog) (n : Node) (scope : Nat) : Table :=
  match n.childByField? "left" with
  | none => t
  | some left =>
    if left.kind = "identifier" then
      match assignedValue? n with
      | none => t
      | some right =>
        let bound :=
          if isExplicitAlias n then .typeAlias ⟨right, false⟩
          else t.boundToValue catalog left.text (stripAwait right) n scope
        t.bind scope left.text n.endByte none bound
    else if left.kind = "attribute" ∨ left.kind = "subscript" then t
    else t.shadowTargets left scope n.endByte

/-- The expression and the target of a `with` item. -/
def withParts? (item : Node) : Option (Node × Node) := do
  let value ← item.childByField? "value"
  if value.kind = "as_pattern" then
    let expr ← value.firstNamed?
    let aliasName ← value.childByField? "alias"
    let target := (aliasName.namedChildren.find? fun c => c.kind == "identifier").getD aliasName
    pure (expr, target)
  else
    let target ← item.childByField? "alias"
    pure (value, target)

/-- A value that is bound for the length of a `with` statement. -/
def asScoped : Bound → Bound
  | .value v => .value { v with isScoped := true }
  | b => b

/-- Record what a `with` statement binds. -/
def recordWith (t : Table) (catalog : Catalog) (n : Node) (scope : Nat) : Table :=
  (withItemsAll n.children).foldl (fun t item =>
    match withParts? item with
    | none => t
    | some (expr, target) =>
      if target.kind = "identifier" then
        let expr := stripAwait expr
        let bound :=
          if expr.kind = "call" then
            asScoped (t.boundToCall catalog target.text expr item scope)
          else plainValue target.text expr item
        t.bind scope target.text item.endByte (some n.endByte) bound
      else t) t

/-- Record what a `type` statement binds. -/
def recordTypeStatement (t : Table) (n : Node) (scope : Nat) : Table :=
  match n.namedChildren.head?, n.namedChildren.getLast? with
  | some left, some right =>
    t.bind scope (stripType left).text n.endByte none (.typeAlias ⟨right, false⟩)
  | _, _ => t

/-- Whether a decorator is a member of a route group or tool server, called or not. -/
def registers (t : Table) (catalog : Catalog) (decorator : Node) : Bool :=
  let object := do
    let expr ← decorator.firstNamed?.map stripParens
    let target ← if expr.kind = "call" then (expr.childByField? "function").map stripParens
      else some expr
    if target.kind = "attribute" then target.childByField? "object" else none
  match object.bind (t.resolve? catalog) with
  | some i => i.role.isRouteGroup || i.role.isToolServer
  | none => false

/-- The decorators of a definition that register it. -/
def registrations (t : Table) (catalog : Catalog) (parent : Option Node) : List Node :=
  match parent with
  | some p =>
    if p.kind = "decorated_definition" then
      (p.children.filter fun c => c.kind == "decorator").filter (t.registers catalog)
    else []
  | none => []

/-- Record what a definition binds. -/
def recordDefinition (t : Table) (catalog : Catalog) (parent : Option Node) (n : Node)
    (scope : Nat) (kind : DefinitionKind) : Table :=
  match n.childByField? "name" with
  | some name =>
    t.bind scope name.text n.endByte none (.definition ⟨kind, n, t.registrations catalog parent⟩)
  | none => t

/-- Record what one node binds in its scope. -/
def record (t : Table) (catalog : Catalog) (parent : Option Node) (n : Node) (scope : Nat) :
    Table :=
  match n.kind with
  | "import_statement" => t.recordImport n scope
  | "import_from_statement" => t.recordImportFrom n scope
  | "assignment" => t.recordAssignment catalog n scope
  | "with_statement" => t.recordWith catalog n scope
  | "for_statement" =>
    match n.childByField? "left" with
    | some left => t.shadowTargets left scope left.endByte
    | none => t
  | "type_alias_statement" => t.recordTypeStatement n scope
  | "function_definition" => t.recordDefinition catalog parent n scope .function
  | "class_definition" => t.recordDefinition catalog parent n scope .classType
  | _ => t

/-! ### Parameters -/

/-- The type of an optional that is spelled as a subscript. -/
def stripOptional (t : Table) (n : Node) (scope : Nat) : Node :=
  if n.kind = "subscript" then
    match n.childByField? "value", n.childByField? "subscript" with
    | some value, some inner =>
      match t.qualifyAt value scope value.startByte with
      | some path => if path = "typing.Optional" ∨ path = "Optional" then stripType inner else n
      | none => n
    | _, _ => n
  else n

/-- The path of the class that a parameter is annotated with. -/
def hintPath? (t : Table) (hint : Node) (scope : Nat) : Option String :=
  let a := t.stripOptional (stripType hint) scope
  t.qualifyAt a scope a.startByte

/-- Bind the parameters of a function in its scope. Annotations belong to the scope around it. -/
def bindParameters (t : Table) (catalog : Catalog) (function : Node) (scope outer : Nat) :
    Table :=
  match function.childByField? "parameters" with
  | none => t
  | some list =>
    list.namedChildren.foldl (fun t param =>
      match parameterParts? param with
      | none => t
      | some (name, hint) =>
        let path := hint.bind fun a => t.hintPath? a outer
        t.bind scope name.text list.startByte none
          (.parameter ⟨function, param, hint, path, path.bind catalog.constructorRole?⟩)) t

/-! ### The pass -/

/-- The scope that a node opens. -/
def opens? (n : Node) : Option ScopeKind :=
  match n.kind with
  | "function_definition" => some .function
  | "class_definition" => some .classBody
  | _ => none

/-- Whether a child of a definition lies in the scope that the definition opens. -/
def isInner (child : Node) : Bool :=
  match child.field with
  | some f => f == "body" || f == "parameters" || f == "type_parameters"
  | none => false

mutual
/-- Visit a node and everything below it in source order. -/
def visit (catalog : Catalog) (parent : Option Node) (scope : Nat) (t : Table) : Node → Table
  | n@(.mk _ _ _ cs) =>
    let t := (t.place n scope).record catalog parent n scope
    match opens? n with
    | some kind =>
      let inner := t.scopes.size
      let t := t.openScope kind scope n
      let t := if kind = .function then t.bindParameters catalog n inner scope else t
      visitAll catalog (some n) scope inner t cs
    | none => visitAll catalog (some n) scope scope t cs

/-- Visit the children of a node; those inside a definition belong to scope `inner`. -/
def visitAll (catalog : Catalog) (parent : Option Node) (scope inner : Nat) (t : Table) :
    List Node → Table
  | [] => t
  | c :: cs =>
    visitAll catalog parent scope inner
      (visit catalog parent (if isInner c then inner else scope) t c) cs
end

/-- The table before the pass: one scope and nothing in it. -/
def initial (tree : Tree) : Table :=
  ⟨#[⟨.module, none, tree.root, []⟩], Array.replicate tree.size moduleScope⟩

/-- The binding table of a syntax tree. -/
def build (tree : Tree) (catalog : Catalog) : Table :=
  visit catalog none moduleScope (initial tree) tree.root

end Table

end ApiSurface.Binding
