import ApiSurface.Http.Call
import ApiSurface.Proofs.Routing.Decorators
import ApiSurface.Proofs.TypeHint.ParameterHints

/-!
# Copied names

An assignment of a name to a name copies what the name is bound to. So the new name denotes the
same object as the old one, from wherever the old one has it: from a call, from a `with` statement
or from a further copy (`Copy.resolve?_of_reads`). A parameter is not copied. What its annotation
says about it is lost with the new name.
-/

namespace ApiSurface

open ApiSurface.Syntax (Node Tree)
open ApiSurface.Expr (stripAwait stripAwait_mem_descendants)

namespace Binding

/-! ### Names and objects -/

namespace Table

variable {t : Table} {catalog : Catalog} {name : String} {n value statement : Node} {scope : Nat}

/-- The object that a name holds with such a binding. -/
def instanceOfBound? (name : String) : Bound → Option Instance
  | .value v => instanceOfValue? v
  | .parameter p => instanceOfParameter? name p
  | _ => none

theorem resolve?_of_identifier (hk : (stripAwait n).kind = "identifier") :
    t.resolve? catalog n = (t.lookup (stripAwait n).text (stripAwait n)).bind
      (instanceOfBound? (stripAwait n).text) := by
  rw [resolve?, if_pos hk]
  cases t.lookup (stripAwait n).text (stripAwait n) with
  | none => rfl
  | some b => cases b <;> rfl

/-- What a name is bound to that is assigned a name with such a binding. -/
def copyOf (name : String) (value statement : Node) : Option Bound → Bound
  | some (.value v) => .value { v with variableName := name, declaredAt := statement }
  | some (.imported i) => .imported i
  | some (.typeAlias a) => .typeAlias a
  | _ => plainValue name value statement

theorem boundToValue_of_identifier (hk : value.kind = "identifier") :
    t.boundToValue catalog name value statement scope
      = copyOf name value statement (t.lookupAt value.text scope value.startByte) := by
  simp only [boundToValue, hk]
  cases t.lookupAt value.text scope value.startByte with
  | none => rfl
  | some b => cases b <;> rfl

theorem recordAssignment_of_name {left right : Node} (hleft : n.childByField? "left" = some left)
    (hk : left.kind = "identifier") (hright : assignedValue? n = some right) :
    t.recordAssignment catalog n scope
      = t.push scope [⟨left.text, n.endByte, none, if isExplicitAlias n then
          .typeAlias ⟨right, false⟩
        else t.boundToValue catalog left.text (stripAwait right) n scope⟩] := by
  simp only [recordAssignment, hleft, hk, if_true, hright]
  rfl

/-- A look-up finds the only binding of the name that is visible in the scope. -/
theorem lookupAt_of_only {s : Scope} {e : Entry} {pos : Nat} (hs : t.scopes[scope]? = some s)
    (he : e ∈ s.entries) (hoffers : e.Offers name pos)
    (honly : (s.entries.filter fun e => e.name == name && e.visibleAt pos).length = 1) :
    t.lookupAt name scope pos = some e.bound := by
  obtain ⟨only, honly⟩ := List.length_eq_one_iff.mp honly
  have hmem : e ∈ s.entries.filter fun e => e.name == name && e.visibleAt pos :=
    List.mem_filter.mpr ⟨he, by simp [hoffers.1, hoffers.2]⟩
  rw [honly, List.mem_singleton] at hmem
  have hfind : s.find? name pos = some e.bound := by
    rw [Scope.find?, ← List.head?_filter, honly, hmem]
    rfl
  rw [lookupAt, findFrom, hs]
  simp only [sees, beq_self_eq_true, Bool.or_true, if_true, hfind]

end Table

/-- The finished table has the binding that an assignment makes, as it says itself what is assigned,
if it says the same as the table at the time. -/
theorem Visit.exists_entry_of_assignment {s : Source} {n left right : Node} (hs : s.IsRegular)
    (hn : n ∈ s.tree.nodes) (hk : n.kind = "assignment")
    (hleft : n.childByField? "left" = some left) (hname : left.kind = "identifier")
    (hright : assignedValue? n = some right)
    (hsame : ∀ w, Within s.catalog (start s.tree) w → w.node = n →
      w.placed.boundToValue s.catalog left.text (stripAwait right) n w.scope
        = s.table.boundToValue s.catalog left.text (stripAwait right) n w.scope) :
    ∃ scope, s.table.scopes[s.table.scopeOf n]? = some scope ∧
      ⟨left.text, n.endByte, none, if Table.isExplicitAlias n then .typeAlias ⟨right, false⟩
        else s.table.boundToValue s.catalog left.text (stripAwait right) n (s.table.scopeOf n)⟩
          ∈ scope.entries := by
  obtain ⟨w, hw, rfl⟩ := Within.exists_of_mem_descendants s.catalog (start s.tree) hn
  have hscope : s.table.scopeOf w.node = w.scope := by
    rw [hs.table_eq, scopeOf_eq hs.root hs.numbered hw]
  have hassignment : w.recorded s.catalog = w.placed.recordAssignment s.catalog w.node w.scope := by
    rw [recorded, Table.record]
    simp only [hk]
    rfl
  rw [Table.recordAssignment_of_name hleft hname hright, hsame w hw rfl] at hassignment
  obtain ⟨scope, hget, hmem⟩ := hw.exists_mem_entries (isSound_start hs.root hs.numbered)
    hassignment List.mem_cons_self
  rw [result_start, ← hs.table_eq, ← hscope] at hget
  exact ⟨scope, hget, hscope ▸ hmem⟩

/-! ### Copies -/

/-- Whether a name with the binding is a parameter. -/
def Bound.isParameter : Bound → Bool
  | .parameter _ => true
  | _ => false

/-- An assignment of a name to a name, at the end of a chain or alone. -/
structure Copy (tree : Tree) where
  statement : Node
  target : Node
  /-- What is assigned: a name, maybe inside parentheses or behind `await`. -/
  original : Node
  mem_nodes : statement ∈ tree.nodes
  isAssignment : statement.kind = "assignment"
  target_eq : statement.childByField? "left" = some target
  isName : target.kind = "identifier"
  original_eq : assignedValue? statement = some original
  copiesName : (stripAwait original).kind = "identifier"
  endsBehind : (stripAwait original).startByte < statement.endByte

namespace Copy

variable {s : Source} {a : Copy s.tree} {use d d' : Node}

/-- What the new name is bound to. -/
def bound (s : Source) (a : Copy s.tree) : Bound :=
  if Table.isExplicitAlias a.statement then .typeAlias ⟨a.original, false⟩
  else s.table.boundToValue s.catalog a.target.text (stripAwait a.original) a.statement
    (s.table.scopeOf a.statement)

/-- The binding of the new name. -/
def entry (s : Source) (a : Copy s.tree) : Entry :=
  ⟨a.target.text, a.statement.endByte, none, a.bound s⟩

/-- The expression is a name for which a look-up finds what the assignment binds. -/
structure Reads (s : Source) (a : Copy s.tree) (use : Node) : Prop where
  isName : (stripAwait use).kind = "identifier"
  lookup_eq : s.table.lookup (stripAwait use).text (stripAwait use) = some (a.bound s)

/-- The binding of the original is copied: it is no parameter, and the assignment does not declare
a type. -/
structure Keeps (s : Source) (a : Copy s.tree) : Prop where
  notExplicit : Table.isExplicitAlias a.statement = false
  noParameter : ∀ p,
    s.table.lookup (stripAwait a.original).text (stripAwait a.original) ≠ some (.parameter p)

instance (s : Source) (a : Copy s.tree) : Decidable (a.Keeps s) :=
  decidable_of_iff (Table.isExplicitAlias a.statement = false ∧
    ∀ b ∈ s.table.lookup (stripAwait a.original).text (stripAwait a.original),
      b.isParameter = false)
    ⟨fun ⟨h₁, h₂⟩ => ⟨h₁, fun p hp => nomatch h₂ (.parameter p) hp⟩,
      fun h => ⟨h.notExplicit, fun b hb => Bool.eq_false_iff.mpr fun hparameter =>
        match b, hparameter with
        | .parameter p, _ => h.noParameter p hb⟩⟩

/-- The object under its new name. -/
def rename {tree : Tree} (a : Copy tree) (i : Instance) : Instance :=
  { i with variableName := some a.target.text, declaredAt := a.statement }

/-! ### What is bound -/

theorem mem_descendants (a : Copy s.tree) :
    stripAwait a.original ∈ a.statement.descendants :=
  Node.mem_descendants_trans (isBelow_of_assignedValue? a.original_eq).mem_descendants
    (stripAwait_mem_descendants a.original)

/-- The original is looked up from the scope of the assignment. -/
theorem bound_eq (hs : s.IsRegular) (a : Copy s.tree)
    (hexplicit : Table.isExplicitAlias a.statement = false) :
    a.bound s = Table.copyOf a.target.text (stripAwait a.original) a.statement
      (s.table.lookup (stripAwait a.original).text (stripAwait a.original)) := by
  obtain ⟨w, hw, hnode⟩ :=
    Visit.Within.exists_of_mem_descendants s.catalog (Visit.start s.tree) a.mem_nodes
  have hscope : ∀ m ∈ a.statement.descendants, s.table.scopeOf m = w.scope := fun m hm =>
    hs.table_eq ▸ Visit.scopeOf_of_assignment hs.root hs.numbered hw (hnode ▸ a.isAssignment)
      (hnode ▸ hm)
  rw [bound, if_neg (by simp [hexplicit]), Table.boundToValue_of_identifier a.copiesName,
    Table.lookup, hscope _ a.statement.self_mem_descendants, hscope _ a.mem_descendants]

/-- The finished table has the binding of the new name, as it says itself what is assigned. -/
theorem exists_entry_mem (hs : s.IsRegular) (a : Copy s.tree) :
    ∃ scope, s.table.scopes[s.table.scopeOf a.statement]? = some scope ∧
      a.entry s ∈ scope.entries := by
  refine Visit.exists_entry_of_assignment hs a.mem_nodes a.isAssignment a.target_eq a.isName
    a.original_eq fun w hw hnode => ?_
  -- the look-up of the original has the same result when the assignment is recorded
  have hsound := hw.isSound (Visit.isSound_start hs.root hs.numbered)
  have hagrees : w.placed.Agrees s.table w.scope (stripAwait a.original).startByte := by
    rw [hs.table_eq]
    exact (Visit.later_of_assignment hs.root hs.numbered hw (hnode ▸ a.isAssignment)).agrees
      hsound.scope_lt (hnode ▸ a.endsBehind)
  rw [Table.boundToValue_of_identifier a.copiesName, Table.boundToValue_of_identifier a.copiesName,
    hagrees]

/-- A name in the scope of the assignment, behind it, stands for what it binds when nothing else
binds the name. -/
theorem reads_of_only (hs : s.IsRegular) (a : Copy s.tree)
    (hk : (stripAwait use).kind = "identifier") (htext : (stripAwait use).text = a.target.text)
    (hscope : s.table.scopeOf (stripAwait use) = s.table.scopeOf a.statement)
    (hbehind : a.statement.endByte ≤ (stripAwait use).startByte)
    (honly : ∀ scope ∈ s.table.scopes[s.table.scopeOf a.statement]?, (scope.entries.filter fun e =>
      e.name == a.target.text && e.visibleAt (stripAwait use).startByte).length = 1) :
    a.Reads s use := by
  obtain ⟨scope, hget, hmem⟩ := a.exists_entry_mem hs
  refine ⟨hk, ?_⟩
  rw [Table.lookup, htext, hscope]
  exact Table.lookupAt_of_only hget hmem ⟨rfl, by simp [Entry.visibleAt, entry, hbehind]⟩
    (honly scope hget)

/-! ### What is denoted -/

theorem instanceOfBound?_copyOf {tree : Tree} (a : Copy tree) {found : Option Bound}
    (hfound : ∀ p, found ≠ some (.parameter p)) (name : String) :
    Table.instanceOfBound? name
        (Table.copyOf a.target.text (stripAwait a.original) a.statement found)
      = (found.bind (Table.instanceOfBound? (stripAwait a.original).text)).map a.rename := by
  cases found with
  | none => rfl
  | some b =>
    cases b with
    | value v =>
      simp only [Table.copyOf, Table.instanceOfBound?, Option.bind_some, Table.instanceOfValue?]
      cases v.role with
      | none => rfl
      | some role => cases v.callee <;> rfl
    | parameter p => exact absurd rfl (hfound p)
    | imported | typeAlias | definition => rfl

/-- A copied name denotes what the original denotes. -/
theorem resolve?_of_reads (hs : s.IsRegular) (hkeeps : a.Keeps s) (hreads : a.Reads s use) :
    s.resolve? use = (s.resolve? a.original).map a.rename := by
  rw [Source.resolve?, Source.resolve?, Table.resolve?_of_identifier hreads.isName,
    Table.resolve?_of_identifier a.copiesName, hreads.lookup_eq, Option.bind_some,
    a.bound_eq hs hkeeps.notExplicit]
  exact a.instanceOfBound?_copyOf hkeeps.noParameter _

/-- What is not copied denotes nothing. -/
theorem resolve?_of_not_keeps (hs : s.IsRegular) (hlost : ¬ a.Keeps s) (hreads : a.Reads s use) :
    s.resolve? use = none := by
  rw [Source.resolve?, Table.resolve?_of_identifier hreads.isName, hreads.lookup_eq,
    Option.bind_some]
  cases hexplicit : Table.isExplicitAlias a.statement with
  | true =>
    rw [bound, if_pos hexplicit]
    rfl
  | false =>
    rw [a.bound_eq hs hexplicit]
    cases hfound : s.table.lookup (stripAwait a.original).text (stripAwait a.original) with
    | none => rfl
    | some b =>
      cases b with
      | parameter => rfl
      | imported | value | typeAlias | definition =>
        exact absurd ⟨hexplicit, fun p => by simp [hfound]⟩ hlost

/-! ### What goes through a name -/

/-- The target of a request under the new name of the client. -/
def renameTarget {tree : Tree} (a : Copy tree) (t : Http.Target) : Http.Target :=
  { t with client := t.client.map fun c =>
      { c with variableName := some a.target.text, span := a.statement.span } }

/-- A tool under the new name of the server. -/
def renameTool {tree : Tree} (a : Copy tree) (t : Tool) : Tool :=
  { t with server := { t.server with variableName := a.target.text } }

/-- The expression denotes the object of the original under its new name, and so routes and
includes, requests and tools go through it as they go through the original. -/
structure IsTransparent (s : Source) (a : Copy s.tree) (use : Node) : Prop where
  denotes : s.resolve? use = (s.resolve? a.original).map a.rename
  group : ∀ groups, Routing.groupOf? s groups use = Routing.groupOf? s groups a.original
  request : ∀ f g, f.kind = "attribute" → g.kind = "attribute" →
    f.childByField? "object" = some use → g.childByField? "object" = some a.original →
    (f.childByField? "attribute").map Node.text = (g.childByField? "attribute").map Node.text →
    Http.clientMethod? s f = (Http.clientMethod? s g).map a.renameTarget
  tool : ∀ decorated function d d' member args,
    Tool.memberOf? d = some (member, use, args) →
    Tool.memberOf? d' = some (member, a.original, args) →
    Tool.ofDecorator? s decorated function d
      = (Tool.ofDecorator? s decorated function d').map a.renameTool

theorem groupOf?_of_denotes (groups : List Routing.Constructed)
    (h : s.resolve? use = (s.resolve? a.original).map a.rename) :
    Routing.groupOf? s groups use = Routing.groupOf? s groups a.original := by
  rw [Routing.groupOf?, Routing.groupOf?, h]
  cases s.resolve? a.original <;> rfl

theorem conventionOf_rename (a : Copy s.tree) (hk : (stripAwait use).kind = "identifier")
    (i : Instance) : Http.conventionOf use (a.rename i) = Http.conventionOf a.original i := by
  have huse : (stripAwait use).kind ≠ "call" := by simp [hk]
  have horiginal : (stripAwait a.original).kind ≠ "call" := by simp [a.copiesName]
  rw [Http.conventionOf, Http.conventionOf, if_neg huse, if_neg horiginal]
  rfl

theorem clientMethod?_of_denotes {f g : Node} (hk : (stripAwait use).kind = "identifier")
    (h : s.resolve? use = (s.resolve? a.original).map a.rename) (hf : f.kind = "attribute")
    (hg : g.kind = "attribute") (huse : f.childByField? "object" = some use)
    (horiginal : g.childByField? "object" = some a.original)
    (hmember : (f.childByField? "attribute").map Node.text
      = (g.childByField? "attribute").map Node.text) :
    Http.clientMethod? s f = (Http.clientMethod? s g).map a.renameTarget := by
  simp only [Http.clientMethod?, hf, hg, if_true, huse, horiginal, hmember]
  cases (g.childByField? "attribute").map Node.text with
  | none => rfl
  | some name =>
    simp only [Option.bind_eq_bind, Option.bind_some, h]
    split
    · cases s.resolve? a.original with
      | none => rfl
      | some i =>
        simp only [Option.map_some, Option.bind_some, a.conventionOf_rename hk]
        have hrole : (a.rename i).role = i.role := rfl
        rw [hrole]
        cases i.role <;> rfl
    · rfl

theorem ofDecorator?_of_denotes {decorated function : Node} {member : String}
    {args : Expr.Arguments} (h : s.resolve? use = (s.resolve? a.original).map a.rename)
    (huse : Tool.memberOf? d = some (member, use, args))
    (horiginal : Tool.memberOf? d' = some (member, a.original, args)) :
    Tool.ofDecorator? s decorated function d
      = (Tool.ofDecorator? s decorated function d').map a.renameTool := by
  simp only [Tool.ofDecorator?, huse, horiginal, h, Option.bind_eq_bind, Option.bind_some]
  cases Catalog.toolDecorator? member with
  | none => rfl
  | some kind =>
    cases s.resolve? a.original with
    | none => rfl
    | some i =>
      have hrole : (a.rename i).role = i.role := rfl
      simp only [Option.map_some, Option.bind_some, hrole]
      split
      · cases function.childByField? "name" <;> rfl
      · rfl

/-- **Copies denote what they copy.** The finished table binds the new name in the scope of the
assignment. A name that stands for this binding is as good as the original where the binding of the
original is copied, and denotes nothing where it is not: when the original is a parameter, or the
assignment declares a type. -/
theorem transparent_of_keeps (hs : s.IsRegular) (a : Copy s.tree) :
    (∃ scope, s.table.scopes[s.table.scopeOf a.statement]? = some scope ∧
      a.entry s ∈ scope.entries) ∧
    ∀ use, a.Reads s use →
      (a.Keeps s → a.IsTransparent s use) ∧ (¬ a.Keeps s → s.resolve? use = none) := by
  refine ⟨a.exists_entry_mem hs, fun use hreads => ⟨fun hkeeps => ?_, fun hlost => ?_⟩⟩
  · have hdenotes := resolve?_of_reads hs hkeeps hreads
    exact ⟨hdenotes, fun groups => groupOf?_of_denotes groups hdenotes,
      fun f g => clientMethod?_of_denotes hreads.isName hdenotes,
      fun decorated function d d' member args => ofDecorator?_of_denotes hdenotes⟩
  · exact resolve?_of_not_keeps hs hlost hreads

section Clients

open ApiSurface.Syntax.ParseTree

/-- Copies of a client that is constructed and of one that is a parameter. -/
def clientsTree : Tree := Tree.lower
    ("import httpx\nk = httpx.Client()\ndef f(p: httpx.Client):\n    a = k\n    b = p\n" ++
      "    a.get(\"/\")\n    b.get(\"/\")") <|
  rule "module" none 0 105 [
    rule "import_statement" none 0 12 [
      token "import" 0 6,
      rule "dotted_name" "name" 7 12 [rule "identifier" none 7 12 []]],
    rule "expression_statement" none 13 31 [
      rule "assignment" none 13 31 [
        rule "identifier" "left" 13 14 [],
        token "=" 15 16,
        rule "call" "right" 17 31 [
          rule "attribute" "function" 17 29 [
            rule "identifier" "object" 17 22 [],
            token "." 22 23,
            rule "identifier" "attribute" 23 29 []],
          rule "argument_list" "arguments" 29 31 [token "(" 29 30, token ")" 30 31]]]],
    rule "function_definition" none 32 105 [
      token "def" 32 35,
      rule "identifier" "name" 36 37 [],
      rule "parameters" "parameters" 37 54 [
        token "(" 37 38,
        rule "typed_parameter" none 38 53 [
          rule "identifier" none 38 39 [],
          token ":" 39 40,
          rule "type" "type" 41 53 [
            rule "attribute" none 41 53 [
              rule "identifier" "object" 41 46 [],
              token "." 46 47,
              rule "identifier" "attribute" 47 53 []]]],
        token ")" 53 54],
      token ":" 54 55,
      rule "block" "body" 60 105 [
        rule "expression_statement" none 60 65 [
          rule "assignment" none 60 65 [
            rule "identifier" "left" 60 61 [],
            token "=" 62 63,
            rule "identifier" "right" 64 65 []]],
        rule "expression_statement" none 70 75 [
          rule "assignment" none 70 75 [
            rule "identifier" "left" 70 71 [],
            token "=" 72 73,
            rule "identifier" "right" 74 75 []]],
        rule "expression_statement" none 80 90 [
          rule "call" none 80 90 [
            rule "attribute" "function" 80 85 [
              rule "identifier" "object" 80 81 [],
              token "." 81 82,
              rule "identifier" "attribute" 82 85 []],
            rule "argument_list" "arguments" 85 90 [
              token "(" 85 86,
              rule "string" none 86 89 [
                rule "string_start" none 86 87 [],
                rule "string_content" none 87 88 [],
                rule "string_end" none 88 89 []],
              token ")" 89 90]]],
        rule "expression_statement" none 95 105 [
          rule "call" none 95 105 [
            rule "attribute" "function" 95 100 [
              rule "identifier" "object" 95 96 [],
              token "." 96 97,
              rule "identifier" "attribute" 97 100 []],
            rule "argument_list" "arguments" 100 105 [
              token "(" 100 101,
              rule "string" none 101 104 [
                rule "string_start" none 101 102 [],
                rule "string_content" none 102 103 [],
                rule "string_end" none 103 104 []],
              token ")" 104 105]]]]]]

def clients : Source := .read (fun _ => clientsTree) .builtin "clients.py" ""

def clientsNode (i : Nat) : Node := (clientsTree.node? i).getD default

theorem isRegular_clients : clients.IsRegular :=
  Source.isRegular_read (by decide +kernel) (Tree.isNumbered_lower _ _)

/-- The copy of the client that is constructed. -/
def constructedCopy : Copy clients.tree where
  statement := clientsNode 34
  target := clientsNode 35
  original := clientsNode 37
  mem_nodes := List.mem_of_getElem? (i := 34) (by rfl)
  isAssignment := by decide +kernel
  target_eq := by rfl
  isName := by decide +kernel
  original_eq := by with_unfolding_all rfl
  copiesName := by decide +kernel
  endsBehind := by decide +kernel

/-- The copy of the client that is a parameter. -/
def parameterCopy : Copy clients.tree where
  statement := clientsNode 39
  target := clientsNode 40
  original := clientsNode 42
  mem_nodes := List.mem_of_getElem? (i := 39) (by rfl)
  isAssignment := by decide +kernel
  target_eq := by rfl
  isName := by decide +kernel
  original_eq := by with_unfolding_all rfl
  copiesName := by decide +kernel
  endsBehind := by decide +kernel

theorem reads_constructedCopy : constructedCopy.Reads clients (clientsNode 46) :=
  reads_of_only isRegular_clients constructedCopy (by decide +kernel) (by decide +kernel)
    (by decide +kernel) (by decide +kernel) (by decide +kernel)

theorem reads_parameterCopy : parameterCopy.Reads clients (clientsNode 59) :=
  reads_of_only isRegular_clients parameterCopy (by decide +kernel) (by decide +kernel)
    (by decide +kernel) (by decide +kernel) (by decide +kernel)

/-- The theorem applies to the copy of a client that is constructed. -/
theorem transparent_of_keeps_constructedCopy :
    clients.IsRegular ∧ constructedCopy.Reads clients (clientsNode 46) ∧
    constructedCopy.Keeps clients ∧
    (clients.resolve? (clientsNode 46)).map (fun i => (i.variableName, i.constructor))
      = some (some "a", "httpx.Client") := by
  have hkeeps : constructedCopy.Keeps clients := by decide +kernel
  have htransparent := ((transparent_of_keeps isRegular_clients constructedCopy).2
    (clientsNode 46) reads_constructedCopy).1 hkeeps
  refine ⟨isRegular_clients, reads_constructedCopy, hkeeps, ?_⟩
  rw [htransparent.denotes]
  decide +kernel

/-- The copy of a parameter denotes nothing, though the parameter denotes a client, and of the two
requests through copies one is missed. -/
theorem resolve?_parameterCopy :
    clients.IsRegular ∧ parameterCopy.Reads clients (clientsNode 59) ∧
    (clients.resolve? parameterCopy.original).map (·.constructor) = some "httpx.Client" ∧
    (clients.resolve? (clientsNode 59)).isNone ∧
    (Http.calls clients).map (fun c => c.client.bind (·.variableName)) = [some "a"] :=
  ⟨isRegular_clients, reads_parameterCopy, by decide +kernel⟩

end Clients

end Copy

end Binding

end ApiSurface
