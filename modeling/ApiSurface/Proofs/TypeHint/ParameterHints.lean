import ApiSurface.Proofs.Binding.ParameterScope
import ApiSurface.Proofs.TypeHint.Mentions
import ApiSurface.Routing.Parameter
import ApiSurface.Tooling.Tool

/-!
# Annotations of parameters

An annotation of a parameter is evaluated around the function, where neither the parameters nor
the body are in sight (`typeAround`). It is read from inside the scope of the parameters. Both come
to the same for names that the function leaves alone (`IsFree`): those that are no names of
parameters, and no members of a class body that the function stands in
(`normalize_eq_typeAround_of_isFree`). Routes and tools report what is read
(`reported_eq_typeAround`).

Neither family of names can be left out (`reported_ne_typeAround`): an annotation that starts with
the name of a parameter says nothing (`normalize_of_mem_parameterNames`), and members of the class
are out of sight.
-/

namespace ApiSurface

open ApiSurface.Syntax (Node Tree)
open ApiSurface.Binding (Covers Table)

/-- The table of the file is that of its tree, which is regular and numbered in source order. -/
structure Source.IsRegular (s : Source) : Prop where
  table_eq : s.table = Table.build s.tree s.catalog
  root : Binding.IsRegular s.tree.root
  numbered : s.tree.IsNumbered

theorem Source.isRegular_read {parse : String → Tree} {catalog : Catalog} {path text : String}
    (hroot : Binding.IsRegular (parse text).root) (hnumbered : (parse text).IsNumbered) :
    (Source.read parse catalog path text).IsRegular :=
  ⟨rfl, hroot, hnumbered⟩

namespace TypeHint

/-- A parameter with an annotation, in the list of a function of the tree. -/
structure Annotated (tree : Tree) where
  function : Node
  list : Node
  parameter : Node
  name : Node
  hint : Node
  mem_nodes : function ∈ tree.nodes
  isFunction : function.kind = "function_definition"
  list_eq : function.childByField? "parameters" = some list
  mem_list : parameter ∈ list.namedChildren
  parts : Binding.parameterParts? parameter = some (name, some hint)

variable {s : Source} {a : Annotated s.tree} {m : Node} {name : String}

/-- The circumstances around the function: the scope that it belongs to, at the place of the
annotation. -/
def around (s : Source) (a : Annotated s.tree) : Look :=
  ⟨[], some ⟨s.table.scopeOf a.function, a.hint.startByte⟩⟩

/-- The type that the annotation stands for around the function. -/
def typeAround (s : Source) (a : Annotated s.tree) : TypeInfo :=
  readWithin s maxDepth (around s a) a.hint

/-- The list goes on behind the annotation, if only with its closing parenthesis. -/
def Annotated.IsClosed (a : Annotated s.tree) : Prop := a.hint.endByte < a.list.endByte

/-- The function leaves the name alone: no parameter has it, and when the function stands directly
in a class body, no member has it. -/
structure IsFree (s : Source) (a : Annotated s.tree) (name : String) : Prop where
  noParameter : name ∉ Table.parameterNames a.function
  noMember : ∀ c, s.table.scopes[s.table.scopeOf a.function]? = some c → c.kind = .classBody →
    c.Lacks name a.hint.startByte

instance (s : Source) (a : Annotated s.tree) (name : String) : Decidable (IsFree s a name) :=
  decidable_of_iff (name ∉ Table.parameterNames a.function ∧
    ∀ c ∈ s.table.scopes[s.table.scopeOf a.function]?, c.kind = .classBody →
      c.Lacks name a.hint.startByte)
    ⟨fun ⟨h₁, h₂⟩ => ⟨h₁, fun c hc => h₂ c hc⟩,
      fun h => ⟨h.noParameter, fun c hc => h.noMember c hc⟩⟩

/-! ### Places -/

theorem childByField?_type_of_parameterParts? {param nameNode hint : Node}
    (h : Binding.parameterParts? param = some (nameNode, some hint)) :
    param.childByField? "type" = some hint := by
  grind [Binding.parameterParts?]

theorem Annotated.hint_mem_descendants (a : Annotated s.tree) : a.hint ∈ a.list.descendants :=
  Node.mem_descendants_trans (Node.namedChild_mem_descendants a.mem_list)
    (Node.childByField?_mem_descendants (childByField?_type_of_parameterParts? a.parts))

theorem Annotated.regular (a : Annotated s.tree) (hs : s.IsRegular) :
    Binding.IsRegular a.function :=
  fun m hm => hs.root m (Node.mem_descendants_trans a.mem_nodes hm)

/-- What stands in the annotation lies in the list, and in the function. -/
theorem Annotated.place (a : Annotated s.tree) (hs : s.IsRegular) (hclosed : a.IsClosed)
    (hm : m ∈ a.hint.descendants) : a.list.startByte ≤ m.startByte ∧
      m.startByte < a.list.endByte ∧ Covers a.function m.startByte := by
  have hfunction := a.regular hs
  have hlist := Node.childByField?_mem_descendants a.list_eq
  have hlaid : ∀ k ∈ a.list.descendants, k.IsLaidOut := fun k hk =>
    (hfunction k (Node.mem_descendants_trans hlist hk)).1
  have hhint := a.hint_mem_descendants
  have hbelow := Node.mem_descendants_trans hhint hm
  have hin := Node.encloses_of_mem_descendants hlaid hbelow
  have hinHint := Node.encloses_of_mem_descendants
    (fun k hk => hlaid k (Node.mem_descendants_trans hhint hk)) hm
  have hinFunction := Node.encloses_of_mem_descendants (fun k hk => (hfunction k hk).1) hlist
  have hlt : m.startByte < a.list.endByte :=
    Nat.lt_of_le_of_lt (Nat.le_trans (hlaid m hbelow).forwards hinHint.2) hclosed
  exact ⟨hin.1, hlt, Nat.le_trans hinFunction.1 hin.1, Nat.lt_of_lt_of_le hlt hinFunction.2⟩

/-! ### What names mean -/

/-- Names in the annotation are looked up in the scope of the parameters. -/
theorem exists_isParameterScope (hs : s.IsRegular) (a : Annotated s.tree) :
    ∃ inner, s.table.IsParameterScope a.function a.list inner := by
  rw [hs.table_eq]
  exact Table.exists_isParameterScope hs.root hs.numbered s.catalog a.mem_nodes a.isFunction
    a.list_eq

theorem isChronological_table (hs : s.IsRegular) : s.table.IsChronological := by
  rw [hs.table_eq]
  exact Table.isChronological_build hs.root s.catalog

theorem sameLookup_of_isFree (hs : s.IsRegular) (hclosed : a.IsClosed)
    (hm : m ∈ a.hint.descendants) (hfree : IsFree s a name) :
    SameLookup s name (anchorOf s .initial m) (anchorOf s (around s a) m) := by
  obtain ⟨inner, hinner⟩ := exists_isParameterScope hs a
  have hchr := isChronological_table hs
  have hplace := a.place hs hclosed hm
  have hstart := a.place hs hclosed a.hint.self_mem_descendants
  have hscope : s.table.scopeOf m = inner :=
    hinner.below m (Node.mem_descendants_trans a.hint_mem_descendants hm)
  show s.table.lookupAt name (s.table.scopeOf m) m.startByte
    = s.table.lookupAt name (s.table.scopeOf a.function) a.hint.startByte
  rw [hscope]
  exact hinner.lookupAt_eq hchr hplace.2.2 hplace.2.1 hstart.2.2 hfree.noParameter hfree.noMember

/-- **Annotations of parameters.** Where the function leaves all names alone, an annotation reads
as it does around the function. -/
theorem normalize_eq_typeAround_of_isFree (hs : s.IsRegular) (hclosed : a.IsClosed)
    (hfree : ∀ m name, Mentions s a.hint m name → IsFree s a name) :
    normalize s a.hint = typeAround s a :=
  readWithin_congr s maxDepth ⟨rfl, fun m name hm =>
    sameLookup_of_isFree hs hclosed hm.mem_descendants (hfree m name hm)⟩

/-! ### Names of parameters -/

section Parameters

variable {below : Below} {look : Look} {n : Node} {text : String} {p : Binding.Parameter}
  {anchor : Anchor}

theorem pathOf?_of_parameter
    (h : s.table.lookupAt (headOf text) anchor.scope anchor.pos = some (.parameter p)) :
    pathOf? s text anchor = none := by
  rw [headOf] at h
  rw [pathOf?]
  split <;> simp_all [Table.headPath?]

theorem ofName_of_parameter (h : s.table.lookupAt (headName n) (anchorOf s look n).scope
    (anchorOf s look n).pos = some (.parameter p)) : ofName s below look n = .unknown := by
  rw [headName] at h
  simp only [ofName, pathOf?_of_parameter h]
  split
  · rfl
  · next hdot =>
    rw [headOf_eq_self (Bool.eq_false_iff.mpr hdot)] at h
    simp only [h]

/-- An annotation that starts with the name of a parameter says nothing. -/
theorem normalize_of_mem_parameterNames (hs : s.IsRegular) (hclosed : a.IsClosed)
    (hk : (Expr.stripType a.hint).kind ∈ nameKinds)
    (hname : headName (Expr.stripType a.hint) ∈ Table.parameterNames a.function) :
    normalize s a.hint = .unknown := by
  obtain ⟨inner, hinner⟩ := exists_isParameterScope hs a
  have hm := Expr.stripType_mem_descendants a.hint
  have hplace := a.place hs hclosed hm
  obtain ⟨p, hp⟩ := hinner.exists_lookupAt_eq (isChronological_table hs) a.list_eq hplace.1
    hplace.2.1 hname
  have hscope := hinner.below _ (Node.mem_descendants_trans a.hint_mem_descendants hm)
  rw [normalize, maxDepth, readWithin, level_of_mem_nameKinds hk]
  refine ofName_of_parameter (p := p) ?_
  show s.table.lookupAt _ (s.table.scopeOf (Expr.stripType a.hint)) _ = _
  rw [hscope]
  exact hp

end Parameters

/-! ### What is reported -/

/-- The annotation that the marker of a parameter spells out. -/
def markedType? (s : Source) (parameter hint : Node) : Option Node :=
  (Routing.marker? s (parameter.childByField? "value") (some hint)).bind fun m =>
    let args := Expr.Arguments.ofCall m.call
    args.keyword? "annotation" <|> args.keyword? "type"

/-- A route reports what the annotation reads as. -/
theorem map_type_handlerParameter? {framework : Framework} {path : List Routing.Placeholder}
    (hmarked : markedType? s a.parameter a.hint = none) :
    (Routing.handlerParameter? s framework path a.parameter).map (·.type)
      = if a.name.text = "self" ∨ a.name.text = "cls" ∨ Routing.isInjected s (some a.hint) then none
        else some (normalize s a.hint) := by
  rw [markedType?] at hmarked
  rw [Routing.handlerParameter?, a.parts]
  simp only [Option.bind_eq_bind, Option.bind_some]
  split
  · rfl
  · cases hmarker : Routing.marker? s (a.parameter.childByField? "value") (some a.hint) with
    | none => rfl
    | some marker =>
      rw [hmarker, Option.bind_some] at hmarked
      simp only [hmarked]
      rfl

/-- A tool reports what the annotation reads as. -/
theorem map_type_parameter? {docs : List (String × String)} :
    (Tool.parameter? s docs a.parameter).map (·.type)
      = if a.name.text = "self" ∨ a.name.text = "cls" ∨ Tool.isContext s (some a.hint) then none
        else some (normalize s a.hint) := by
  rw [Tool.parameter?, a.parts]
  simp only [Option.bind_eq_bind, Option.bind_some]
  split <;> rfl

/-- **What is reported.** Where the function leaves all names in an annotation alone, routes and
tools report the type that the annotation stands for around the function. -/
theorem reported_eq_typeAround (hs : s.IsRegular) (a : Annotated s.tree) (hclosed : a.IsClosed)
    (hfree : ∀ m name, Mentions s a.hint m name → IsFree s a name) :
    normalize s a.hint = typeAround s a ∧
    (∀ framework path, markedType? s a.parameter a.hint = none →
      (Routing.handlerParameter? s framework path a.parameter).map (·.type)
        = if a.name.text = "self" ∨ a.name.text = "cls" ∨ Routing.isInjected s (some a.hint)
          then none else some (typeAround s a)) ∧
    ∀ docs, (Tool.parameter? s docs a.parameter).map (·.type)
      = if a.name.text = "self" ∨ a.name.text = "cls" ∨ Tool.isContext s (some a.hint)
        then none else some (typeAround s a) := by
  have hsame := normalize_eq_typeAround_of_isFree hs hclosed hfree
  refine ⟨hsame, fun framework path hmarked => ?_, fun docs => ?_⟩
  · rw [map_type_handlerParameter? hmarked, hsame]
  · rw [map_type_parameter?, hsame]

section Service

open ApiSurface.Syntax.ParseTree

/-- A method with a parameter that is called like a type, and with an alias of its class. -/
def serviceTree : Tree := Tree.lower
    "class C:\n    Key = int | str\n    def f(self, int: str, limit: int, key: Key): pass" <|
  rule "module" none 0 82 [
    rule "class_definition" none 0 82 [
      token "class" 0 5,
      rule "identifier" "name" 6 7 [],
      token ":" 7 8,
      rule "block" "body" 13 82 [
        rule "expression_statement" none 13 28 [
          rule "assignment" none 13 28 [
            rule "identifier" "left" 13 16 [],
            token "=" 17 18,
            rule "binary_operator" "right" 19 28 [
              rule "identifier" "left" 19 22 [],
              token "|" 23 24,
              rule "identifier" "right" 25 28 []]]],
        rule "function_definition" none 33 82 [
          token "def" 33 36,
          rule "identifier" "name" 37 38 [],
          rule "parameters" "parameters" 38 76 [
            token "(" 38 39,
            rule "identifier" none 39 43 [],
            token "," 43 44,
            rule "typed_parameter" none 45 53 [
              rule "identifier" none 45 48 [],
              token ":" 48 49,
              rule "type" "type" 50 53 [rule "identifier" none 50 53 []]],
            token "," 53 54,
            rule "typed_parameter" none 55 65 [
              rule "identifier" none 55 60 [],
              token ":" 60 61,
              rule "type" "type" 62 65 [rule "identifier" none 62 65 []]],
            token "," 65 66,
            rule "typed_parameter" none 67 75 [
              rule "identifier" none 67 70 [],
              token ":" 70 71,
              rule "type" "type" 72 75 [rule "identifier" none 72 75 []]],
            token ")" 75 76],
          token ":" 76 77,
          rule "block" "body" 78 82 [rule "pass_statement" none 78 82 [token "pass" 78 82]]]]]]

def service : Source := .read (fun _ => serviceTree) .builtin "service.py" ""

def serviceNode (i : Nat) : Node := (serviceTree.node? i).getD default

/-- The parameter of the method at a place of its list. -/
def serviceParameter (parameter name hint place : Nat)
    (hplace : (serviceNode 17).namedChildren[place]? = some (serviceNode parameter))
    (hparts : Binding.parameterParts? (serviceNode parameter)
      = some (serviceNode name, some (serviceNode hint))) : Annotated service.tree where
  function := serviceNode 14
  list := serviceNode 17
  parameter := serviceNode parameter
  name := serviceNode name
  hint := serviceNode hint
  mem_nodes := List.mem_of_getElem? (i := 14) (by rfl)
  isFunction := by decide +kernel
  list_eq := by rfl
  mem_list := List.mem_of_getElem? hplace
  parts := hparts

/-- The parameter `int: str`. -/
def shadowingParameter : Annotated service.tree := serviceParameter 21 22 24 1 (by rfl) (by rfl)

/-- The parameter `limit: int`. -/
def shadowedParameter : Annotated service.tree := serviceParameter 27 28 30 2 (by rfl) (by rfl)

/-- The parameter `key: Key`. -/
def memberParameter : Annotated service.tree := serviceParameter 33 34 36 3 (by rfl) (by rfl)

theorem isRegular_service : service.IsRegular :=
  Source.isRegular_read (by decide) (Tree.isNumbered_lower _ _)

/-- The theorem applies to the parameter that hides a type, whose own type is not hidden. -/
theorem reported_eq_typeAround_shadowingParameter :
    service.IsRegular ∧ shadowingParameter.IsClosed ∧
    (∀ m name, Mentions service shadowingParameter.hint m name →
      IsFree service shadowingParameter name) ∧
    markedType? service shadowingParameter.parameter shadowingParameter.hint = none ∧
    (Routing.handlerParameter? service .fastApi [] shadowingParameter.parameter).map (·.type)
      = some (.of (.primitive "string")) ∧
    (Tool.parameter? service [] shadowingParameter.parameter).map (·.type)
      = some (.of (.primitive "string")) := by
  have hclosed : shadowingParameter.IsClosed := by unfold Annotated.IsClosed; decide +kernel
  have hfree : ∀ m name, Mentions service shadowingParameter.hint m name →
      IsFree service shadowingParameter name := fun m name hm => by
    obtain ⟨-, rfl⟩ := hm.eq_of_name (by decide +kernel)
    decide +kernel
  have hmarked : markedType? service shadowingParameter.parameter shadowingParameter.hint
      = none := by rfl
  have htype : typeAround service shadowingParameter = .of (.primitive "string") := by
    decide +kernel
  obtain ⟨-, hroute, htool⟩ :=
    reported_eq_typeAround isRegular_service shadowingParameter hclosed hfree
  refine ⟨isRegular_service, hclosed, hfree, hmarked, ?_, ?_⟩
  · rw [hroute .fastApi [] hmarked, htype]
    decide +kernel
  · rw [htool [], htype]
    decide +kernel

/-- A type that has the name of a parameter is lost, and so is an alias of the class. -/
theorem reported_ne_typeAround :
    service.IsRegular ∧
    markedType? service shadowedParameter.parameter shadowedParameter.hint = none ∧
    (Routing.handlerParameter? service .fastApi [] shadowedParameter.parameter).map (·.type)
      = some .unknown ∧
    (Tool.parameter? service [] shadowedParameter.parameter).map (·.type) = some .unknown ∧
    typeAround service shadowedParameter = .of (.primitive "int") ∧
    (Tool.parameter? service [] memberParameter.parameter).map (·.type)
      = some (.of (.reference "Key")) ∧
    typeAround service memberParameter
      = (TypeInfo.of (.unionOf [.primitive "int", .primitive "string"])).withAlias "Key" :=
  ⟨isRegular_service, by decide +kernel⟩

end Service

end TypeHint

end ApiSurface
