import ApiSurface.Proofs.Binding.Registrations
import ApiSurface.Routing.Route
import ApiSurface.Tooling.Tool

/-!
# What decorators register

Routes and tools are read from the decorators that the pass has kept for a definition. Those are
the decorators whose object is a route group or a tool server in the finished table, so the other
ones would give no route and no tool either: nothing is lost, and nothing is made up, by the choice
that the pass makes before the table is finished.
-/

namespace ApiSurface

open ApiSurface.Syntax (Node)
open ApiSurface.Expr (Arguments stripParens)
open ApiSurface.Binding (Table Visit receiver? target? decorators decoratorsUnder)

variable {s : Source} {groups : List Routing.Constructed} {decorated function d object : Node}

namespace Source

/-- The table is built from a tree of the grammar. -/
structure IsGrammatical (s : Source) : Prop where
  table_eq : s.table = Table.build s.tree s.catalog
  tree : Binding.IsGrammatical s.tree

/-- Whether a decorator is a member of a route group or tool server of the file. -/
def registers (s : Source) (decorator : Node) : Bool :=
  ((receiver? decorator).bind s.resolve?).any Binding.Instance.takesFunctions

theorem registers_eq (s : Source) : s.registers = s.table.registers s.catalog :=
  funext fun d => (s.table.registers_eq s.catalog d).symm

theorem registers_of_receiver? {i : Binding.Instance} (hobject : receiver? d = some object)
    (hi : s.resolve? object = some i) (htakes : i.takesFunctions) : s.registers d := by
  rw [registers, hobject, Option.bind_some, hi]
  exact htakes

/-! ### Routes -/

theorem receiver?_of_calledMember? {call : Node} {name : String}
    (hcall : d.firstNamed?.map stripParens = some call) (hk : call.kind = "call")
    (h : Routing.calledMember? call = some (object, name)) : receiver? d = some object := by
  simp only [Routing.calledMember?, Option.bind_eq_bind, Option.bind_eq_some_iff] at h
  obtain ⟨target, htarget, h⟩ := h
  split at h
  · next hattribute =>
    simp only [Option.bind_eq_some_iff, Option.pure_def, Option.some.injEq, Prod.mk.injEq] at h
    obtain ⟨member, -, o, ho, rfl, -⟩ := h
    simp only [receiver?, target?, hcall, Option.bind_some, hk, if_true, htarget, hattribute, ho]
  · simp at h

theorem registers_of_decoratorSite? {site : Routing.Site}
    (h : Routing.decoratorSite? s groups decorated function d = some site) : s.registers d := by
  simp only [Routing.decoratorSite?, Option.bind_eq_bind, Option.bind_eq_some_iff] at h
  obtain ⟨call, hcall, h⟩ := h
  split at h
  · next hk =>
    simp only [Option.bind_eq_some_iff] at h
    obtain ⟨⟨object, name⟩, hmember, ⟨framework, group⟩, hgroup, -⟩ := h
    simp only [Routing.groupOf?, Option.bind_eq_bind, Option.bind_eq_some_iff] at hgroup
    obtain ⟨i, hi, hgroup⟩ := hgroup
    refine registers_of_receiver? (receiver?_of_calledMember? hcall hk hmember) hi ?_
    split at hgroup
    · next hrole => simp [Binding.Instance.takesFunctions, hrole, Catalog.Role.isRouteGroup]
    · simp at hgroup
  · simp at h

/-! ### Tools -/

theorem receiver?_of_memberOf? {member : String} {args : Arguments}
    (h : Tool.memberOf? d = some (member, object, args)) : receiver? d = some object := by
  have hmember : ∀ (target : Node) (args' : Arguments), (if target.kind = "attribute" then do
      let member ← target.childByField? "attribute"
      let object ← target.childByField? "object"
      pure (member.text, object, args')
    else none) = some (member, object, args) →
      (if target.kind = "attribute" then target.childByField? "object" else none)
        = some object := by
    intro target args' h
    split at h
    · next hattribute =>
      simp only [Option.bind_eq_bind, Option.bind_eq_some_iff, Option.pure_def,
        Option.some.injEq, Prod.mk.injEq] at h
      obtain ⟨m, -, o, ho, -, rfl, -⟩ := h
      rw [if_pos hattribute, ho]
    · simp at h
  unfold Tool.memberOf? at h
  unfold receiver? target?
  cases hexpr : d.firstNamed?.map stripParens with
  | none => simp [hexpr] at h
  | some expr =>
    by_cases hk : expr.kind = "call"
    · simp only [hexpr, Option.bind_eq_bind, Option.bind_some, hk, if_true] at h ⊢
      cases hfunction : expr.childByField? "function" with
      | none => simp [hfunction] at h
      | some function => exact hmember (stripParens function) _ (by simpa [hfunction] using h)
    · simp only [hexpr, Option.bind_eq_bind, Option.bind_some, hk, if_false] at h ⊢
      exact hmember expr _ h

theorem registers_of_ofDecorator? {tool : Tool}
    (h : Tool.ofDecorator? s decorated function d = some tool) : s.registers d := by
  simp only [Tool.ofDecorator?, Option.bind_eq_bind, Option.bind_eq_some_iff] at h
  obtain ⟨⟨member, object, args⟩, hmember, kind, -, i, hi, h⟩ := h
  split at h
  · next hserver =>
    refine registers_of_receiver? (receiver?_of_memberOf? hmember) hi ?_
    simp [Binding.Instance.takesFunctions, hserver]
  · simp at h

/-! ### All decorators -/

/-- What comes of registering decorators only comes of none of the others. -/
theorem filterMap_registers {β : Type} {f : Node → Option β} (l : List Node)
    (hf : ∀ d b, f d = some b → s.registers d) :
    (l.filter s.registers).filterMap f = l.filterMap f := by
  rw [List.filterMap_filter]
  refine List.filterMap_congr fun d _ => ?_
  split
  · rfl
  · next hno =>
    cases hd : f d with
    | none => rfl
    | some b => exact absurd (hf d b hd) hno

/-- **Registrations are settled.** Each node is visited; what the pass looks up at a visit has the
same result in the finished table. So a definition with a name is found with those decorators, in
source order, that are members of a route group or tool server of the file, and the routes and tools
read from them are those of all decorators of the definition. -/
theorem registrations_settled (hs : s.IsGrammatical) :
    (∀ n ∈ s.tree.nodes, ∃ w, Visit.Within s.catalog (Visit.start s.tree) w ∧ w.node = n) ∧
    (∀ w, Visit.Within s.catalog (Visit.start s.tree) w → w.IsSettled s.catalog s.table) ∧
    (∀ n ∈ s.tree.nodes, (Table.opens? n).isSome → (n.childByField? "name").isSome →
      ∃ D, s.table.definitionOf? n = some D ∧ D.node = n ∧
        D.registrations = (decoratorsUnder (s.tree.parent? n)).filter s.registers) ∧
    ∀ decorated ∈ s.tree.nodes, decorated.kind = "decorated_definition" →
      ∀ function, decorated.childByField? "definition" = some function →
      function.kind = "function_definition" → (function.childByField? "name").isSome →
      (∀ groups, Routing.decoratorSites s groups decorated
        = (decorators decorated).filterMap (Routing.decoratorSite? s groups decorated function)) ∧
      Tool.ofDecorated s decorated
        = (decorators decorated).filterMap (Tool.ofDecorator? s decorated function) := by
  have hdefinition : ∀ n ∈ s.tree.nodes, (Table.opens? n).isSome →
      (n.childByField? "name").isSome → ∃ D, s.table.definitionOf? n = some D ∧ D.node = n ∧
        D.registrations = (decoratorsUnder (s.tree.parent? n)).filter s.registers := by
    intro n hn hopens hname
    obtain ⟨name, hname⟩ := Option.isSome_iff_exists.mp hname
    rw [registers_eq, hs.table_eq]
    exact Binding.exists_definitionOf?_eq s.catalog hs.tree hn hopens hname
  refine ⟨fun n hn => Visit.Within.exists_of_mem_descendants s.catalog (Visit.start s.tree) hn,
    fun w hw => hs.table_eq ▸ Visit.isSettled hs.tree hw, hdefinition, ?_⟩
  intro decorated hdecorated hk function hfunction hfk hname
  have hchild : function ∈ decorated.children := List.mem_of_find?_eq_some hfunction
  have hparent := hs.tree.numbered.parent?_of_mem_children hdecorated hchild
  obtain ⟨D, hD, -, hregistrations⟩ := hdefinition function
    (Node.mem_descendants_trans hdecorated (Node.child_mem_descendants hchild))
    (by simp [Table.opens?, hfk]) hname
  rw [hparent, decoratorsUnder, if_pos hk] at hregistrations
  have hfilter : (decorated.childByField? "definition").filter
      (fun d => d.kind == "function_definition") = some function := by
    rw [hfunction, Option.filter_some, if_pos (by simp [hfk])]
  refine ⟨fun groups => ?_, ?_⟩
  · simp only [Routing.decoratorSites, hfilter, hD, hregistrations]
    exact filterMap_registers _ fun _ _ => registers_of_decoratorSite?
  · simp only [Tool.ofDecorated, hfilter, hD, hregistrations]
    exact filterMap_registers _ fun _ _ => registers_of_ofDecorator?

section Ping

open ApiSurface.Syntax (Tree)
open ApiSurface.Syntax.ParseTree

/-- A function with a decorator that registers it and one that does not. -/
def pingTree : Tree := Tree.lower
    "from fastapi import APIRouter\nr = APIRouter()\n@cached\n@r.get(\"/a\")\ndef f(): pass" <|
  rule "module" none 0 80 [
    rule "import_from_statement" none 0 29 [
      token "from" 0 4,
      rule "dotted_name" "module_name" 5 12 [rule "identifier" none 5 12 []],
      token "import" 13 19,
      rule "dotted_name" "name" 20 29 [rule "identifier" none 20 29 []]],
    rule "expression_statement" none 30 45 [
      rule "assignment" none 30 45 [
        rule "identifier" "left" 30 31 [],
        token "=" 32 33,
        rule "call" "right" 34 45 [
          rule "identifier" "function" 34 43 [],
          rule "argument_list" "arguments" 43 45 [token "(" 43 44, token ")" 44 45]]]],
    rule "decorated_definition" none 46 80 [
      rule "decorator" none 46 53 [token "@" 46 47, rule "identifier" none 47 53 []],
      rule "decorator" none 54 66 [
        token "@" 54 55,
        rule "call" none 55 66 [
          rule "attribute" "function" 55 60 [
            rule "identifier" "object" 55 56 [],
            token "." 56 57,
            rule "identifier" "attribute" 57 60 []],
          rule "argument_list" "arguments" 60 66 [
            token "(" 60 61,
            rule "string" none 61 65 [
              rule "string_start" none 61 62 [],
              rule "string_content" none 62 64 [],
              rule "string_end" none 64 65 []],
            token ")" 65 66]]],
      rule "function_definition" "definition" 67 80 [
        token "def" 67 70,
        rule "identifier" "name" 71 72 [],
        rule "parameters" "parameters" 72 74 [token "(" 72 73, token ")" 73 74],
        token ":" 74 75,
        rule "block" "body" 76 80 [rule "pass_statement" none 76 80 [token "pass" 76 80]]]]]

def ping : Source := .read (fun _ => pingTree) .builtin "ping.py" ""

def pingNode (i : Nat) : Node := (pingTree.node? i).getD default

theorem isGrammatical_ping : ping.IsGrammatical := ⟨rfl, by decide +kernel⟩

/-- The theorem applies to the function, which one of its two decorators registers. -/
theorem registrations_settled_ping :
    ping.IsGrammatical ∧
    (∃ D, ping.table.definitionOf? (pingNode 35) = some D ∧ D.registrations.map Node.id = [21]) ∧
    (decorators (pingNode 17)).map Node.id = [18, 21] ∧
    (Routing.decoratorSites ping [] (pingNode 17)).map
      (fun site => (site.handlerName, site.call.id)) = [("f", 23)] ∧
    (Tool.ofDecorated ping (pingNode 17)).length = 0 := by
  obtain ⟨-, -, hdefinition, hdecorated⟩ := registrations_settled isGrammatical_ping
  obtain ⟨D, hD, -, hregistrations⟩ := hdefinition (pingNode 35)
    (List.mem_of_getElem? (i := 35) (by rfl)) (by decide +kernel) (by decide +kernel)
  obtain ⟨hroutes, htools⟩ := hdecorated (pingNode 17) (List.mem_of_getElem? (i := 17) (by rfl))
    (by decide +kernel) (pingNode 35) (by rfl) (by decide +kernel) (by decide +kernel)
  refine ⟨isGrammatical_ping, ⟨D, hD, ?_⟩, by decide +kernel, ?_, ?_⟩
  · rw [hregistrations]
    decide +kernel
  · rw [hroutes]
    decide +kernel
  · rw [htools]
    decide +kernel

end Ping

end Source

end ApiSurface
