import ApiSurface.Extract
import ApiSurface.Proofs.Binding.CatalogExtension

/-!
# Readings with a larger catalog

A file is read with two catalogs of which the second one extends the first (`Source.Extends`). What
is read of annotations, parameters, responses and handlers does not depend on roles, so both
readings are the same: types (`Source.Extends.normalize_eq`), routes at a site
(`Source.Extends.routeAt_eq`), and the facts of a call to a known target
(`Source.Extends.factOf_eq`).
-/

namespace ApiSurface

open ApiSurface.Syntax (Node)
open ApiSurface.Binding (cases_of_rel knows)

/-- The second source is the same file with a catalog that extends that of the first. -/
structure Source.Extends (s s' : Source) : Prop where
  path_eq : s.path = s'.path
  parse_eq : s.parse = s'.parse
  tree_eq : s.tree = s'.tree
  table : s.table.Matches s.catalog s'.catalog s'.table
  catalog : s.catalog.Extends s'.catalog

theorem Source.extends_read {c c' : Catalog} (hc : c.Extends c') (parse : String → Syntax.Tree)
    (path text : String) :
    (Source.read parse c path text).Extends (Source.read parse c' path text) :=
  ⟨rfl, rfl, rfl, Binding.Table.matches_build _ c c', hc⟩

namespace Source.Extends

variable {s s' : Source} {n : Node}

/-- An object that the first catalog knows is found with both. -/
theorem resolve?_eq_filter (h : s.Extends s') (n : Node) :
    s.resolve? n = (s'.resolve? n).filter fun i => knows s.catalog i.constructor :=
  h.table.resolve?_eq_filter h.catalog n

theorem resolve?_of_some (h : s.Extends s') {i : Binding.Instance} (hi : s.resolve? n = some i) :
    s'.resolve? n = some i ∧ knows s.catalog i.constructor := by
  rw [h.resolve?_eq_filter, Option.filter_eq_some_iff] at hi
  exact hi

theorem resolve?_of_knows (h : s.Extends s') {i : Binding.Instance} (hi : s'.resolve? n = some i)
    (hknows : knows s.catalog i.constructor) : s.resolve? n = some i := by
  rw [h.resolve?_eq_filter, Option.filter_eq_some_iff]
  exact ⟨hi, hknows⟩

/-! ### Types -/

section Types

open TypeHint

variable {below below' : Below} {look : Look}

theorem anchorOf_eq (h : s.Extends s') (look : Look) (n : Node) :
    anchorOf s look n = anchorOf s' look n := by
  rw [anchorOf, anchorOf, h.table.scopeOf_eq]

theorem pathOf?_eq (h : s.Extends s') (text : String) (a : Anchor) :
    pathOf? s text a = pathOf? s' text a := by
  simp only [pathOf?, h.table.headPath?_eq]

theorem ofName_eq (h : s.Extends s') (look : Look) (n : Node) :
    ofName s below look n = ofName s' below look n := by
  simp only [ofName, h.anchorOf_eq, h.pathOf?_eq]
  split
  · rfl
  · generalize anchorOf s' look n = a
    rcases cases_of_rel (h.table.lookupAt (Text.compactString n.text) a.scope a.pos) with
      ⟨hl, hl'⟩ | ⟨b, b', hl, hl', hb⟩ <;> rw [hl, hl']
    cases hb <;> rfl

theorem ofQuoted_eq (h : s.Extends s') (look : Look) (n : Node) :
    ofQuoted s below look n = ofQuoted s' below look n := by
  simp only [ofQuoted, h.parse_eq, h.anchorOf_eq]

theorem ofSubscript_eq (h : s.Extends s') (look : Look) (n : Node) :
    ofSubscript s below look n = ofSubscript s' below look n := by
  simp only [ofSubscript, h.anchorOf_eq, h.pathOf?_eq]

theorem ofCall_eq (h : s.Extends s') (look : Look) (n : Node) :
    ofCall s below look n = ofCall s' below look n := by
  simp only [ofCall, h.anchorOf_eq, h.pathOf?_eq]

theorem readWithin_eq (h : s.Extends s') (depth : Nat) :
    readWithin s depth = readWithin s' depth := by
  induction depth with
  | zero => rfl
  | succ depth ih =>
    funext look n
    simp only [readWithin, level, ih, h.ofName_eq, h.ofQuoted_eq, h.ofSubscript_eq, h.ofCall_eq]

/-- **Types** are read alike. -/
theorem normalize_eq (h : s.Extends s') : TypeHint.normalize s = TypeHint.normalize s' :=
  funext fun n => by rw [TypeHint.normalize, TypeHint.normalize, h.readWithin_eq]

theorem constraintsIn_eq (h : s.Extends s') (n : Node) :
    constraintsIn s n = constraintsIn s' n := by
  have hcall : callConstraints? s = callConstraints? s' := funext fun n => by
    simp only [callConstraints?, h.table.qualify_eq]
  rw [constraintsIn, constraintsIn, hcall]

end Types

/-! ### Routes -/

section Routes

open Routing

theorem marker?_eq (h : s.Extends s') (default hint : Option Node) :
    marker? s default hint = marker? s' default hint := by
  have hmarked : markedSource? s = markedSource? s' := funext fun n => by
    simp only [markedSource?, h.table.qualify_eq]
  simp only [marker?, hmarked]

theorem handlerParameters_eq (h : s.Extends s') (framework : Framework) (path : List Placeholder)
    (handler : Node) :
    handlerParameters s framework path handler = handlerParameters s' framework path handler := by
  have hqualify : s.table.qualify = s'.table.qualify := funext h.table.qualify_eq
  have hinjected : isInjected s = isInjected s' := funext fun hint => by
    rw [isInjected, isInjected, hqualify]
  have hparameter : handlerParameter? s framework path = handlerParameter? s' framework path :=
    funext fun param => by
      simp only [handlerParameter?, hinjected, h.marker?_eq, h.normalize_eq, h.constraintsIn_eq]
  rw [handlerParameters, handlerParameters, hparameter]

theorem metadataOf_eq (h : s.Extends s') (args : Expr.Arguments) :
    metadataOf s args = metadataOf s' args := by
  have hentry : addResponseEntry s = addResponseEntry s' := funext fun r => funext fun entry => by
    simp only [addResponseEntry, h.normalize_eq]
  have hresponses : responsesOf s = responsesOf s' := funext fun n => by
    rw [responsesOf, responsesOf, hentry]
  rw [metadataOf, metadataOf, hresponses]

/-- **A site** gives one route. -/
theorem routeAt_eq (h : s.Extends s') (site : Site) : routeAt s site = routeAt s' site := by
  simp only [routeAt, responseType?, h.path_eq, h.handlerParameters_eq, h.metadataOf_eq,
    h.normalize_eq]

theorem handlerDefinition?_eq (h : s.Extends s') (expr : Node) :
    handlerDefinition? s expr = handlerDefinition? s' expr := by
  have hdefinition : ∀ t : Binding.Table, ∀ name site,
      ((t.definition? name site).bind fun d =>
        if d.node.kind = "function_definition" then some d.node else none)
      = ((t.definition? name site).map (·.node)).bind fun d =>
        if d.kind = "function_definition" then some d else none := fun t name site => by
    rw [Option.bind_map]
    rfl
  simp only [handlerDefinition?, Option.bind_eq_bind, Option.pure_def, hdefinition,
    h.table.definition?_map_node]

end Routes

/-! ### Tools -/

theorem signature_eq (h : s.Extends s') (function : Node) (docParams : List (String × String)) :
    Tool.signature s function docParams = Tool.signature s' function docParams := by
  have hqualify : s.table.qualify = s'.table.qualify := funext h.table.qualify_eq
  have hcontext : Tool.isContext s = Tool.isContext s' := funext fun hint => by
    rw [Tool.isContext, Tool.isContext, hqualify]
  have hparameter : Tool.parameter? s docParams = Tool.parameter? s' docParams :=
    funext fun param => by simp only [Tool.parameter?, hcontext, h.normalize_eq]
  rw [Tool.signature, Tool.signature, hparameter]

/-- **A tool** that is found with the first catalog is found with the second one. -/
theorem ofDecorator?_of_some (h : s.Extends s') {decorated function d : Node} {tool : Tool}
    (htool : Tool.ofDecorator? s decorated function d = some tool) :
    Tool.ofDecorator? s' decorated function d = some tool := by
  simp only [Tool.ofDecorator?, Option.bind_eq_bind, Option.bind_eq_some_iff] at htool ⊢
  obtain ⟨member, hmember, kind, hkind, i, hi, htool⟩ := htool
  refine ⟨member, hmember, kind, hkind, i, (h.resolve?_of_some hi).1, ?_⟩
  simpa only [h.path_eq, h.signature_eq, h.normalize_eq] using htool

/-! ### Calls -/

section Calls

open Http

theorem responseUsage_eq (h : s.Extends s') (call variableNode : Node) :
    responseUsage s call variableNode = responseUsage s' call variableNode := by
  have hread : attributeRead? s call variableNode.text
      = attributeRead? s' call variableNode.text := by
    funext n
    simp only [attributeRead?]
    split
    · split
      · next object attr _ _ =>
        split
        · rcases cases_of_rel (h.table.lookup variableNode.text object) with
            ⟨hl, hl'⟩ | ⟨b, b', hl, hl', hb⟩ <;> rw [hl, hl']
          cases hb <;> rfl
        · rfl
      · rfl
    · rfl
  rw [responseUsage, responseUsage, h.table.scopeOf_eq, h.table.scopeNode?_eq, hread]

/-- **A call** of one target is one fact. -/
theorem factOf_eq (h : s.Extends s') (call : Node) (target : Target) :
    factOf s call target = factOf s' call target := by
  simp only [factOf, h.path_eq, h.tree_eq, h.responseUsage_eq]

theorem moduleFunction?_of_some (h : s.Extends s') {function : Node} {target : Target}
    (htarget : moduleFunction? s function = some target) :
    moduleFunction? s' function = some target := by
  simp only [moduleFunction?, Option.bind_eq_bind, Option.bind_eq_some_iff] at htarget ⊢
  obtain ⟨path, hpath, parts, hparts, htarget⟩ := htarget
  refine ⟨path, h.table.qualify_eq function ▸ hpath, parts, hparts, ?_⟩
  split at htarget
  · next hname =>
    obtain ⟨library, hlibrary, htarget⟩ := Option.bind_eq_some_iff.mp htarget
    rw [if_pos hname, h.catalog.httpModules _ library hlibrary]
    exact htarget
  · cases htarget

theorem clientMethod?_of_some (h : s.Extends s') {function : Node} {target : Target}
    (htarget : clientMethod? s function = some target) :
    clientMethod? s' function = some target := by
  simp only [clientMethod?] at htarget ⊢
  split at htarget
  · next hk =>
    rw [if_pos hk]
    simp only [Option.bind_eq_bind, Option.bind_eq_some_iff] at htarget ⊢
    obtain ⟨name, hname, htarget⟩ := htarget
    refine ⟨name, hname, ?_⟩
    split at htarget
    · next hrequest =>
      rw [if_pos hrequest]
      simp only [Option.bind_eq_some_iff] at htarget ⊢
      obtain ⟨object, hobject, i, hi, htarget⟩ := htarget
      exact ⟨object, hobject, i, (h.resolve?_of_some hi).1, htarget⟩
    · cases htarget
  · cases htarget

end Calls

end Source.Extends

end ApiSurface
