import ApiSurface.Proofs.Extension.Calls
import ApiSurface.Proofs.Routing.Decorators

/-!
# Decorators with a larger catalog

A larger catalog makes more decorators register what they decorate. Routes and tools are read from
the decorators that register, and a decorator that does not register gives none; so they are read
from all decorators alike (`Source.IsWellPlaced.registered_eq`), and every tool that is found
with the smaller catalog is found again (`Source.Extends.tools_sublist`).
-/

namespace ApiSurface.Source

open ApiSurface.Syntax (Node)
open ApiSurface.Binding (Table decorators)

variable {s s' : Source} {groups : List Routing.Constructed} {decorated : Node}

/-- The function with a name that a node decorates. -/
def namedFunction? (decorated : Node) : Option Node :=
  ((decorated.childByField? "definition").filter fun d => d.kind == "function_definition").filter
    fun function => (function.childByField? "name").isSome

namespace IsWellPlaced

/-- What is read from the decorators that the pass has kept is read from all decorators of a
function with a name. -/
theorem registered_eq {β : Type} (hs : s.IsWellPlaced) (hmem : decorated ∈ s.tree.nodes)
    (hk : decorated.kind = "decorated_definition") {f : Node → Node → Option β}
    (hf : ∀ function d b, f function d = some b → s.registers d) :
    (match (decorated.childByField? "definition").filter
        fun d => d.kind == "function_definition" with
      | some function =>
        match s.table.definitionOf? function with
        | some D => D.registrations.filterMap (f function)
        | none => []
      | none => [])
    = (namedFunction? decorated).toList.flatMap fun function =>
      (decorators decorated).filterMap (f function) := by
  rw [namedFunction?]
  cases hfunction : (decorated.childByField? "definition").filter
      fun d => d.kind == "function_definition" with
  | none => rfl
  | some function =>
    obtain ⟨hfield, hfk⟩ := Option.filter_eq_some_iff.mp hfunction
    have hchild : function ∈ decorated.children := List.mem_of_find?_eq_some hfield
    cases hname : function.childByField? "name" with
    | none => simp [Table.definitionOf?, hname, Option.filter_some]
    | some name =>
      have hfirst := hs.tree.toHasDecoratorsFirst
      obtain ⟨D, hD, -, hregistrations⟩ := hfirst.exists_definitionOf?_eq s.catalog
        (Node.mem_descendants_trans hmem (Node.child_mem_descendants hchild))
        (by simp [Table.opens?, beq_iff_eq.mp hfk]) hname
      rw [hfirst.numbered.parent?_of_mem_children hmem hchild, Binding.decoratorsUnder, if_pos hk,
        ← hs.table_eq, ← registers_eq] at hregistrations
      rw [← hs.table_eq] at hD
      simp only [hD, hregistrations, filterMap_registers _ (hf function), Option.filter_some, hname,
        Option.isSome_some, if_true, Option.toList_some, List.flatMap_singleton]

theorem decoratorSites_eq (hs : s.IsWellPlaced) (hmem : decorated ∈ s.tree.nodes)
    (hk : decorated.kind = "decorated_definition") : Routing.decoratorSites s groups decorated
      = (namedFunction? decorated).toList.flatMap fun function =>
        (decorators decorated).filterMap (Routing.decoratorSite? s groups decorated function) :=
  hs.registered_eq hmem hk fun _ _ _ => registers_of_decoratorSite?

theorem ofDecorated_eq (hs : s.IsWellPlaced) (hmem : decorated ∈ s.tree.nodes)
    (hk : decorated.kind = "decorated_definition") : Tool.ofDecorated s decorated
      = (namedFunction? decorated).toList.flatMap fun function =>
        (decorators decorated).filterMap (Tool.ofDecorator? s decorated function) :=
  hs.registered_eq hmem hk fun _ _ _ => registers_of_ofDecorator?

end IsWellPlaced

/-- **Tools** are found again, in their order. -/
theorem Extends.tools_sublist (h : s.Extends s') (hs : s.IsWellPlaced)
    (hs' : s'.IsWellPlaced) : (Tool.all s).Sublist (Tool.all s') := by
  rw [Tool.all, Tool.all, ← h.tree_eq]
  refine List.Sublist.flatMap_right _ fun decorated hmem => ?_
  obtain ⟨hmem, hk⟩ := List.mem_filter.mp hmem
  rw [hs.ofDecorated_eq hmem (beq_iff_eq.mp hk),
    hs'.ofDecorated_eq (h.tree_eq ▸ hmem) (beq_iff_eq.mp hk)]
  exact List.Sublist.flatMap_right _ fun function _ =>
    filterMap_sublist _ fun d _ tool => h.ofDecorator?_of_some

end ApiSurface.Source
