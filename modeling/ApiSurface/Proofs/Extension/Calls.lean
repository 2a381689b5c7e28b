import Mathlib.Data.List.Flatten
import ApiSurface.Proofs.Binding.Callees
import ApiSurface.Proofs.Binding.ImportPath
import ApiSurface.Proofs.Extension.Readings

/-!
# Request calls with a larger catalog

A call is taken for a call of a module's function before it is taken for a call of a client's
method. A larger catalog knows more modules; yet it takes no call from a client, since the name of a
client is bound to a value and so leads to no module
(`Source.IsWellPlaced.qualify_of_clientMethod?`). So each fact of a call is found again
(`Source.Extends.callFact?_of_some`).
-/

namespace ApiSurface

open ApiSurface.Syntax (Node)
open ApiSurface.Expr (stripParens stripAwait stripAwaitAux stripKind_mem_descendants
  stripAwait_mem_descendants)

namespace Binding

variable {t : Table} {catalog : Catalog} {object base : Node} {attrs : List String} {i : Instance}

/-- An object that is written as a chain of names is written as one name. -/
theorem base_of_resolve? (hi : t.resolve? catalog object = some i)
    (hchain : Table.chain? object = some (base, attrs)) :
    (stripAwait object).kind = "identifier" ∧ base = stripAwait object := by
  have hplain : (stripParens object).kind ≠ "await" → stripAwait object = stripParens object :=
    fun hk => by rw [stripAwait, stripAwaitAux, if_neg hk]
  rw [Table.chain?] at hchain
  dsimp only at hchain
  split at hchain
  · next hk =>
    -- a member of something is no object
    rw [Table.resolve?, hplain (by simp [hk])] at hi
    simp [hk] at hi
  · split at hchain
    · next hk =>
      rw [hplain (by simp [hk])]
      cases hchain
      exact ⟨hk, rfl⟩
    · cases hchain

/-- The name of an object leads to no module. -/
theorem headPath?_of_resolve? (hi : t.resolve? catalog object = some i)
    (hk : (stripAwait object).kind = "identifier") :
    t.headPath? (stripAwait object).text (t.scopeOf (stripAwait object))
      (stripAwait object).startByte = none := by
  rw [Table.resolve?, if_pos hk, Table.lookup] at hi
  rw [Table.headPath?]
  split at hi
  · next v hv => rw [hv]
  · next p hp => rw [hp]
  · cases hi

theorem headPath?_congr {name : String} {n m : Node} (h : t.lookup name n = t.lookup name m) :
    t.headPath? name (t.scopeOf n) n.startByte = t.headPath? name (t.scopeOf m) m.startByte := by
  rw [Table.lookup, Table.lookup] at h
  rw [Table.headPath?, Table.headPath?, h]

end Binding

namespace Source

variable {s s' : Source} {call function object : Node} {target : Http.Target}

/-- The table is that of the tree, which is well-placed. -/
structure IsWellPlaced (s : Source) : Prop where
  table_eq : s.table = Binding.Table.build s.tree s.catalog
  tree : Binding.IsWellPlaced s.tree

/-- What is called on an object has no path. -/
theorem IsWellPlaced.qualify_eq_none {attr : Node} {i : Binding.Instance} (hs : s.IsWellPlaced)
    (hcall : call ∈ s.tree.nodes) (hk : call.kind = "call")
    (hf : call.childByField? "function" = some function)
    (hfk : (stripParens function).kind = "attribute")
    (hattr : (stripParens function).childByField? "attribute" = some attr)
    (hobject : (stripParens function).childByField? "object" = some object)
    (hi : s.resolve? object = some i) : s.table.qualify (stripParens function) = none := by
  have hmember : stripParens function ∈ function.descendants := stripKind_mem_descendants _ function
  rw [Binding.Table.qualify, Binding.Table.qualifyAt,
    Binding.chain?_of_attribute hfk hattr hobject]
  cases hbase : Binding.Table.chain? object with
  | none => rfl
  | some found =>
    -- the name of the object is looked up at the member, which finds what it finds at the name
    obtain ⟨base, attrs⟩ := found
    obtain ⟨hbk, rfl⟩ := Binding.base_of_resolve? hi hbase
    have hlookup : s.table.lookup (stripAwait object).text (stripParens function)
        = s.table.lookup (stripAwait object).text (stripAwait object) := by
      rw [hs.table_eq]
      have hbelow := Node.mem_descendants_trans (Node.childByField?_mem_descendants hobject)
        (stripAwait_mem_descendants object)
      exact hs.tree.toHasPlainCalls.lookup_eq hcall hk hf hmember
        (Node.mem_descendants_trans hmember hbelow) _
    have hhead : s.table.headPath? (stripAwait object).text (s.table.scopeOf (stripParens function))
        (stripParens function).startByte = none :=
      (Binding.headPath?_congr hlookup).trans (Binding.headPath?_of_resolve? hi hbk)
    simp only [Option.map_some, Option.bind_eq_bind, Option.bind_some, hhead, Option.bind_none]

/-- What is called on a client is no function of a module. -/
theorem IsWellPlaced.qualify_of_clientMethod? (hs : s.IsWellPlaced) (hcall : call ∈ s.tree.nodes)
    (hk : call.kind = "call") (hf : call.childByField? "function" = some function)
    (h : Http.clientMethod? s (stripParens function) = some target) :
    s.table.qualify (stripParens function) = none := by
  simp only [Http.clientMethod?] at h
  split at h
  · next hfk =>
    simp only [Option.bind_eq_bind, Option.bind_eq_some_iff] at h
    obtain ⟨name, hname, h⟩ := h
    obtain ⟨attr, hattr, -⟩ := Option.map_eq_some_iff.mp hname
    split at h
    · simp only [Option.bind_eq_some_iff] at h
      obtain ⟨object, hobject, i, hi, -⟩ := h
      exact hs.qualify_eq_none hcall hk hf hfk hattr hobject hi
    · cases h
  · cases h

/-- **The fact of a call** is found again, and is the same. -/
theorem Extends.callFact?_of_some {fact : HttpCall} (h : s.Extends s') (hs : s.IsWellPlaced)
    (hcall : call ∈ s.tree.nodes) (hk : call.kind = "call")
    (hfact : Http.callFact? s call = some fact) : Http.callFact? s' call = some fact := by
  simp only [Http.callFact?, Option.bind_eq_bind, Option.bind_eq_some_iff] at hfact ⊢
  obtain ⟨member, hmember, target, htarget, hfact⟩ := hfact
  obtain ⟨function, hf, rfl⟩ := Option.map_eq_some_iff.mp hmember
  refine ⟨stripParens function, hmember, target, ?_, h.factOf_eq call target ▸ hfact⟩
  cases hmodule : Http.moduleFunction? s (stripParens function) with
  | some found =>
    rw [hmodule] at htarget
    rw [h.moduleFunction?_of_some hmodule]
    exact htarget
  | none =>
    have hclient : Http.clientMethod? s (stripParens function) = some target := by
      simpa [hmodule] using htarget
    -- the larger catalog has more modules, but there is no path to look up in them
    have hnone : Http.moduleFunction? s' (stripParens function) = none := by
      rw [Http.moduleFunction?, ← h.table.qualify_eq,
        hs.qualify_of_clientMethod? hcall hk hf hclient]
      rfl
    rw [hnone, h.clientMethod?_of_some hclient]
    rfl

/-- What is found among elements of a list is found in their order, together with whatever else is
found. -/
theorem filterMap_sublist {α β : Type} {f g : α → Option β} (l : List α)
    (hfg : ∀ a ∈ l, ∀ b, f a = some b → g a = some b) :
    (l.filterMap f).Sublist (l.filterMap g) := by
  rw [List.filterMap_eq_flatMap_toList, List.filterMap_eq_flatMap_toList]
  refine List.Sublist.flatMap_right l fun a ha => ?_
  cases hfa : f a with
  | none => exact List.nil_sublist _
  | some b => rw [hfg a ha b hfa]

/-- **Request calls** are found again, in their order. -/
theorem Extends.calls_sublist (h : s.Extends s') (hs : s.IsWellPlaced) :
    (Http.calls s).Sublist (Http.calls s') := by
  rw [Http.calls, Http.calls, ← h.tree_eq]
  refine filterMap_sublist _ fun call hcall fact => ?_
  obtain ⟨hmem, hk⟩ := List.mem_filter.mp hcall
  exact h.callFact?_of_some hs hmem (beq_iff_eq.mp hk)

end Source

end ApiSurface
