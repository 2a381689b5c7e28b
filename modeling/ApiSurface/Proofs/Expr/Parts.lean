import ApiSurface.Expr.Arguments
import ApiSurface.Proofs.Syntax.Layout

/-!
# Parts of expressions

What an expression is without its wrappers, and the arguments of a call, lie at or below the node
that they are taken from.
-/

namespace ApiSurface.Expr

open ApiSurface.Syntax (Node)

variable {n c : Node}

/-! ### Wrappers -/

theorem stripKind_of_ne {kind : String} (h : n.kind ≠ kind) : stripKind kind n = n := by
  rw [stripKind, if_neg h]

theorem stripKind_stripKind (kind : String) (n : Node) :
    stripKind kind (stripKind kind n) = stripKind kind n := by
  fun_induction stripKind kind n with
  | case1 n hk inner h ih => exact ih
  | case2 n hk h =>
    rw [stripKind, if_pos hk]
    split
    · next inner h' => simp [h] at h'
    · rfl
  | case3 n hk => exact stripKind_of_ne hk

/-- No annotation is wrapped inside parentheses in the grammar. -/
theorem stripType_stripType (h : (stripType n).kind ≠ "type") :
    stripType (stripType n) = stripType n := by
  rw [stripType, stripKind_of_ne h]
  exact stripKind_stripKind _ _

theorem stripKind_of_firstNamed? {kind : String} (hk : n.kind = kind)
    (h : n.firstNamed? = some c) : stripKind kind n = stripKind kind c := by
  rw [stripKind, if_pos hk]
  split
  · next inner h' => rw [Option.some.inj (h'.symm.trans h)]
  · next h' => simp [h] at h'

/-- What is neither wrapped nor in parentheses is left as it is. -/
theorem stripType_of_ne (hk : n.kind ≠ "type") (hk' : n.kind ≠ "parenthesized_expression") :
    stripType n = n := by
  rw [stripType, stripKind_of_ne hk]
  exact stripKind_of_ne hk'

/-- The wrapper around annotations is looked through. -/
theorem stripType_of_type (hk : n.kind = "type") (h : n.firstNamed? = some c) :
    stripType n = stripType c := by
  rw [stripType, stripKind_of_firstNamed? hk h, stripType]

/-- So are parentheses around what is not wrapped. -/
theorem stripType_of_parens (hk : n.kind = "parenthesized_expression") (hc : c.kind ≠ "type")
    (h : n.firstNamed? = some c) : stripType n = stripType c := by
  have hn : n.kind ≠ "type" := by simp [hk]
  rw [stripType, stripType, stripKind_of_ne hn, stripKind_of_ne hc]
  exact stripKind_of_firstNamed? hk h

theorem stripKind_mem_descendants (kind : String) (n : Node) :
    stripKind kind n ∈ n.descendants := by
  fun_induction stripKind kind n with
  | case1 n hk inner h ih =>
    exact Node.mem_descendants_trans
      (Node.namedChild_mem_descendants (List.mem_of_head? h)) ih
  | case2 n => exact n.self_mem_descendants
  | case3 n => exact n.self_mem_descendants

theorem stripType_mem_descendants (n : Node) : stripType n ∈ n.descendants :=
  Node.mem_descendants_trans (stripKind_mem_descendants "type" n)
    (stripKind_mem_descendants "parenthesized_expression" _)

theorem stripAwaitAux_mem_descendants (n : Node) : stripAwaitAux n ∈ n.descendants := by
  fun_induction stripAwaitAux n with
  | case1 n hk inner h ih =>
    exact Node.mem_descendants_trans (Node.namedChild_mem_descendants (List.mem_of_head? h))
      (Node.mem_descendants_trans (stripKind_mem_descendants _ inner) ih)
  | case2 n => exact n.self_mem_descendants
  | case3 n => exact n.self_mem_descendants

theorem stripAwait_mem_descendants (n : Node) : stripAwait n ∈ n.descendants :=
  Node.mem_descendants_trans (stripKind_mem_descendants "parenthesized_expression" n)
    (stripAwaitAux_mem_descendants _)

namespace Arguments

/-! ### Arguments -/

theorem mem_descendants_of_add {args : Arguments}
    (hp : ∀ a ∈ args.positional, a ∈ n.descendants)
    (hk : ∀ k ∈ args.keywords, k.2 ∈ n.descendants) (hc : c ∈ n.descendants) :
    (∀ a ∈ (args.add c).positional, a ∈ n.descendants) ∧
      ∀ k ∈ (args.add c).keywords, k.2 ∈ n.descendants := by
  rw [add]
  split
  · split
    · next name value hname hvalue =>
      refine ⟨hp, fun k hmem => ?_⟩
      rcases List.mem_append.mp hmem with hmem | hmem
      · exact hk k hmem
      · rw [List.mem_singleton.mp hmem]
        exact Node.mem_descendants_trans hc (Node.childByField?_mem_descendants hvalue)
    · exact ⟨hp, hk⟩
  · exact ⟨hp, hk⟩
  · exact ⟨hp, hk⟩
  · refine ⟨fun a hmem => ?_, hk⟩
    rcases List.mem_append.mp hmem with hmem | hmem
    · exact hp a hmem
    · exact List.mem_singleton.mp hmem ▸ hc

/-- The arguments of a call lie inside it. -/
theorem mem_descendants_of_ofCall :
    (∀ a ∈ (ofCall n).positional, a ∈ n.descendants) ∧
      ∀ k ∈ (ofCall n).keywords, k.2 ∈ n.descendants := by
  rw [ofCall]
  split
  · next list hlist =>
    have hin := Node.childByField?_mem_descendants hlist
    rw [ofList]
    split
    · refine List.foldlRecOn (motive := fun args : Arguments =>
        (∀ a ∈ args.positional, a ∈ n.descendants) ∧ ∀ k ∈ args.keywords, k.2 ∈ n.descendants)
        _ _ (by simp [empty]) fun args hargs c hc => ?_
      exact mem_descendants_of_add hargs.1 hargs.2
        (Node.mem_descendants_trans hin (Node.namedChild_mem_descendants hc))
    · simpa [empty] using hin
  · simp [empty]

theorem mem_descendants_of_get? {i : Nat} {name : String} (h : (ofCall n).get? i name = some c) :
    c ∈ n.descendants := by
  rw [get?, Option.orElse_eq_orElse, Option.orElse_eq_or, Option.or_eq_some_iff] at h
  rcases h with h | ⟨-, h⟩
  · obtain ⟨k, hk, rfl⟩ := Option.map_eq_some_iff.mp h
    exact mem_descendants_of_ofCall.2 k (List.mem_of_find?_eq_some hk)
  · exact mem_descendants_of_ofCall.1 c (List.mem_of_getElem? h)

end Arguments

end ApiSurface.Expr
