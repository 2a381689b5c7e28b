import ApiSurface.Proofs.Binding.Callees

/-!
# Places of calls

A call of a name starts with the name, and so do the attribute chains and parentheses around it
(`HasNamesInFront`). So whatever starts where such a call starts is the call itself, or a part of
what it calls, and no call stands there (`HasNamesInFront.lt_of_chain?`). Calls that lie apart start
apart, since they are not empty.

Together no two calls of names start at one place (`HasNamesInFront.eq_of_startByte_eq`). Values
with roles come from such calls (`Source.hasCallsApart` uses both).
-/

namespace ApiSurface

namespace Syntax.Node

variable {n m c b : Node} {before rest : List Node} {f : String}

/-- The first child of the node has the role, if any child has it. -/
def LeadsWith (n : Node) (field : String) : Prop :=
  (n.childByField? field).isSome → ∀ c ∈ n.children.head?, c.field = some field

instance (n : Node) (field : String) : Decidable (n.LeadsWith field) :=
  inferInstanceAs (Decidable (_ → _))

theorem LeadsWith.exists_children_eq (h : n.LeadsWith f) (hc : n.childByField? f = some c) :
    ∃ rest, n.children = c :: rest := by
  have hhead := h (by rw [hc]; rfl)
  rw [childByField?] at hc
  cases hchildren : n.children with
  | nil => simp [hchildren] at hc
  | cons d rest =>
    have hd : d.field = some f := hhead d (by rw [hchildren]; rfl)
    rw [hchildren, List.find?_cons_of_pos (by simp [hd])] at hc
    exact ⟨rest, by rw [Option.some.inj hc]⟩

/-- What stands behind a first child that is not empty starts behind the start of the node. -/
theorem lt_of_behind_first (hlaid : ∀ k ∈ n.descendants, k.IsLaidOut)
    (hfirst : n.children = b :: rest) (hne : b.startByte < b.endByte) (hc : c ∈ rest)
    (hm : m ∈ c.descendants) : n.startByte < m.startByte := by
  have hn := hlaid n n.self_mem_descendants
  have hb : b ∈ n.children := hfirst ▸ List.mem_cons_self
  have hcn : c ∈ n.children := hfirst ▸ List.mem_cons_of_mem b hc
  have hstart := (hn.inside b hb).1
  have horder := hn.inOrder
  rw [hfirst] at horder
  have hbehind := (List.pairwise_cons.mp horder).1 c hc
  have hin := encloses_of_mem_descendants
    (fun k hk => hlaid k (mem_descendants_of_mem_children hcn hk)) hm
  omega

/-- One of two nodes lies at or below the other one, or one lies before the other one. -/
theorem below_or_apart (hlaid : ∀ k ∈ n.descendants, k.IsLaidOut) {x y : Node}
    (hx : x ∈ n.descendants) (hy : y ∈ n.descendants) :
    x ∈ y.descendants ∨ y ∈ x.descendants ∨ x.endByte ≤ y.startByte ∨ y.endByte ≤ x.startByte := by
  induction n using rec_children with
  | step n ih =>
    rcases mem_descendants_iff.mp hx with rfl | ⟨c, hc, hxc⟩
    · exact .inr (.inl hy)
    rcases mem_descendants_iff.mp hy with rfl | ⟨d, hd, hyd⟩
    · exact .inl hx
    have hbelow : ∀ {c}, c ∈ n.children → ∀ k ∈ c.descendants, k.IsLaidOut :=
      fun hc k hk => hlaid k (mem_descendants_of_mem_children hc hk)
    have horder : c = d ∨ c.endByte ≤ d.startByte ∨ d.endByte ≤ c.startByte := by
      obtain ⟨before, after, hsplit⟩ := List.append_of_mem hc
      have hpairwise := (hlaid n n.self_mem_descendants).inOrder
      rw [hsplit, List.pairwise_append, List.pairwise_cons] at hpairwise
      obtain ⟨-, ⟨hafter, -⟩, hbefore⟩ := hpairwise
      rw [hsplit, List.mem_append, List.mem_cons] at hd
      rcases hd with hd | rfl | hd
      · exact .inr (.inr (hbefore d hd c List.mem_cons_self))
      · exact .inl rfl
      · exact .inr (.inl (hafter d hd))
    have hinc := encloses_of_mem_descendants (hbelow hc) hxc
    have hind := encloses_of_mem_descendants (hbelow hd) hyd
    rcases horder with rfl | hle | hle
    · exact ih c hc (hbelow hc) hxc hyd
    · exact .inr (.inr (.inl (by omega)))
    · exact .inr (.inr (.inr (by omega)))

end Syntax.Node

open ApiSurface.Syntax (Node Tree)

namespace Binding

variable {tree : Tree} {catalog : Catalog} {n m f base X Y : Node} {attrs : List String}

/-- A tree with its nodes nested and in order, in which calls, attributes and parentheses start as
the grammar has it: with what is called, with the object, and with a bracket. Names are leaves, and
the name that a call starts with is not empty. -/
structure HasNamesInFront (tree : Tree) : Prop where
  laidOut : ∀ n ∈ tree.nodes, n.IsLaidOut
  functionFirst : ∀ n ∈ tree.nodes, n.kind = "call" → n.LeadsWith "function"
  objectFirst : ∀ n ∈ tree.nodes, n.kind = "attribute" → n.LeadsWith "object"
  bracketFirst : ∀ n ∈ tree.nodes, n.kind = "parenthesized_expression" → ∀ b ∈ n.children.head?,
    b.kind ≠ "call" ∧ b.children.isEmpty ∧ b.startByte < b.endByte
  nameAlone : ∀ n ∈ tree.nodes, n.kind = "identifier" → n.children.isEmpty
  nameNonempty : ∀ n ∈ tree.nodes, n.kind = "call" → ∀ f ∈ n.childByField? "function",
    ∀ c ∈ Table.chain? f, c.1.startByte < c.1.endByte

instance (tree : Tree) : Decidable (HasNamesInFront tree) :=
  decidable_of_iff
    ((∀ n ∈ tree.nodes, n.IsLaidOut) ∧
      (∀ n ∈ tree.nodes, n.kind = "call" → n.LeadsWith "function") ∧
      (∀ n ∈ tree.nodes, n.kind = "attribute" → n.LeadsWith "object") ∧
      (∀ n ∈ tree.nodes, n.kind = "parenthesized_expression" → ∀ b ∈ n.children.head?,
        b.kind ≠ "call" ∧ b.children.isEmpty ∧ b.startByte < b.endByte) ∧
      (∀ n ∈ tree.nodes, n.kind = "identifier" → n.children.isEmpty) ∧
      ∀ n ∈ tree.nodes, n.kind = "call" → ∀ f ∈ n.childByField? "function",
        ∀ c ∈ Table.chain? f, c.1.startByte < c.1.endByte)
    ⟨fun ⟨h₁, h₂, h₃, h₄, h₅, h₆⟩ => ⟨h₁, h₂, h₃, h₄, h₅, h₆⟩,
      fun h => ⟨h.laidOut, h.functionFirst, h.objectFirst, h.bracketFirst, h.nameAlone,
        h.nameNonempty⟩⟩

/-! ### Chains of attributes -/

/-- A chain of attributes is a name, an attribute of a chain, or something between brackets. -/
theorem chain?_cases (h : Table.chain? f = some (base, attrs)) :
    (f.kind = "identifier" ∧ base = f) ∨
    (f.kind = "attribute" ∧ ∃ object attrs', f.childByField? "object" = some object ∧
      Table.chain? object = some (base, attrs')) ∨
    (f.kind = "parenthesized_expression" ∧ f.children ≠ []) := by
  by_cases hparens : f.kind = "parenthesized_expression"
  · refine .inr (.inr ⟨hparens, fun hnil => ?_⟩)
    have hnamed : f.firstNamed? = none := by simp [Node.firstNamed?, Node.namedChildren, hnil]
    have hstrip : Expr.stripParens f = f := by
      rw [Expr.stripParens, Expr.stripKind, if_pos hparens]
      split
      · next hsome => simp [hnamed] at hsome
      · rfl
    rw [Table.chain?] at h
    simp [hstrip, hparens] at h
  · have hstrip : Expr.stripParens f = f := Expr.stripKind_of_ne hparens
    rw [Table.chain?] at h
    simp only [hstrip] at h
    split at h
    · next hattribute =>
      split at h
      · next attr object _ hobject =>
        obtain ⟨⟨base', attrs'⟩, hchain, heq⟩ := Option.map_eq_some_iff.mp h
        obtain ⟨rfl, -⟩ := Prod.mk.inj heq
        exact .inr (.inl ⟨hattribute, object, attrs', hstrip ▸ hobject, hchain⟩)
      · cases h
    · split at h
      · next hidentifier => exact .inl ⟨hidentifier, (Prod.mk.inj (Option.some.inj h)).1.symm⟩
      · cases h

namespace HasNamesInFront

/-- A chain whose name is not empty is not empty, and calls in it start behind its start. -/
theorem lt_of_chain? (h : HasNamesInFront tree) (hf : f ∈ tree.nodes)
    (hchain : Table.chain? f = some (base, attrs)) (hbase : base.startByte < base.endByte) :
    f.startByte < f.endByte ∧
      ∀ m ∈ f.descendants, m.kind = "call" → f.startByte < m.startByte := by
  induction f using Node.rec_children generalizing attrs with
  | step f ih =>
    have hlaid : ∀ k ∈ f.descendants, k.IsLaidOut :=
      fun k hk => h.laidOut k (Node.mem_descendants_trans hf hk)
    have hself := hlaid f f.self_mem_descendants
    rcases chain?_cases hchain with ⟨hk, rfl⟩ | ⟨hk, object, attrs', hobject, hchain'⟩ | ⟨hk, hne⟩
    · refine ⟨hbase, fun m hm hcall => ?_⟩
      have hleaf : base.children = [] := List.isEmpty_iff.mp (h.nameAlone base hf hk)
      rcases Node.mem_descendants_iff.mp hm with rfl | ⟨c, hc, -⟩
      · simp [hk] at hcall
      · simp [hleaf] at hc
    · obtain ⟨rest, hrest⟩ := (h.objectFirst f hf hk).exists_children_eq hobject
      have hmem : object ∈ f.children := hrest ▸ List.mem_cons_self
      have hin := hself.inside object hmem
      obtain ⟨hlt, hbehind⟩ := ih object hmem
        (Node.mem_descendants_trans hf (Node.child_mem_descendants hmem)) hchain'
      refine ⟨by omega, fun m hm hcall => ?_⟩
      rcases Node.mem_descendants_iff.mp hm with rfl | ⟨c, hc, hm⟩
      · simp [hk] at hcall
      · rcases List.mem_cons.mp (hrest ▸ hc) with rfl | hc
        · exact Nat.lt_of_le_of_lt hin.1 (hbehind m hm hcall)
        · exact Node.lt_of_behind_first hlaid hrest hlt hc hm
    · obtain ⟨b, rest, hrest⟩ := List.exists_cons_of_ne_nil hne
      obtain ⟨hcall, hleaf, hlt⟩ := h.bracketFirst f hf hk b (by rw [hrest]; rfl)
      have hin := hself.inside b (hrest ▸ List.mem_cons_self)
      refine ⟨by omega, fun m hm hmcall => ?_⟩
      rcases Node.mem_descendants_iff.mp hm with rfl | ⟨c, hc, hm⟩
      · simp [hk] at hmcall
      · rcases List.mem_cons.mp (hrest ▸ hc) with rfl | hc
        · rcases Node.mem_descendants_iff.mp hm with rfl | ⟨d, hd, -⟩
          · exact absurd hmcall hcall
          · simp [List.isEmpty_iff.mp hleaf] at hd
        · exact Node.lt_of_behind_first hlaid hrest hlt hc hm

/-- A call of a name is not empty, and no other call in it starts where it does. -/
theorem eq_of_mem_descendants (h : HasNamesInFront tree) (hX : X ∈ tree.nodes)
    (hnamed : IsNamedCall X) : X.startByte < X.endByte ∧
      ∀ m ∈ X.descendants, m.kind = "call" → m.startByte = X.startByte → m = X := by
  obtain ⟨hk, hchain⟩ := hnamed
  obtain ⟨f, hf, hchain⟩ := Option.any_eq_true _ _ |>.mp hchain
  obtain ⟨⟨base, attrs⟩, hchain⟩ := Option.isSome_iff_exists.mp hchain
  have hlaid : ∀ k ∈ X.descendants, k.IsLaidOut :=
    fun k hk => h.laidOut k (Node.mem_descendants_trans hX hk)
  obtain ⟨rest, hrest⟩ := (h.functionFirst X hX hk).exists_children_eq hf
  have hmem : f ∈ X.children := hrest ▸ List.mem_cons_self
  have hin := (hlaid X X.self_mem_descendants).inside f hmem
  obtain ⟨hlt, hbehind⟩ := h.lt_of_chain?
    (Node.mem_descendants_trans hX (Node.child_mem_descendants hmem)) hchain
    (h.nameNonempty X hX hk f hf _ hchain)
  refine ⟨by omega, fun m hm hcall hstart => ?_⟩
  rcases Node.mem_descendants_iff.mp hm with rfl | ⟨c, hc, hm⟩
  · rfl
  · -- whatever else is called starts behind the start of the call
    have hgt : X.startByte < m.startByte := by
      rcases List.mem_cons.mp (hrest ▸ hc) with rfl | hc
      · exact Nat.lt_of_le_of_lt hin.1 (hbehind m hm hcall)
      · exact Node.lt_of_behind_first hlaid hrest hlt hc hm
    exact absurd hstart (Nat.ne_of_gt hgt)

/-- **Calls of names start at different places.** -/
theorem eq_of_startByte_eq (h : HasNamesInFront tree) (hX : X ∈ tree.nodes) (hY : Y ∈ tree.nodes)
    (hXcall : IsNamedCall X) (hYcall : IsNamedCall Y) (heq : X.startByte = Y.startByte) :
    X = Y := by
  obtain ⟨hXlt, hXbelow⟩ := h.eq_of_mem_descendants hX hXcall
  obtain ⟨hYlt, hYbelow⟩ := h.eq_of_mem_descendants hY hYcall
  rcases Node.below_or_apart h.laidOut hX hY with hin | hin | hle | hle
  · exact hYbelow X hin hXcall.1 heq
  · exact (hXbelow Y hin hYcall.1 heq.symm).symm
  · omega
  · omega

end HasNamesInFront

/-! ### Values with roles -/

/-- A node of the tree that calls a name. -/
def IsNamedCallIn (tree : Tree) (X : Node) (_ : Option String) : Prop :=
  X ∈ tree.nodes ∧ IsNamedCall X

namespace Table

variable {t : Table} {name : String} {scope : Nat}

theorem isNamedCallIn_boundToCall {call statement : Node} (hmem : call ∈ tree.nodes)
    (hk : call.kind = "call") :
    (t.boundToCall catalog name call statement scope).HasOrigin (IsNamedCallIn tree) := by
  refine hasOrigin_boundToCall fun f path hf hq => ⟨hmem, hk, ?_⟩
  rw [qualifyAt, Option.bind_eq_bind, Option.bind_eq_some_iff] at hq
  obtain ⟨found, hchain, -⟩ := hq
  rw [hf, Option.any_some, hchain]
  rfl

end Table

/-- **Values with callees** come from calls of names, whatever the tree looks like. -/
theorem isNamedCallIn_of_has {e : Entry} (he : (Table.build tree catalog).Has e) :
    e.bound.HasOrigin (IsNamedCallIn tree) := by
  suffices hall : ∀ e, ((Visit.start tree).result catalog).Has e →
      e.bound.HasOrigin (IsNamedCallIn tree) from hall e he
  clear he
  refine (Visit.start tree).forall_has_result (fun e he => absurd he (Visit.not_has_start tree e))
    fun w hw ht e he => ?_
  have hnode := hw.node_mem_descendants
  have hadds : w.placed.Adds w.scope (fun e => e.bound.HasOrigin (IsNamedCallIn tree))
      (w.recorded catalog) := by
    refine Table.adds_record_hasOrigin (fun _ name right hright => ?_)
      fun _ before item after hsplit expr target hparts hcall => ?_
    · have hmem := Node.mem_descendants_trans hnode (Node.mem_descendants_trans
        (isBelow_of_assignedValue? hright).mem_descendants
        (Expr.stripAwait_mem_descendants right))
      exact Table.hasOrigin_boundToValue (Table.isNamedCallIn_boundToCall hmem) ht
    · have hitem : item ∈ withItemsAll w.node.children := by simp [hsplit]
      exact Table.isNamedCallIn_boundToCall (Node.mem_descendants_trans hnode
        (Node.mem_descendants_trans (isBelow_of_mem_withItemsAll hitem).mem_descendants
          (Node.mem_descendants_trans (mem_descendants_of_withParts? hparts)
            (Expr.stripAwait_mem_descendants expr)))) hcall
  have hrecorded : (w.recorded catalog).Has e → e.bound.HasOrigin (IsNamedCallIn tree) :=
    fun he => (hadds.has he).elim (ht e) id
  rcases w.entered_cases catalog with ⟨-, heq⟩ | ⟨kind, -, hparams⟩
  · exact hrecorded (heq ▸ he)
  · rcases hparams.has he with he | ⟨-, -, -, p, hp⟩
    · exact hrecorded (Table.has_of_openScope he)
    · exact hasOrigin_of_ne fun v hv => nomatch hp.symm.trans hv

/-- A value with a role comes from a call of a name. -/
theorem isNamedCallIn_of_mem_roleValues {v : Value}
    (hv : v ∈ (Table.build tree catalog).roleValues) :
    v.origin ∈ tree.nodes ∧ IsNamedCall v.origin := by
  obtain ⟨e, he, hbound, hrole⟩ := exists_has_of_mem_roleValues hv
  refine isNamedCallIn_of_has he v hbound ?_
  rw [role_of_has he hbound] at hrole
  cases hcallee : v.callee with
  | none => simp [hcallee] at hrole
  | some callee => rfl

end Binding

end ApiSurface
