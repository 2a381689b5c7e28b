import ApiSurface.Proofs.Binding.Registrations

/-!
# Look-ups inside expressions

Bindings start and end to be visible at the bounds of statements, of items of `with` statements and
of the parts of headers. In a tree that is laid out, such a node stands around an expression or
beside it, so no binding starts or ends to be visible inside one (`isSteady_of_isExpression`). All
names in an expression are looked up alike, wherever they stand in it
(`IsExpression.lookupAt_eq`).
-/

namespace ApiSurface.Syntax.Node

variable {r n m : Node}

/-- Two nodes of a tree that is laid out stand one below the other, or one before the other. -/
theorem nested_or_apart (hr : ∀ k ∈ r.descendants, k.IsLaidOut) (hn : n ∈ r.descendants)
    (hm : m ∈ r.descendants) : n ∈ m.descendants ∨ m ∈ n.descendants ∨
      n.endByte ≤ m.startByte ∨ m.endByte ≤ n.startByte := by
  induction r using rec_children with
  | step r ih =>
    rcases mem_descendants_iff.mp hn with rfl | ⟨c, hc, hnc⟩
    · exact .inr (.inl hm)
    · rcases mem_descendants_iff.mp hm with rfl | ⟨d, hd, hmd⟩
      · exact .inl hn
      · have hbelow : ∀ c ∈ r.children, ∀ k ∈ c.descendants, k.IsLaidOut := fun c hc k hk =>
          hr k (mem_descendants_of_mem_children hc hk)
        have hn' := encloses_of_mem_descendants (hbelow c hc) hnc
        have hm' := encloses_of_mem_descendants (hbelow d hd) hmd
        have hord := (hr r r.self_mem_descendants).inOrder
        obtain ⟨before, after, hsplit⟩ := List.append_of_mem hc
        rw [hsplit, List.pairwise_append, List.pairwise_cons] at hord
        rw [hsplit, List.mem_append, List.mem_cons] at hd
        rcases hd with hd | rfl | hd
        · have hdc := hord.2.2 d hd c List.mem_cons_self
          exact .inr (.inr (.inr (Nat.le_trans hm'.2 (Nat.le_trans hdc hn'.1))))
        · exact ih d hc (hbelow d hc) hnc hmd
        · have hcd := hord.2.1.1 d hd
          exact .inr (.inr (.inl (Nat.le_trans hn'.2 (Nat.le_trans hcd hm'.1))))

end ApiSurface.Syntax.Node

namespace ApiSurface.Binding

open ApiSurface.Syntax (Node Tree)

variable {tree : Tree} {catalog : Catalog} {e : Entry} {n m : Node} {name : String} {p q : Nat}

/-- No statement that binds names stands at or below the node, and no item of a `with` statement. -/
def IsExpression (n : Node) : Prop :=
  ∀ m ∈ n.descendants, isBinder m = false ∧ m.kind ≠ "with_item"

instance (n : Node) : Decidable (IsExpression n) :=
  inferInstanceAs (Decidable (∀ m ∈ n.descendants, isBinder m = false ∧ m.kind ≠ "with_item"))

theorem IsExpression.bindsNothing (h : IsExpression n) : BindsNothing n := fun m hm => (h m hm).1

theorem IsExpression.below (h : IsExpression n) (hm : m ∈ n.descendants) : IsExpression m :=
  fun k hk => h k (Node.mem_descendants_trans hm hk)

/-! ### Where bindings start and end -/

/-- The nodes that bindings start or end to be visible with. -/
inductive IsMark (tree : Tree) (n : Node) : Prop
  | statement (hb : isBinder n = true)
  | item (hk : n.kind = "with_item")
  | header {m : Node} (hm : m ∈ tree.nodes) (hb : isBinder m = true) (hn : n ∈ m.children)

/-- The binding starts and ends to be visible where marks start or end. -/
def Entry.IsMarked (tree : Tree) (e : Entry) : Prop :=
  ∀ b, e.IsBoundary b → ∃ n ∈ tree.nodes, IsMark tree n ∧ (b = n.startByte ∨ b = n.endByte)

theorem kind_of_mem_withItems (h : m ∈ withItems n) : m.kind = "with_item" := by
  induction n using Node.rec_children with
  | step n ih =>
    rw [withItems_eq, List.mem_append] at h
    rcases h with h | h
    · split at h
      · next hk => exact List.mem_singleton.mp h ▸ hk
      · simp at h
    · split at h
      · simp at h
      · rw [withItemsAll_eq_flatMap] at h
        obtain ⟨c, hc, h⟩ := List.mem_flatMap.mp h
        exact ih c hc h

/-- What a statement binds starts and ends to be visible with marks. -/
theorem Table.Recorded.isMarked {t : Table} {parent : Option Node} {scope : Nat}
    (h : t.Recorded catalog parent n scope e) (hn : n ∈ tree.nodes) (hb : isBinder n = true) :
    e.IsMarked tree := by
  have hend : ∀ name bound, Entry.IsMarked tree ⟨name, n.endByte, none, bound⟩ := by
    rintro name bound b (rfl | hb')
    · exact ⟨n, hn, .statement hb, .inr rfl⟩
    · simp at hb'
  have hitem : ∀ item name bound, item ∈ withItemsAll n.children →
      Entry.IsMarked tree ⟨name, item.endByte, some n.endByte, bound⟩ := by
    rintro item name bound hmem b (rfl | hb')
    · have hbelow := (isBelow_of_mem_withItemsAll hmem).mem_descendants
      rw [withItemsAll_eq_flatMap] at hmem
      obtain ⟨c, -, hmem⟩ := List.mem_flatMap.mp hmem
      exact ⟨item, Node.mem_descendants_trans hn hbelow, .item (kind_of_mem_withItems hmem),
        .inr rfl⟩
    · exact ⟨n, hn, .statement hb, .inr (Option.some.inj hb').symm⟩
  cases h with
  | imported | declared | assigned | unpacked | typeStatement | definition => exact hend _ _
  | itemCall u hk hmem => exact hitem _ _ _ hmem
  | itemValue name v hk hmem => exact hitem _ _ _ hmem
  | @loopTarget left name v hk hleft =>
    rintro b (rfl | hb')
    · have hc : left ∈ n.children := List.mem_of_find?_eq_some hleft
      exact ⟨left, Node.mem_descendants_trans hn (Node.child_mem_descendants hc),
        .header hn hb hc, .inr rfl⟩
    · simp at hb'

/-- All bindings of a finished table start and end to be visible with marks. -/
theorem isMarked_build (he : (Table.build tree catalog).Has e) : e.IsMarked tree := by
  refine (Visit.start tree).forall_has_result (P := Entry.IsMarked tree)
    (fun e he => absurd he (Visit.not_has_start tree e)) (fun w hw ht e he => ?_) e he
  have hn := hw.node_mem_descendants
  have hrecorded : (w.recorded catalog).Has e → e.IsMarked tree := fun he => by
    cases hb : isBinder w.node with
    | true => exact (w.recorded_adds.has he).elim (ht e) fun h => h.isMarked hn hb
    | false =>
      rw [Visit.recorded, Table.record_of_not_isBinder hb] at he
      exact ht e he
  rcases w.entered_cases catalog with ⟨-, heq⟩ | ⟨kind, hopens, hadds⟩
  · exact hrecorded (heq ▸ he)
  · rcases hadds.has he with he | ⟨rfl, ⟨list, hlist, hfrom⟩, huntil, -⟩
    · exact hrecorded (Table.has_of_openScope he)
    · rintro b (rfl | hb)
      · have hc : list ∈ w.node.children := List.mem_of_find?_eq_some hlist
        have hb : isBinder w.node = true := by
          simp only [isBinder, Table.compound_of_opens? hopens, Bool.or_true]
        exact ⟨list, Node.mem_descendants_trans hn (Node.child_mem_descendants hc),
          .header hn hb hc, .inl hfrom⟩
      · simp [huntil] at hb

/-! ### Expressions -/

/-- No mark stands below an expression. -/
theorem IsMark.eq_of_mem_descendants (hnum : tree.IsNumbered) (hmark : IsMark tree m)
    (hn : n ∈ tree.nodes) (hexpr : IsExpression n) (hmn : m ∈ n.descendants) : m = n := by
  cases hmark with
  | statement hb => simp [(hexpr m hmn).1] at hb
  | item hk => exact absurd hk (hexpr m hmn).2
  | @header k hk hb hmk =>
    rcases Node.mem_descendants_iff_child.mp hmn with rfl | ⟨k', hk', hmk'⟩
    · rfl
    · have hparent := hnum.parent?_of_mem_children hk hmk
      have hparent' := hnum.parent?_of_mem_children (Node.mem_descendants_trans hn hk') hmk'
      obtain rfl := Option.some.inj (hparent.symm.trans hparent')
      simp [(hexpr k hk').1] at hb

/-- **Bindings are steady in expressions.** -/
theorem isSteady_of_isExpression (hreg : IsRegular tree.root) (hnum : tree.IsNumbered)
    (he : (Table.build tree catalog).Has e) (hn : n ∈ tree.nodes) (hexpr : IsExpression n) :
    e.IsSteady n := by
  refine Entry.isSteady_of_boundaries fun b hb => ?_
  obtain ⟨m, hm, hmark, hbound⟩ := isMarked_build he b hb
  have hlaid : ∀ k ∈ tree.root.descendants, k.IsLaidOut := fun k hk => (hreg k hk).1
  have hforwards := (hlaid m hm).forwards
  -- the mark is the expression, lies around it, behind it or in front of it; never inside
  rcases Node.nested_or_apart hlaid hm hn with hmn | hnm | hapart | hapart
  · obtain rfl := hmark.eq_of_mem_descendants hnum hn hexpr hmn
    omega
  · have hin := (hreg.below hm).encloses hnm
    omega
  · omega
  · omega

namespace IsExpression

/-- Names are looked up alike all over an expression. -/
theorem lookupAt_eq (hreg : IsRegular tree.root) (hnum : tree.IsNumbered) (hn : n ∈ tree.nodes)
    (hexpr : IsExpression n) (hp : Covers n p) (hq : Covers n q) (name : String) (scope : Nat) :
    (Table.build tree catalog).lookupAt name scope p
      = (Table.build tree catalog).lookupAt name scope q := by
  refine Table.findFrom_congr (Table.isChronological_build hreg catalog) fun j s _ hs => ?_
  have hsame : s.find? name p = s.find? name q := Scope.find?_congr fun e he =>
    isSteady_of_isExpression hreg hnum ⟨j, s, hs, he⟩ hn hexpr p q hp hq
  rw [Table.own, Table.own, hsame]

/-- All of an expression belongs to one scope. -/
theorem scopeOf_eq (hreg : IsRegular tree.root) (hnum : tree.IsNumbered) (hn : n ∈ tree.nodes)
    (hexpr : IsExpression n) (hm : m ∈ n.descendants) :
    (Table.build tree catalog).scopeOf m = (Table.build tree catalog).scopeOf n := by
  obtain ⟨w, hw, rfl⟩ := Visit.Within.exists_of_mem_descendants catalog (Visit.start tree) hn
  obtain ⟨v, hv, rfl⟩ := Visit.Within.exists_of_mem_descendants catalog w hm
  rw [Visit.scopeOf_eq hreg hnum (hw.trans hv), Visit.scopeOf_eq hreg hnum hw,
    hv.scope_eq hexpr.bindsNothing]

end IsExpression

end ApiSurface.Binding
