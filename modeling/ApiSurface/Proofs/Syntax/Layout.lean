import ApiSurface.Syntax.Tree

/-!
# The layout of syntax trees

In the tree of a source text the children of a node lie inside it and follow one another
(`Node.IsLaidOut`). Where that holds at every node, each node lies inside all nodes above it
(`Node.encloses_of_mem_descendants`).

`Node.rec_children` is the induction on trees that the later modules use: a statement about a node
may be taken for granted of its children. `ParseTree.rule` and `ParseTree.token` write down the
trees of short texts.
-/

namespace ApiSurface.Syntax.Node

variable {n m c : Node}

/-- **Induction on trees**, from the children of a node to the node. -/
theorem rec_children {motive : Node → Prop}
    (step : ∀ n : Node, (∀ c ∈ n.children, motive c) → motive n) (n : Node) : motive n :=
  step n fun c _ => rec_children step c
termination_by sizeOf n
decreasing_by exact sizeOf_lt_of_mem_children ‹_›

/-! ### Nodes below a node -/

theorem descendantsAll_eq_flatMap (l : List Node) : descendantsAll l = l.flatMap descendants := by
  induction l with
  | nil => rfl
  | cons n l ih => rw [descendantsAll, ih, List.flatMap_cons]

theorem descendants_eq_cons (n : Node) :
    n.descendants = n :: n.children.flatMap descendants := by
  cases n with
  | mk i l t cs => rw [descendants, descendantsAll_eq_flatMap, children]

theorem mem_descendants_iff : m ∈ n.descendants ↔ m = n ∨ ∃ c ∈ n.children, m ∈ c.descendants := by
  rw [descendants_eq_cons, List.mem_cons, List.mem_flatMap]

theorem self_mem_descendants (n : Node) : n ∈ n.descendants := mem_descendants_iff.mpr (.inl rfl)

theorem mem_descendants_of_mem_children (hc : c ∈ n.children) (hm : m ∈ c.descendants) :
    m ∈ n.descendants :=
  mem_descendants_iff.mpr (.inr ⟨c, hc, hm⟩)

theorem child_mem_descendants (hc : c ∈ n.children) : c ∈ n.descendants :=
  mem_descendants_of_mem_children hc c.self_mem_descendants

theorem namedChild_mem_descendants (hc : c ∈ n.namedChildren) : c ∈ n.descendants :=
  child_mem_descendants (List.mem_filter.mp hc).1

theorem childByField?_mem_descendants {f : String} (hc : n.childByField? f = some c) :
    c ∈ n.descendants :=
  child_mem_descendants (List.mem_of_find?_eq_some hc)

theorem mem_descendants_trans (hm : m ∈ n.descendants) (hc : c ∈ m.descendants) :
    c ∈ n.descendants := by
  induction n using rec_children with
  | step n ih =>
    rcases mem_descendants_iff.mp hm with rfl | ⟨k, hk, hm⟩
    · exact hc
    · exact mem_descendants_of_mem_children hk (ih k hk hm)

/-- A node below another one is the child of some node. -/
theorem mem_descendants_iff_child :
    m ∈ n.descendants ↔ m = n ∨ ∃ p ∈ n.descendants, m ∈ p.children := by
  refine ⟨fun hm => ?_, ?_⟩
  · induction n using rec_children with
    | step n ih =>
      rcases mem_descendants_iff.mp hm with rfl | ⟨c, hc, hm⟩
      · exact .inl rfl
      · rcases ih c hc hm with rfl | ⟨p, hp, hm⟩
        · exact .inr ⟨n, n.self_mem_descendants, hc⟩
        · exact .inr ⟨p, mem_descendants_of_mem_children hc hp, hm⟩
  · rintro (rfl | ⟨p, hp, hm⟩)
    · exact m.self_mem_descendants
    · exact mem_descendants_trans hp (child_mem_descendants hm)

/-- The first node stands somewhere below the second one. -/
def IsBelow (m n : Node) : Prop := ∃ c ∈ n.children, m ∈ c.descendants

theorem IsBelow.mem_descendants (h : m.IsBelow n) : m ∈ n.descendants :=
  mem_descendants_iff.mpr (.inr h)

theorem isBelow_of_mem_children (h : c ∈ n.children) : c.IsBelow n :=
  ⟨c, h, c.self_mem_descendants⟩

theorem IsBelow.of_mem_descendants (h : m.IsBelow n) (hc : c ∈ m.descendants) : c.IsBelow n := by
  obtain ⟨k, hk, hm⟩ := h
  exact ⟨k, hk, mem_descendants_trans hm hc⟩

theorem IsBelow.above (h : c.IsBelow m) (hm : m ∈ n.descendants) : c.IsBelow n := by
  rcases mem_descendants_iff.mp hm with rfl | ⟨k, hk, hm⟩
  · exact h
  · exact ⟨k, hk, mem_descendants_trans hm h.mem_descendants⟩

/-! ### Layout -/

/-- The span of the node runs forwards, and its children lie inside it and follow one another. -/
structure IsLaidOut (n : Node) : Prop where
  forwards : n.startByte ≤ n.endByte
  inside : ∀ c ∈ n.children, n.startByte ≤ c.startByte ∧ c.endByte ≤ n.endByte
  inOrder : n.children.Pairwise fun a b => a.endByte ≤ b.startByte

instance (n : Node) : Decidable n.IsLaidOut :=
  decidable_of_iff (n.startByte ≤ n.endByte ∧
    (∀ c ∈ n.children, n.startByte ≤ c.startByte ∧ c.endByte ≤ n.endByte) ∧
    n.children.Pairwise fun a b => a.endByte ≤ b.startByte)
    ⟨fun ⟨h₁, h₂, h₃⟩ => ⟨h₁, h₂, h₃⟩, fun h => ⟨h.forwards, h.inside, h.inOrder⟩⟩

/-- What lies below a node lies inside it where children lie inside their parents. -/
theorem encloses_of_inside (h : ∀ m ∈ n.descendants, ∀ c ∈ m.children,
      m.startByte ≤ c.startByte ∧ c.endByte ≤ m.endByte)
    (hm : m ∈ n.descendants) : n.startByte ≤ m.startByte ∧ m.endByte ≤ n.endByte := by
  induction n using rec_children with
  | step n ih =>
    rcases mem_descendants_iff.mp hm with rfl | ⟨c, hc, hmc⟩
    · exact ⟨Nat.le_refl _, Nat.le_refl _⟩
    · have hchild := h n (self_mem_descendants n) c hc
      have hbelow := ih c hc (fun k hk => h k (mem_descendants_of_mem_children hc hk)) hmc
      exact ⟨Nat.le_trans hchild.1 hbelow.1, Nat.le_trans hbelow.2 hchild.2⟩

/-- What lies below a node lies inside it. -/
theorem encloses_of_mem_descendants (h : ∀ m ∈ n.descendants, m.IsLaidOut)
    (hm : m ∈ n.descendants) : n.startByte ≤ m.startByte ∧ m.endByte ≤ n.endByte :=
  encloses_of_inside (fun k hk => (h k hk).inside) hm

end ApiSurface.Syntax.Node

namespace ApiSurface.Syntax.Tree

variable {t : Tree} {n m : Node}

/-- Children lie inside their parents, and no node but the root is empty. -/
structure IsNested (t : Tree) : Prop where
  inside : ∀ n ∈ t.nodes, ∀ c ∈ n.children, n.startByte ≤ c.startByte ∧ c.endByte ≤ n.endByte
  nonempty : ∀ n ∈ t.nodes, ∀ c ∈ n.children, c.startByte < c.endByte

instance (t : Tree) : Decidable t.IsNested :=
  decidable_of_iff
    ((∀ n ∈ t.nodes, ∀ c ∈ n.children, n.startByte ≤ c.startByte ∧ c.endByte ≤ n.endByte) ∧
      ∀ n ∈ t.nodes, ∀ c ∈ n.children, c.startByte < c.endByte)
    ⟨fun ⟨h₁, h₂⟩ => ⟨h₁, h₂⟩, fun h => ⟨h.inside, h.nonempty⟩⟩

theorem IsNested.encloses (h : t.IsNested) (hn : n ∈ t.nodes) (hm : m ∈ n.descendants) :
    n.startByte ≤ m.startByte ∧ m.endByte ≤ n.endByte :=
  Node.encloses_of_inside (fun k hk => h.inside k (Node.mem_descendants_trans hn hk)) hm

theorem IsNested.lt_of_isBelow (h : t.IsNested) (hn : n.IsBelow t.root) :
    n.startByte < n.endByte := by
  obtain ⟨c, hc, hn⟩ := hn
  rcases Node.mem_descendants_iff_child.mp hn with rfl | ⟨p, hp, hn⟩
  · exact h.nonempty t.root t.root.self_mem_descendants n hc
  · exact h.nonempty p (Node.mem_descendants_of_mem_children hc hp) n hn

end ApiSurface.Syntax.Tree

namespace ApiSurface.Syntax.ParseTree

/-- A rule of the grammar between two offsets. Rows and columns are those of a text of one line. -/
def rule (kind : String) (field : Option String) (first last : Nat) (children : List ParseTree) :
    ParseTree :=
  node ⟨kind, field, true, false, false, ⟨first, last, 1, first + 1, 1, last + 1⟩⟩ children

/-- A token between two offsets. Rows and columns are those of a text of one line. -/
def token (spelling : String) (first last : Nat) : ParseTree :=
  node ⟨spelling, none, false, false, false, ⟨first, last, 1, first + 1, 1, last + 1⟩⟩ []

end ApiSurface.Syntax.ParseTree
