import Mathlib.Data.List.Lex
import Mathlib.Data.List.Perm.Subperm
import Mathlib.Logic.Relation
import ApiSurface.Proofs.Syntax.Lowering

/-!
# Arenas in pre-order

What it means that an arena holds a parse tree in pre-order is said of the arena alone
(`Arena.IsPreorderOf`): which labels are met along which paths, that the numbers run as the paths do
in lexicographic order, that parents and children name each other, and what the list of the
descendants of a node is.

The tree that a parse tree is lowered to has such an arena (`Tree.isPreorderOf_arena_lower`), and
so the walk of a cursor leaves it behind (`Cursor.Walks.lower?_isPreorderOf`). A node of a numbered
tree and its slot say the same; its descendants have numbers in a row (`Node.IsRun`). The stack from
which they are listed holds nodes whose subtrees are still to come, the next one last
(`Tree.IsNumbered.lists_arena`).
-/

namespace ApiSurface.Syntax

/-! ### What an arena says -/

namespace Arena

/-- The node that a path from the node `id` leads to, following the lists of children. -/
def follow? (a : Arena) (id : Nat) : List Nat → Option Nat
  | [] => if id < a.size then some id else none
  | i :: path => (a.children id)[i]?.bind fun child => a.follow? child path

/-- The first node is the second one, or parents lead from it there. -/
def IsUnder (a : Arena) : Nat → Nat → Prop :=
  Relation.ReflTransGen fun child above => a.parent? child = some above

/-- **An arena that holds a parse tree in pre-order.** -/
structure IsPreorderOf (a : Arena) (t : ParseTree) : Prop where
  /-- The nodes have the numbers from zero on. -/
  size_eq : a.size = t.size
  /-- The paths from node zero are those of the tree, and they lead to nodes with its labels. -/
  label_follow? : ∀ path, (a.follow? 0 path).bind (fun id => a.slots[id]?.map Slot.label) =
    (t.subtree? path).map ParseTree.label
  /-- Every number is that of a node of the tree. -/
  exists_path : ∀ id < a.size, ∃ path, a.follow? 0 path = some id
  /-- A node comes before those below it, and these come child by child. -/
  lt_iff_lt : ∀ {path path' id id'}, a.follow? 0 path = some id → a.follow? 0 path' = some id' →
    (id < id' ↔ path < path')
  /-- A node names another one as its child where this one names it as its parent. -/
  mem_children_iff : ∀ {child above}, child ∈ a.children above ↔ a.parent? child = some above
  /-- The children of a node are listed in source order. -/
  ascending_children : ∀ id, (a.children id).toList.Pairwise (· < ·)
  /-- The descendants of a node are a run of numbers from its own on, those of its subtree. -/
  descendants?_eq : ∀ id < a.size, ∃ below, a.descendants? id = some (List.range' id (below + 1)) ∧
    ∀ m, m ∈ List.range' id (below + 1) ↔ a.IsUnder m id

end Arena

/-! ### Paths to nodes -/

/-- The children of a numbered tree are numbered themselves. -/
theorem ParseTree.getElem?_numberAll (source : String) (k : Nat) (ts : List ParseTree) (i : Nat) :
    ∃ k', (numberAll source k ts)[i]? = ts[i]?.map (number source k') := by
  induction ts generalizing k i with
  | nil => exact ⟨k, rfl⟩
  | cons t ts ih =>
    cases i with
    | zero => exact ⟨k, rfl⟩
    | succ i => exact ih (k + t.size) i

namespace Node

variable {n m m' : Node} {path path' : List Nat}

/-- The node that a path leads to. -/
def at? (n : Node) : List Nat → Option Node
  | [] => some n
  | i :: path => n.children[i]?.bind fun c => c.at? path

theorem at?_cons_eq_some {i : Nat} (h : n.at? (i :: path) = some m) :
    ∃ c, n.children[i]? = some c ∧ c.at? path = some m := Option.bind_eq_some_iff.mp h

theorem mem_descendants_of_at? (h : n.at? path = some m) : m ∈ n.descendants := by
  induction path generalizing n with
  | nil => exact Option.some.inj h ▸ n.self_mem_descendants
  | cons i path ih =>
    obtain ⟨c, hc, hm⟩ := at?_cons_eq_some h
    exact mem_descendants_of_mem_children (List.mem_of_getElem? hc) (ih hm)

theorem exists_at?_of_mem_descendants (h : m ∈ n.descendants) : ∃ path, n.at? path = some m := by
  induction n using rec_children with
  | step n ih =>
    rcases mem_descendants_iff.mp h with rfl | ⟨c, hc, hm⟩
    · exact ⟨[], rfl⟩
    · obtain ⟨i, hi⟩ := List.getElem?_of_mem hc
      obtain ⟨path, hpath⟩ := ih c hc hm
      exact ⟨i :: path, by rw [at?, hi]; exact hpath⟩

/-- A path leads to the same label in a parse tree and in the numbered tree. -/
theorem label_at?_number (source : String) (k : Nat) (t : ParseTree) (path : List Nat) :
    ((t.number source k).at? path).map label = (t.subtree? path).map ParseTree.label := by
  induction path generalizing k t with
  | nil => cases t; rfl
  | cons i path ih =>
    cases t with
    | node l ts =>
      obtain ⟨k', hk'⟩ := ParseTree.getElem?_numberAll source (k + 1) ts i
      rw [at?, ParseTree.subtree?, ParseTree.number, children, ParseTree.children, hk']
      cases ts[i]? with
      | none => rfl
      | some u => exact ih k' u

/-! ### Numbers in a row -/

/-- The node and those below it have numbers in a row, in pre-order. -/
def IsRun (n : Node) : Prop := n.descendants.map id = List.range' n.id n.descendants.length

theorem isRun_of_map_id {first count : Nat} (h : n.descendants.map id = List.range' first count) :
    n.IsRun := by
  have hcount : n.descendants.length = count := by
    rw [← List.length_map id, h, List.length_range']
  have hfirst : n.id = first := by
    have hhead := congrArg List.head? h
    rw [descendants_eq_cons, List.map_cons, List.head?_cons, List.head?_range'] at hhead
    split at hhead
    · cases hhead
    · exact Option.some.inj hhead
  rw [IsRun, hcount, hfirst, h]

theorem IsRun.child (h : n.IsRun) (hc : m ∈ n.children) : m.IsRun := by
  obtain ⟨before, after, hsplit⟩ := List.append_of_mem hc
  rw [IsRun, descendants_eq_cons, hsplit, List.flatMap_append, List.flatMap_cons,
    ← List.cons_append, List.map_append, List.map_append] at h
  obtain ⟨k, -, -, hrest⟩ := List.range'_eq_append_iff.mp h.symm
  obtain ⟨k', -, hrun, -⟩ := List.range'_eq_append_iff.mp hrest.symm
  exact isRun_of_map_id hrun

theorem IsRun.of_mem_descendants (h : n.IsRun) (hm : m ∈ n.descendants) : m.IsRun := by
  induction n using rec_children with
  | step n ih =>
    rcases mem_descendants_iff.mp hm with rfl | ⟨c, hc, hm⟩
    · exact h
    · exact ih c hc (h.child hc) hm

theorem IsRun.pairwise (h : n.IsRun) : (n.descendants.map id).Pairwise (· < ·) := by
  rw [h]
  exact List.pairwise_lt_range'

/-- A node comes before those below it. -/
theorem IsRun.lt_of_isBelow (h : n.IsRun) (hm : m.IsBelow n) : n.id < m.id := by
  have hpairwise := h.pairwise
  rw [descendants_eq_cons, List.map_cons, List.pairwise_cons] at hpairwise
  exact hpairwise.1 m.id (List.mem_map_of_mem (List.mem_flatMap.mpr hm))

/-- What lies below a child comes before what lies below a later child. -/
theorem IsRun.pairwise_children (h : n.IsRun) :
    n.children.Pairwise fun c c' =>
      ∀ m ∈ c.descendants, ∀ m' ∈ c'.descendants, m.id < m'.id := by
  have hpairwise := h.pairwise
  rw [descendants_eq_cons, List.map_cons, List.pairwise_cons, List.pairwise_map,
    List.pairwise_flatMap] at hpairwise
  exact hpairwise.2.2

theorem IsRun.lt_of_lt {i j : Nat} {c c' : Node} (h : n.IsRun) (hc : n.children[i]? = some c)
    (hc' : n.children[j]? = some c') (hij : i < j) (hm : m ∈ c.descendants)
    (hm' : m' ∈ c'.descendants) : m.id < m'.id := by
  obtain ⟨hi, rfl⟩ := List.getElem?_eq_some_iff.mp hc
  obtain ⟨hj, rfl⟩ := List.getElem?_eq_some_iff.mp hc'
  exact List.pairwise_iff_getElem.mp h.pairwise_children i j hi hj hij m hm m' hm'

/-- **Pre-order.** Numbers run as paths do in lexicographic order. -/
theorem IsRun.lt_iff_lt (h : n.IsRun) (hm : n.at? path = some m) (hm' : n.at? path' = some m') :
    m.id < m'.id ↔ path < path' := by
  induction path generalizing n path' with
  | nil =>
    obtain rfl : n = m := Option.some.inj hm
    cases path' with
    | nil =>
      obtain rfl : n = m' := Option.some.inj hm'
      simp
    | cons j path' =>
      obtain ⟨c', hc', hm'⟩ := at?_cons_eq_some hm'
      have hbelow : m'.IsBelow n := ⟨c', List.mem_of_getElem? hc', mem_descendants_of_at? hm'⟩
      exact iff_of_true (h.lt_of_isBelow hbelow) (List.nil_lt_cons j path')
  | cons i path ih =>
    obtain ⟨c, hc, hm⟩ := at?_cons_eq_some hm
    have hmc : m ∈ c.descendants := mem_descendants_of_at? hm
    cases path' with
    | nil =>
      obtain rfl : n = m' := Option.some.inj hm'
      have hlt := h.lt_of_isBelow ⟨c, List.mem_of_getElem? hc, hmc⟩
      exact iff_of_false (Nat.lt_asymm hlt) (List.not_lt_nil _)
    | cons j path' =>
      obtain ⟨c', hc', hm'⟩ := at?_cons_eq_some hm'
      have hmc' : m' ∈ c'.descendants := mem_descendants_of_at? hm'
      rw [List.cons_lt_cons_iff]
      rcases Nat.lt_trichotomy i j with hij | rfl | hji
      · exact iff_of_true (h.lt_of_lt hc hc' hij hmc hmc') (.inl hij)
      · obtain rfl : c = c' := Option.some.inj (hc.symm.trans hc')
        rw [ih (h.child (List.mem_of_getElem? hc)) hm hm']
        simp
      · have hlt := h.lt_of_lt hc' hc hji hmc' hmc
        exact iff_of_false (Nat.lt_asymm hlt) (by omega)

end Node

/-! ### The stack -/

/-- Children are put on the stack from the last one on, so that the first one is taken next. -/
private theorem append_reverse_cons {α : Type} (stack : Array α) (x : α) (xs : List α) :
    stack ++ (x :: xs).toArray.reverse = (stack ++ xs.toArray.reverse).push x := by
  simp

/-- A turn for each node takes the node from the stack and lists it with all nodes below it, before
the rest of the stack is looked at. -/
def Arena.Lists (a : Arena) (n : Node) : Prop :=
  ∀ (turns : Nat) (stack : Array Nat),
    a.drain? (turns + n.descendants.length) (stack.push n.id) =
      (a.drain? turns stack).map (n.descendants.map Node.id ++ ·)

/-- Where each of some nodes is listed with all nodes below it, so are all of them. -/
theorem Arena.drain?_children {a : Arena} {cs : List Node} (hcs : ∀ c ∈ cs, a.Lists c)
    (turns : Nat) (stack : Array Nat) :
    a.drain? (turns + (cs.flatMap Node.descendants).length)
        (stack ++ (cs.map Node.id).toArray.reverse) =
      (a.drain? turns stack).map ((cs.flatMap Node.descendants).map Node.id ++ ·) := by
  induction cs with
  | nil => simp
  | cons c cs ih =>
    rw [List.flatMap_cons, List.length_append, Nat.add_comm c.descendants.length, ← Nat.add_assoc,
      List.map_cons, append_reverse_cons, hcs c List.mem_cons_self,
      ih fun c hc => hcs c (List.mem_cons_of_mem _ hc), Option.map_map, List.map_append]
    simp only [Function.comp_def, List.append_assoc]

theorem Arena.drain?_empty (a : Arena) (turns : Nat) : a.drain? turns #[] = some [] := by
  cases turns <;> rfl

/-! ### The arena of a numbered tree -/

namespace Tree

variable {t : Tree} {n m c : Node}

theorem size_arena (t : Tree) : t.arena.size = t.nodes.length := by
  rw [Arena.size, arena, Array.size_map, length_nodes, size]

theorem IsNumbered.isRun (h : t.IsNumbered) : t.root.IsRun :=
  Node.isRun_of_map_id (h.trans List.range_eq_range')

theorem IsNumbered.exists_node (h : t.IsNumbered) {id : Nat} (hid : id < t.arena.size) :
    ∃ n ∈ t.nodes, n.id = id := by
  rw [size_arena, length_nodes, ← List.mem_range, ← h] at hid
  exact List.mem_map.mp hid

/-- A number that an arena names is that of a node. -/
theorem IsNumbered.exists_node_of_slot (h : t.IsNumbered) {id : Nat} {s : Slot}
    (hs : t.arena.slots[id]? = some s) : ∃ n ∈ t.nodes, n.id = id :=
  h.exists_node (Array.getElem?_eq_some_iff.mp hs).1

theorem IsNumbered.id_lt_size_arena (h : t.IsNumbered) (hn : n ∈ t.nodes) :
    n.id < t.arena.size := by
  rw [size_arena, length_nodes]
  exact h.id_lt_size hn

/-- The slot of a node says what the node says. -/
theorem IsNumbered.getElem?_slots (h : t.IsNumbered) {p : Place} (hp : p ∈ t.root.places none) :
    t.arena.slots[p.node.id]? = some p.slot := by
  rw [arena, Array.getElem?_map, h.getElem?_index hp]
  rfl

theorem IsNumbered.exists_slot (h : t.IsNumbered) (hn : n ∈ t.nodes) :
    ∃ parent, t.arena.slots[n.id]? =
      some ⟨n.label, parent, (n.children.map Node.id).toArray⟩ := by
  rw [nodes, ← Node.map_node_places none] at hn
  obtain ⟨p, hp, rfl⟩ := List.mem_map.mp hn
  exact ⟨p.parent.map Node.id, h.getElem?_slots hp⟩

theorem IsNumbered.children_arena (h : t.IsNumbered) (hn : n ∈ t.nodes) :
    t.arena.children n.id = (n.children.map Node.id).toArray := by
  obtain ⟨parent, hslot⟩ := h.exists_slot hn
  rw [Arena.children, hslot]
  rfl

theorem IsNumbered.parent?_arena_root (h : t.IsNumbered) :
    t.arena.parent? t.root.id = none := by
  have hroot : ⟨t.root, none⟩ ∈ t.root.places none := by
    rw [Node.places_eq_cons]
    exact List.mem_cons_self
  rw [Arena.parent?, h.getElem?_slots hroot]
  rfl

theorem IsNumbered.parent?_arena_child (h : t.IsNumbered) (hm : m ∈ t.nodes)
    (hc : c ∈ m.children) : t.arena.parent? c.id = some m.id := by
  rw [Arena.parent?, h.getElem?_slots (Node.mem_places_of_mem_children hm hc none)]
  rfl

/-- The children of a node are listed in source order. -/
theorem IsNumbered.ascending_children_arena (h : t.IsNumbered) (id : Nat) :
    (t.arena.children id).toList.Pairwise (· < ·) := by
  cases hs : t.arena.slots[id]? with
  | none => simp [Arena.children, hs]
  | some s =>
    obtain ⟨n, hn, rfl⟩ := h.exists_node_of_slot hs
    rw [h.children_arena hn, List.pairwise_map]
    exact (h.isRun.of_mem_descendants hn).pairwise_children.imp fun {c c'} hcc' =>
      hcc' c c.self_mem_descendants c' c'.self_mem_descendants

/-- Parents and children name each other. -/
theorem IsNumbered.mem_children_arena_iff (h : t.IsNumbered) {child above : Nat} :
    child ∈ t.arena.children above ↔ t.arena.parent? child = some above := by
  constructor
  · intro hchild
    obtain ⟨m, hm, rfl⟩ : ∃ m ∈ t.nodes, m.id = above := by
      cases hs : t.arena.slots[above]? with
      | none => simp [Arena.children, hs] at hchild
      | some s => exact h.exists_node_of_slot hs
    rw [h.children_arena hm, List.mem_toArray] at hchild
    obtain ⟨c, hc, rfl⟩ := List.mem_map.mp hchild
    exact h.parent?_arena_child hm hc
  · intro habove
    obtain ⟨s, hs, -⟩ := Option.bind_eq_some_iff.mp habove
    obtain ⟨c, hc, rfl⟩ := h.exists_node_of_slot hs
    rcases Node.mem_descendants_iff_child.mp hc with rfl | ⟨m, hm, hc⟩
    · rw [h.parent?_arena_root] at habove
      cases habove
    · rw [h.parent?_arena_child hm hc] at habove
      obtain rfl : m.id = above := Option.some.inj habove
      rw [h.children_arena hm, List.mem_toArray]
      exact List.mem_map_of_mem hc

theorem IsNumbered.follow?_arena (h : t.IsNumbered) (hn : n ∈ t.nodes) (path : List Nat) :
    t.arena.follow? n.id path = (n.at? path).map Node.id := by
  induction path generalizing n with
  | nil => exact if_pos (h.id_lt_size_arena hn)
  | cons i path ih =>
    rw [Arena.follow?, Node.at?, h.children_arena hn, List.getElem?_toArray, List.getElem?_map]
    cases hc : n.children[i]? with
    | none => rfl
    | some c =>
      exact ih (Node.mem_descendants_trans hn
        (Node.child_mem_descendants (List.mem_of_getElem? hc)))

/-- The nodes below a node are those from which parents lead to it. -/
theorem IsNumbered.isUnder_arena_iff (h : t.IsNumbered) (hn : n ∈ t.nodes) {id : Nat} :
    t.arena.IsUnder id n.id ↔ ∃ m ∈ n.descendants, m.id = id := by
  constructor
  · intro hunder
    induction hunder using Relation.ReflTransGen.head_induction_on with
    | refl => exact ⟨n, n.self_mem_descendants, rfl⟩
    | head hparent _ ih =>
      obtain ⟨m, hm, rfl⟩ := ih
      have hmn : m ∈ t.nodes := Node.mem_descendants_trans hn hm
      rw [← h.mem_children_arena_iff, h.children_arena hmn, List.mem_toArray] at hparent
      obtain ⟨c, hc, rfl⟩ := List.mem_map.mp hparent
      exact ⟨c, Node.mem_descendants_trans hm (Node.child_mem_descendants hc), rfl⟩
  · rintro ⟨m, hm, rfl⟩
    induction n using Node.rec_children with
    | step n ih =>
      rcases Node.mem_descendants_iff.mp hm with rfl | ⟨c, hc, hm⟩
      · exact .refl
      · have hcn : c ∈ t.nodes := Node.mem_descendants_trans hn (Node.child_mem_descendants hc)
        exact (ih c hc hcn hm).tail (h.parent?_arena_child hn hc)

/-! ### Listing descendants -/

/-- **A node on top of the stack** is listed with all nodes below it. -/
theorem IsNumbered.lists_arena (h : t.IsNumbered) (hn : n ∈ t.nodes) : t.arena.Lists n := by
  induction n using Node.rec_children with
  | step n ih =>
    intro turns stack
    obtain ⟨parent, hslot⟩ := h.exists_slot hn
    have hcs : ∀ c ∈ n.children, t.arena.Lists c := fun c hc =>
      ih c hc (Node.mem_descendants_trans hn (Node.child_mem_descendants hc))
    rw [Node.descendants_eq_cons, List.length_cons, ← Nat.add_assoc, Arena.drain?,
      Array.back?_push, Array.pop_push]
    simp only [hslot, Option.bind_some, Arena.drain?_children hcs, Option.map_map]
    rfl

theorem IsNumbered.length_descendants_le (h : t.IsNumbered) (hn : n ∈ t.nodes) :
    n.descendants.length ≤ t.arena.size := by
  rw [size_arena, ← List.length_map Node.id, ← t.nodes.length_map Node.id]
  have hnodup : (n.descendants.map Node.id).Nodup :=
    (h.isRun.of_mem_descendants hn).pairwise.imp Nat.ne_of_lt
  exact (List.subperm_of_subset hnodup
    (List.map_subset _ fun m hm => Node.mem_descendants_trans hn hm)).length_le

theorem IsNumbered.descendants?_arena (h : t.IsNumbered) (hn : n ∈ t.nodes) :
    t.arena.descendants? n.id = some (n.descendants.map Node.id) := by
  obtain ⟨turns, hturns⟩ := Nat.exists_eq_add_of_le' (h.length_descendants_le hn)
  have hlist := h.lists_arena hn turns #[]
  rw [Arena.drain?_empty, ← hturns] at hlist
  simpa [Arena.descendants?] using hlist

/-- The node with a number has this number. -/
theorem IsNumbered.exists_of_node? (h : t.IsNumbered) {id : Nat} (hn : t.node? id = some n) :
    n ∈ t.nodes ∧ n.id = id := by
  have hget : t.nodes[id]? = some n := by
    rw [← hn, node?, t.index_eq, nodes, ← Node.map_node_places none, List.getElem?_map,
      List.getElem?_toArray]
  have hid : (List.range t.size)[id]? = some n.id := by rw [← h, List.getElem?_map, hget]; rfl
  obtain ⟨hlt, hid⟩ := List.getElem?_eq_some_iff.mp hid
  exact ⟨List.mem_of_getElem? hget, by rw [← hid, List.getElem_range]⟩

/-- The descendants of a node are a run of numbers, those of its subtree. -/
theorem IsNumbered.descendants?_arena_eq_range' (h : t.IsNumbered) {id : Nat}
    (hid : id < t.arena.size) :
    ∃ below, t.arena.descendants? id = some (List.range' id (below + 1)) ∧
      ∀ m, m ∈ List.range' id (below + 1) ↔ t.arena.IsUnder m id := by
  obtain ⟨n, hn, rfl⟩ := h.exists_node hid
  have hrun : n.descendants.map Node.id = List.range' n.id n.descendants.length :=
    h.isRun.of_mem_descendants hn
  have hlength : n.descendants.length = (n.children.flatMap Node.descendants).length + 1 := by
    rw [Node.descendants_eq_cons, List.length_cons]
  rw [hlength] at hrun
  refine ⟨(n.children.flatMap Node.descendants).length, ?_, fun m => ?_⟩
  · rw [h.descendants?_arena hn, hrun]
  · rw [← hrun, h.isUnder_arena_iff hn, List.mem_map]

end Tree

/-! ### The arena of a parse tree -/

theorem Tree.size_arena_lower (source : String) (t : ParseTree) :
    (lower source t).arena.size = t.size := by
  have hids : (lower source t).nodes.map Node.id = List.range' 0 t.size := t.map_id_number source 0
  rw [size_arena, ← List.length_map Node.id, hids, List.length_range']

theorem Tree.follow?_arena_lower (source : String) (t : ParseTree) (path : List Nat) :
    (lower source t).arena.follow? 0 path = ((t.number source 0).at? path).map Node.id := by
  have hroot : t.number source 0 ∈ (lower source t).nodes := Node.self_mem_descendants _
  have hfollow := (isNumbered_lower source t).follow?_arena hroot path
  rwa [ParseTree.id_number] at hfollow

/-- **Numbering in pre-order.** -/
theorem Tree.isPreorderOf_arena_lower (source : String) (t : ParseTree) :
    (lower source t).arena.IsPreorderOf t := by
  have h := isNumbered_lower source t
  have hnodes {m : Node} {path : List Nat} (hm : (t.number source 0).at? path = some m) :
      m ∈ (lower source t).nodes := Node.mem_descendants_of_at? hm
  refine ⟨size_arena_lower source t, fun path => ?_, fun id hid => ?_, fun hid hid' => ?_,
    h.mem_children_arena_iff, fun id => ?_, fun id hid => h.descendants?_arena_eq_range' hid⟩
  · rw [follow?_arena_lower, ← Node.label_at?_number source 0]
    cases hm : (t.number source 0).at? path with
    | none => rfl
    | some m =>
      obtain ⟨parent, hslot⟩ := h.exists_slot (hnodes hm)
      rw [Option.map_some, Option.bind_some, hslot]
      rfl
  · obtain ⟨n, hn, rfl⟩ := h.exists_node hid
    obtain ⟨path, hpath⟩ := Node.exists_at?_of_mem_descendants hn
    exact ⟨path, by rw [follow?_arena_lower]; exact congrArg (Option.map Node.id) hpath⟩
  · rw [follow?_arena_lower, Option.map_eq_some_iff] at hid hid'
    obtain ⟨m, hm, rfl⟩ := hid
    obtain ⟨m', hm', rfl⟩ := hid'
    exact h.isRun.lt_iff_lt hm hm'
  · exact h.ascending_children_arena id

/-- **Lowering a parse tree.** The walk of a cursor over a parse tree comes to its end within two
turns for each node. It leaves behind the arena of the syntax tree, which holds the parse tree in
pre-order, and from which the descendants of a node are listed as from the syntax tree. -/
theorem Cursor.Walks.lower?_isPreorderOf {σ : Type} {c : Cursor σ} {t : ParseTree}
    {stands : σ → List Nat → Prop} (h : c.Walks t stands) {s : σ} (hs : stands s [])
    (source : String) {turns : Nat} (hturns : 2 * t.size ≤ turns) :
    c.lower? turns source s = some (Tree.lower source t).arena ∧
      (Tree.lower source t).arena.IsPreorderOf t ∧
      ∀ id n, (Tree.lower source t).node? id = some n →
        (Tree.lower source t).arena.descendants? id = some (n.descendants.map Node.id) := by
  refine ⟨h.lower?_eq hs source hturns, Tree.isPreorderOf_arena_lower source t, fun id n hn => ?_⟩
  have hnumbered := Tree.isNumbered_lower source t
  obtain ⟨hmem, rfl⟩ := hnumbered.exists_of_node? hn
  exact hnumbered.descendants?_arena hmem

/-- The tree of `f(1);x`. -/
def callThenName : ParseTree :=
  .rule "module" none 0 6 [
    .rule "expression_statement" none 0 4 [
      .rule "call" none 0 4 [
        .rule "identifier" (some "function") 0 1 [],
        .rule "argument_list" (some "arguments") 1 4 [
          .token "(" 1 2, .rule "integer" none 2 3 [], .token ")" 3 4]]],
    .token ";" 4 5,
    .rule "expression_statement" none 5 6 [.rule "identifier" none 5 6 []]]

/-- Behind the call the walk climbs three levels before it finds a sibling. -/
theorem Cursor.Walks.lower?_isPreorderOf_callThenName :
    Focus.cursor.Walks callThenName (Focus.StandsAt callThenName) ∧
      Focus.StandsAt callThenName (Focus.top callThenName) [] ∧
      2 * callThenName.size ≤ 22 ∧
      (∃ a, Focus.cursor.lower? 22 "f(1);x" (Focus.top callThenName) = some a ∧
        a.IsPreorderOf callThenName ∧
        a.slots.toList.map Slot.parent = [none, some 0, some 1, some 2, some 2, some 4, some 4,
          some 4, some 0, some 0, some 9] ∧
        a.descendants? 2 = some [2, 3, 4, 5, 6, 7]) := by
  have hwalks := Focus.walks_cursor callThenName
  have hturns : 2 * callThenName.size ≤ 22 := by decide
  obtain ⟨hlower, hpreorder, hdescendants⟩ := hwalks.lower?_isPreorderOf .root "f(1);x" hturns
  refine ⟨hwalks, .root, hturns, _, hlower, hpreorder, by decide +kernel, ?_⟩
  exact (hdescendants 2 _ rfl).trans (by decide +kernel)

end ApiSurface.Syntax
