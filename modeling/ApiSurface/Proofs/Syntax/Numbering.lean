import Mathlib.Data.List.Nodup
import ApiSurface.Proofs.Syntax.Layout
import ApiSurface.Syntax.Tree

/-!
# Numbers of nodes

A tree is numbered when its nodes, listed in pre-order, have the numbers from zero on. Trees that a
parse tree is lowered to are (`Tree.isNumbered_lower`). The numbers tell nodes apart: those at one
node from those below it, and those below one child from those below the others. By its number a
node is found in the index, together with the node that it hangs under.
-/

namespace ApiSurface.Syntax

/-! ### Pre-order -/

mutual
theorem Node.map_node_places (parent : Option Node) (n : Node) :
    (n.places parent).map (·.node) = n.descendants := by
  cases n with
  | mk i l tx cs => rw [places, descendants, List.map_cons, map_node_placesAll]

theorem Node.map_node_placesAll (parent : Option Node) (cs : List Node) :
    (placesAll parent cs).map (·.node) = descendantsAll cs := by
  cases cs with
  | nil => rfl
  | cons c cs =>
    rw [placesAll, descendantsAll, List.map_append, map_node_places, map_node_placesAll]
end

mutual
theorem ParseTree.map_id_number (source : String) (n : Nat) (t : ParseTree) :
    (t.number source n).descendants.map Node.id = List.range' n t.size := by
  cases t with
  | node l ts =>
    rw [number, Node.descendants, List.map_cons, map_id_numberAll, size, List.range'_succ]
    rfl

theorem ParseTree.map_id_numberAll (source : String) (n : Nat) (ts : List ParseTree) :
    (Node.descendantsAll (numberAll source n ts)).map Node.id = List.range' n (sizeAll ts) := by
  cases ts with
  | nil => rfl
  | cons t ts =>
    rw [numberAll, Node.descendantsAll, List.map_append, map_id_number, map_id_numberAll, sizeAll,
      List.range'_append_1]
end

/-- The nodes of the tree, in pre-order, have the numbers from zero on. -/
def Tree.IsNumbered (t : Tree) : Prop := t.nodes.map Node.id = List.range t.size

instance (t : Tree) : Decidable t.IsNumbered :=
  inferInstanceAs (Decidable (t.nodes.map Node.id = List.range t.size))

theorem Tree.length_nodes (t : Tree) : t.nodes.length = t.size := by
  rw [nodes, ← Node.map_node_places none, List.length_map, size, t.index_eq, List.size_toArray]

theorem Tree.isNumbered_lower (source : String) (t : ParseTree) : (lower source t).IsNumbered := by
  have hids : (lower source t).nodes.map Node.id = List.range' 0 t.size :=
    t.map_id_number source 0
  have hsize : (lower source t).size = t.size := by
    rw [← length_nodes, ← List.length_map Node.id, hids, List.length_range']
  rw [IsNumbered, hids, hsize, List.range_eq_range']

/-! ### Distinct numbers -/

namespace Node

variable {n c c' m m' : Node} {before after : List Node}

/-- No two nodes at or below the node have one number. -/
def HasDistinctIds (n : Node) : Prop := (n.descendants.map Node.id).Nodup

theorem HasDistinctIds.nodup_children (h : n.HasDistinctIds) :
    (n.children.flatMap fun c => c.descendants.map Node.id).Nodup := by
  rw [HasDistinctIds, descendants_eq_cons, List.map_cons, List.map_flatMap] at h
  exact (List.nodup_cons.mp h).2

theorem HasDistinctIds.child (h : n.HasDistinctIds) (hc : c ∈ n.children) : c.HasDistinctIds :=
  (List.pairwise_flatMap.mp h.nodup_children).1 c hc

/-- A node is told apart from those below it. -/
theorem HasDistinctIds.ne_of_mem_children (h : n.HasDistinctIds) (hc : c ∈ n.children)
    (hm : m ∈ c.descendants) : m.id ≠ n.id := by
  rw [HasDistinctIds, descendants_eq_cons, List.map_cons] at h
  intro heq
  refine (List.nodup_cons.mp h).1 (List.mem_map.mpr ⟨m, ?_, heq⟩)
  exact List.mem_flatMap.mpr ⟨c, hc, hm⟩

/-- Nodes below one child are told apart from those below the children behind it. -/
theorem HasDistinctIds.ne_of_split (h : n.HasDistinctIds)
    (hsplit : n.children = before ++ c :: after) (hc : c' ∈ after) (hm : m ∈ c.descendants)
    (hm' : m' ∈ c'.descendants) : m.id ≠ m'.id := by
  have hpairwise := (List.pairwise_flatMap.mp h.nodup_children).2
  rw [hsplit] at hpairwise
  have htail := (List.pairwise_cons.mp (List.pairwise_append.mp hpairwise).2.1).1 c' hc
  exact htail m.id (List.mem_map_of_mem hm) m'.id (List.mem_map_of_mem hm')

end Node

theorem Tree.IsNumbered.hasDistinctIds {t : Tree} (h : t.IsNumbered) : t.root.HasDistinctIds := by
  rw [Node.HasDistinctIds, ← Tree.nodes, h]
  exact List.nodup_range

/-- Nodes of one number are one node. -/
theorem Tree.IsNumbered.eq_of_id_eq {t : Tree} {n m : Node} (h : t.IsNumbered) (hn : n ∈ t.nodes)
    (hm : m ∈ t.nodes) (heq : n.id = m.id) : n = m :=
  List.inj_on_of_nodup_map h.hasDistinctIds hn hm heq

theorem Tree.IsNumbered.id_lt_size {t : Tree} {n : Node} (h : t.IsNumbered)
    (hn : n ∈ t.root.descendants) : n.id < t.size :=
  List.mem_range.mp (h ▸ List.mem_map_of_mem hn)

/-! ### Places -/

theorem Node.placesAll_eq_flatMap (parent : Option Node) (cs : List Node) :
    placesAll parent cs = cs.flatMap (places parent) := by
  induction cs with
  | nil => rfl
  | cons c cs ih => rw [placesAll, ih, List.flatMap_cons]

theorem Node.places_eq_cons (parent : Option Node) (n : Node) :
    n.places parent = ⟨n, parent⟩ :: n.children.flatMap (places (some n)) := by
  cases n with
  | mk i l tx cs => rw [places, placesAll_eq_flatMap]; rfl

theorem Node.mem_places_of_mem_children {n m c : Node} (hm : m ∈ n.descendants)
    (hc : c ∈ m.children) (parent : Option Node) : ⟨c, some m⟩ ∈ n.places parent := by
  induction n using Node.rec_children generalizing parent with
  | step n ih =>
    rw [places_eq_cons]
    refine List.mem_cons_of_mem _ (List.mem_flatMap.mpr ?_)
    rcases Node.mem_descendants_iff.mp hm with rfl | ⟨d, hd, hm⟩
    · exact ⟨c, hc, by rw [places_eq_cons]; exact List.mem_cons_self⟩
    · exact ⟨d, hd, ih d hd hm (some n)⟩

/-- A place stands in the index where its node's number says. -/
theorem Tree.IsNumbered.getElem?_index {t : Tree} {p : Place} (h : t.IsNumbered)
    (hp : p ∈ t.root.places none) : t.index[p.node.id]? = some p := by
  obtain ⟨i, hi⟩ := List.getElem?_of_mem hp
  have hids : (t.nodes.map Node.id)[i]? = some p.node.id := by
    rw [nodes, ← Node.map_node_places none, List.getElem?_map, List.getElem?_map, hi]
    rfl
  rw [h] at hids
  obtain ⟨hlt, hid⟩ := List.getElem?_eq_some_iff.mp hids
  rw [List.getElem_range] at hid
  rw [t.index_eq, ← hid, List.getElem?_toArray, hi]

theorem Tree.IsNumbered.parent?_root {t : Tree} (h : t.IsNumbered) : t.parent? t.root = none := by
  have hroot : ⟨t.root, none⟩ ∈ t.root.places none := by
    rw [Node.places_eq_cons]
    exact List.mem_cons_self
  rw [parent?, h.getElem?_index hroot]
  rfl

theorem Tree.IsNumbered.parent?_of_mem_children {t : Tree} {m c : Node} (h : t.IsNumbered)
    (hm : m ∈ t.nodes) (hc : c ∈ m.children) : t.parent? c = some m := by
  rw [parent?, h.getElem?_index (Node.mem_places_of_mem_children hm hc none)]
  rfl

end ApiSurface.Syntax
