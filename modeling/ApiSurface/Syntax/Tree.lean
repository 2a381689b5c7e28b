import ApiSurface.Syntax.Node

/-!
# Syntax trees

A parse tree with its nodes numbered in pre-order (`Tree.lower`), and the index that finds a node
and its parent by number.
-/

namespace ApiSurface.Syntax

/-- A node with the one it hangs under. -/
structure Place where
  node : Node
  parent : Option Node

mutual
/-- A node and everything below it in pre-order, each with its parent. -/
def Node.places (parent : Option Node) : Node → List Place
  | n@(.mk _ _ _ cs) => ⟨n, parent⟩ :: Node.placesAll (some n) cs

/-- The places of several nodes with one parent. -/
def Node.placesAll (parent : Option Node) : List Node → List Place
  | [] => []
  | n :: ns => Node.places parent n ++ Node.placesAll parent ns
end

mutual
/-- Number the nodes of a parse tree in pre-order from `n` on and give each one its text. -/
def ParseTree.number (source : String) (n : Nat) : ParseTree → Node
  | .node l ts =>
    .mk n l (Text.sliceD source l.span.startByte l.span.endByte)
      (ParseTree.numberAll source (n + 1) ts)

/-- Number the nodes of several trees, one after the other. -/
def ParseTree.numberAll (source : String) (n : Nat) : List ParseTree → List Node
  | [] => []
  | t :: ts => ParseTree.number source n t :: ParseTree.numberAll source (n + t.size) ts
end

/-- A syntax tree: the source text, the root, and every node at the index given by its number. -/
structure Tree where
  source : String
  root : Node
  index : Array Place
  index_eq : index = (root.places none).toArray

namespace Tree

/-- The syntax tree with the given root. -/
def ofRoot (source : String) (root : Node) : Tree where
  source := source
  root := root
  index := (root.places none).toArray
  index_eq := rfl

/-- Number a parse tree and index it. -/
def lower (source : String) (t : ParseTree) : Tree := ofRoot source (t.number source 0)

/-- Every node, in pre-order. -/
def nodes (t : Tree) : List Node := t.root.descendants

/-- The number of nodes. -/
def size (t : Tree) : Nat := t.index.size

/-- The node with the given number. -/
def node? (t : Tree) (id : Nat) : Option Node := t.index[id]?.map (·.node)

/-- The node that a node hangs under. -/
def parent? (t : Tree) (n : Node) : Option Node := t.index[n.id]?.bind (·.parent)

/-- Whether the parser met something it could not read. -/
def hasErrors (t : Tree) : Bool := t.index.any fun p => p.node.label.error

/-- The nearest node above that satisfies `p`, looking at most `fuel` steps up. -/
def ancestorWithin (t : Tree) (p : Node → Bool) : Nat → Node → Option Node
  | 0, _ => none
  | fuel + 1, n =>
    match t.parent? n with
    | none => none
    | some above => if p above then some above else t.ancestorWithin p fuel above

/-- The nearest node above of the given kind. No path to the root is longer than the tree. -/
def ancestor? (t : Tree) (n : Node) (kind : String) : Option Node :=
  t.ancestorWithin (fun above => above.kind == kind) t.size n

end Tree

end ApiSurface.Syntax
