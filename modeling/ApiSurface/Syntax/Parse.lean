import ApiSurface.Syntax.Span

/-!
# Parse trees

What a parser delivers: an ordered tree whose nodes carry a label. A tree is given either as a
value of `ParseTree` or as the list of its nodes in pre-order, each with its depth
(`ParseTree.rows`, `ParseTree.ofRows?`).
-/

namespace ApiSurface.Syntax

/-- What the grammar says about one node. -/
structure Label where
  /-- Grammar rule or token. -/
  kind : String
  /-- The role under the parent, if the grammar names one. -/
  field : Option String
  /-- Rules are named, tokens are not. -/
  named : Bool
  /-- Comments and the like may stand anywhere. -/
  extra : Bool
  /-- The parser had to skip or to invent something here. -/
  error : Bool
  span : Span
deriving DecidableEq, Repr, Inhabited

/-- An ordered tree of labels. -/
inductive ParseTree where
  | node (label : Label) (children : List ParseTree)

namespace ParseTree

/-- The label at the top. -/
def label : ParseTree → Label
  | node l _ => l

/-- The subtrees below the top, in order. -/
def children : ParseTree → List ParseTree
  | node _ ts => ts

mutual
/-- The number of nodes. -/
def size : ParseTree → Nat
  | node _ ts => sizeAll ts + 1

/-- The number of nodes of several trees. -/
def sizeAll : List ParseTree → Nat
  | [] => 0
  | t :: ts => size t + sizeAll ts
end

/-- A node of a pre-order listing. -/
structure Row where
  depth : Nat
  label : Label

mutual
/-- The pre-order listing of a tree whose top lies at the given depth. -/
def rows (depth : Nat) : ParseTree → List Row
  | node l ts => ⟨depth, l⟩ :: rowsAll (depth + 1) ts

/-- The pre-order listings of several trees, one after the other. -/
def rowsAll (depth : Nat) : List ParseTree → List Row
  | [] => []
  | t :: ts => rows depth t ++ rowsAll depth ts
end

/-- One step of reading a listing from its end: the row takes the trees that follow it at greater
depth as its children. -/
def attach (row : Row) (later : List (Nat × ParseTree)) : List (Nat × ParseTree) :=
  let below := later.takeWhile fun t => row.depth < t.1
  (row.depth, node row.label (below.map (·.2))) ::
    later.dropWhile fun t => row.depth < t.1

/-- The trees of a listing, each with the depth of its top. -/
def forest (listing : List Row) : List (Nat × ParseTree) := listing.foldr attach []

/-- The first tree of a listing. -/
def ofRows? (listing : List Row) : Option ParseTree := (forest listing).head?.map (·.2)

end ParseTree

end ApiSurface.Syntax
