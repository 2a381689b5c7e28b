import ApiSurface.Syntax.Parse
import ApiSurface.Text.Slice

/-!
# Nodes

A node of a syntax tree together with everything below it. Nodes are numbered in pre-order, and
each one carries the source text that its span covers.
-/

namespace ApiSurface.Syntax

/-- A numbered node with its text and its children. -/
inductive Node where
  | mk (id : Nat) (label : Label) (text : String) (children : List Node)

namespace Node

/-- The number of the node in pre-order; the root has zero. -/
def id : Node → Nat
  | mk i _ _ _ => i

/-- What the grammar says about the node. -/
def label : Node → Label
  | mk _ l _ _ => l

/-- The source text that the span covers, empty when it covers none. -/
def text : Node → String
  | mk _ _ t _ => t

/-- All nodes directly below, tokens and comments included. -/
def children : Node → List Node
  | mk _ _ _ cs => cs

instance : Inhabited Node := ⟨mk 0 default "" []⟩

/-- Grammar rule or token. -/
def kind (n : Node) : String := n.label.kind

/-- The role of the node under its parent. -/
def field (n : Node) : Option String := n.label.field

def span (n : Node) : Span := n.label.span

def startByte (n : Node) : Nat := n.span.startByte

def endByte (n : Node) : Nat := n.span.endByte

/-- Children that are grammar rules and not comments, in source order. -/
def namedChildren (n : Node) : List Node :=
  n.children.filter fun c => c.label.named && !c.label.extra

/-- The first named child. -/
def firstNamed? (n : Node) : Option Node := n.namedChildren.head?

/-- Children in the given role, in source order. -/
def childrenByField (n : Node) (field : String) : List Node :=
  n.children.filter fun c => c.field == some field

/-- The first child in the given role. -/
def childByField? (n : Node) (field : String) : Option Node :=
  n.children.find? fun c => c.field == some field

/-- Whether a token of the given spelling is a direct child. -/
def hasToken (n : Node) (token : String) : Bool :=
  n.children.any fun c => !c.label.named && c.kind == token

mutual
/-- The node and everything below it, in pre-order. -/
def descendants : Node → List Node
  | n@(mk _ _ _ cs) => n :: descendantsAll cs

/-- The descendants of several nodes, one after the other. -/
def descendantsAll : List Node → List Node
  | [] => []
  | n :: ns => descendants n ++ descendantsAll ns
end

/-- The short form of a node in listings: its kind, its number and where it starts. -/
def render (n : Node) : String := n.kind ++ "#" ++ toString n.id ++ "@" ++ n.span.render

theorem sizeOf_lt_of_mem_children {n c : Node} (h : c ∈ n.children) : sizeOf c < sizeOf n := by
  cases n with
  | mk i l t cs =>
    have := List.sizeOf_lt_of_mem h
    simp only [mk.sizeOf_spec]
    simp only [children] at this
    omega

theorem sizeOf_lt_of_mem_namedChildren {n c : Node} (h : c ∈ n.namedChildren) :
    sizeOf c < sizeOf n :=
  sizeOf_lt_of_mem_children (List.mem_filter.1 h).1

theorem sizeOf_lt_of_childByField? {n c : Node} {f : String} (h : n.childByField? f = some c) :
    sizeOf c < sizeOf n :=
  sizeOf_lt_of_mem_children (List.mem_of_find?_eq_some h)

theorem sizeOf_lt_of_firstNamed? {n c : Node} (h : n.firstNamed? = some c) :
    sizeOf c < sizeOf n :=
  sizeOf_lt_of_mem_namedChildren (List.mem_of_head? h)

end Node

end ApiSurface.Syntax
