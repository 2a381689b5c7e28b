import ApiSurface.Syntax.Cursor
import ApiSurface.Syntax.Tree

/-!
# Arenas

A syntax tree as a flat array: each node has a slot at the index given by its number, with the
numbers of its parent and of its children. A cursor fills the array in one walk over the tree
(`Cursor.lower?`), and the nodes below a node are listed from the array (`Arena.descendants?`).
Neither recurses over the tree: both go on in turns, with what they have to come back to on a stack
of numbers. Nothing is known of the cursor or of the numbers in the slots, so that the turns that
are allowed may not be enough. `Tree.arena` is the arena of a syntax tree.
-/

namespace ApiSurface.Syntax

/-- A node of an arena. -/
structure Slot where
  label : Label
  parent : Option Nat
  children : Array Nat
deriving DecidableEq, Repr, Inhabited

/-- A source text and the nodes of its tree. The root is the first of them. -/
structure Arena where
  source : String
  slots : Array Slot

/-- How far a walk has come: the nodes met so far, the numbers of the nodes above the cursor with
the nearest one last, and the cursor. -/
structure Lowering (σ : Type) where
  slots : Array Slot
  ancestors : Array Nat
  cursor : σ

/-- What a walk does next: visit the node at the cursor, or go on behind it. -/
inductive Lowering.Turn (σ : Type) where
  | enter (w : Lowering σ)
  | leave (w : Lowering σ)

namespace Cursor

variable {σ : Type}

/-- Give the node at the cursor the next number, and tell its parent. -/
def visit (c : Cursor σ) (w : Lowering σ) : Lowering σ :=
  let id := w.slots.size
  let parent := w.ancestors.back?
  let slots := w.slots.push ⟨c.label w.cursor, parent, #[]⟩
  match parent with
  | none => { w with slots }
  | some p => { w with slots := slots.modify p fun s => { s with children := s.children.push id } }

/-- Go on with the first child of the node at the cursor, which has the number `id`, or else behind
the node. -/
def descend (c : Cursor σ) (id : Nat) (w : Lowering σ) : Lowering.Turn σ :=
  match c.firstChild? w.cursor with
  | some s => .enter { w with ancestors := w.ancestors.push id, cursor := s }
  | none => .leave w

/-- Go on with the next sibling of the node at the cursor, or else behind its parent. Behind the
root there is nothing to go on with. -/
def ascend? (c : Cursor σ) (w : Lowering σ) : Option (Lowering.Turn σ) :=
  match c.nextSibling? w.cursor with
  | some s => some (.enter { w with cursor := s })
  | none =>
    match c.parent? w.cursor with
    | some s => some (.leave { w with ancestors := w.ancestors.pop, cursor := s })
    | none => none

/-- Walk on to the end of the tree, or give up after the given number of turns. -/
def run (c : Cursor σ) : Nat → Lowering.Turn σ → Option (Array Slot)
  | 0, _ => none
  | turns + 1, .enter w => c.run turns (c.descend w.slots.size (c.visit w))
  | turns + 1, .leave w =>
    match c.ascend? w with
    | some turn => c.run turns turn
    | none => some w.slots

/-- Walk over the tree from the state `s` of the cursor on, in at most the given number of turns. -/
def lower? (c : Cursor σ) (turns : Nat) (source : String) (s : σ) : Option Arena :=
  (c.run turns (.enter ⟨#[], #[], s⟩)).map fun slots => ⟨source, slots⟩

end Cursor

namespace Arena

/-- The number of nodes. -/
def size (a : Arena) : Nat := a.slots.size

/-- The number of the node that a node hangs under. -/
def parent? (a : Arena) (id : Nat) : Option Nat := a.slots[id]?.bind Slot.parent

/-- The numbers of the nodes directly below a node. -/
def children (a : Arena) (id : Nat) : Array Nat := (a.slots[id]?.map Slot.children).getD #[]

/-- List the nodes on the stack, the last one first, each followed by those below it. A turn takes
one node from the stack. Nothing is given when a number has no slot, or when the stack is not empty
after the given number of turns. -/
def drain? (a : Arena) : Nat → Array Nat → Option (List Nat)
  | 0, stack => if stack.isEmpty then some [] else none
  | turns + 1, stack =>
    match stack.back? with
    | none => some []
    | some id => a.slots[id]?.bind fun slot =>
      (a.drain? turns (stack.pop ++ slot.children.reverse)).map (id :: ·)

/-- A node and everything below it in pre-order. No listing is longer than the arena. -/
def descendants? (a : Arena) (id : Nat) : Option (List Nat) := a.drain? a.size #[id]

end Arena

/-- The slot of a node with the given parent. -/
def Place.slot (p : Place) : Slot :=
  ⟨p.node.label, p.parent.map Node.id, (p.node.children.map Node.id).toArray⟩

/-- The arena of a syntax tree. -/
def Tree.arena (t : Tree) : Arena := ⟨t.source, t.index.map Place.slot⟩

end ApiSurface.Syntax
