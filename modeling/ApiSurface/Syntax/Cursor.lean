import ApiSurface.Syntax.Parse

/-!
# Cursors

A cursor stands at a node of a tree that someone else keeps. It shows what the grammar says about
the node, and it moves to the first child, to the next sibling and to the parent. `Focus` is a
place in a `ParseTree` with all that these moves need (`Focus.cursor`).
-/

namespace ApiSurface.Syntax

/-- What can be asked of a cursor in the state `s`. A move gives nothing where there is no node to
move to, and the cursor stays where it is. -/
structure Cursor (σ : Type) where
  /-- The label of the node, its role under the parent included. -/
  label (s : σ) : Label
  firstChild? (s : σ) : Option σ
  nextSibling? (s : σ) : Option σ
  parent? (s : σ) : Option σ

/-- A node of a parse tree, the siblings behind it, and the nodes above it from the nearest one on,
each with the siblings behind it. -/
structure Focus where
  here : ParseTree
  later : List ParseTree
  above : List (ParseTree × List ParseTree)

namespace Focus

/-- The root of a tree. -/
def top (t : ParseTree) : Focus := ⟨t, [], []⟩

/-- The cursor that walks a parse tree. -/
def cursor : Cursor Focus where
  label f := f.here.label
  firstChild? f :=
    match f.here.children with
    | [] => none
    | u :: us => some ⟨u, us, (f.here, f.later) :: f.above⟩
  nextSibling? f :=
    match f.later with
    | [] => none
    | u :: us => some ⟨u, us, f.above⟩
  parent? f :=
    match f.above with
    | [] => none
    | (u, us) :: above => some ⟨u, us, above⟩

end Focus

end ApiSurface.Syntax
