import ApiSurface.Syntax.Node

/-!
# Wrappers around an expression

Parentheses, `await` and the grammar's own wrapper around annotations say nothing about the value
of an expression. The functions here look through them.
-/

namespace ApiSurface.Expr

open ApiSurface.Syntax (Node)

/-- Look through nodes of one kind: replace such a node by its first named child, as often as it
has one. -/
def stripKind (kind : String) (n : Node) : Node :=
  if n.kind = kind then
    match _h : n.firstNamed? with
    | some inner => stripKind kind inner
    | none => n
  else n
termination_by sizeOf n
decreasing_by exact Node.sizeOf_lt_of_firstNamed? _h

theorem sizeOf_stripKind_le (kind : String) (n : Node) : sizeOf (stripKind kind n) ≤ sizeOf n := by
  fun_induction stripKind kind n with
  | case1 n hk inner h ih => exact Nat.le_trans ih (Nat.le_of_lt (Node.sizeOf_lt_of_firstNamed? h))
  | case2 => exact Nat.le_refl _
  | case3 => exact Nat.le_refl _

/-- Look through parentheses. -/
def stripParens (n : Node) : Node := stripKind "parenthesized_expression" n

theorem sizeOf_stripParens_le (n : Node) : sizeOf (stripParens n) ≤ sizeOf n :=
  sizeOf_stripKind_le _ n

/-- Look through `await` at the top and through parentheses below it. -/
def stripAwaitAux (n : Node) : Node :=
  if n.kind = "await" then
    match _h : n.firstNamed? with
    | some inner => stripAwaitAux (stripParens inner)
    | none => n
  else n
termination_by sizeOf n
decreasing_by
  exact Nat.lt_of_le_of_lt (sizeOf_stripParens_le inner) (Node.sizeOf_lt_of_firstNamed? _h)

/-- Look through `await` and parentheses. -/
def stripAwait (n : Node) : Node := stripAwaitAux (stripParens n)

/-- Look through the wrapper around annotations and then through parentheses. -/
def stripType (n : Node) : Node := stripParens (stripKind "type" n)

theorem sizeOf_stripType_le (n : Node) : sizeOf (stripType n) ≤ sizeOf n :=
  Nat.le_trans (sizeOf_stripParens_le _) (sizeOf_stripKind_le _ n)

end ApiSurface.Expr
