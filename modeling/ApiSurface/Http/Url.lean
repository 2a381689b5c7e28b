import ApiSurface.Expr.Template

/-!
# URL arguments

What is known about a URL from the expression that computes it: a literal text, a template of
literal text and slots, or nothing.
-/

namespace ApiSurface.Http

open ApiSurface.Syntax (Node)
open ApiSurface.Expr (stripParens)

/-- Whether a node is a sum with both operands in place. -/
def sumOperands? (n : Node) : Option (Node × Node) :=
  if n.kind = "binary_operator" ∧ n.hasToken "+" then
    match n.childByField? "left", n.childByField? "right" with
    | some l, some r => some (l, r)
    | _, _ => none
  else none

theorem sizeOf_lt_of_sumOperands? {n l r : Node} (h : sumOperands? n = some (l, r)) :
    sizeOf l < sizeOf n ∧ sizeOf r < sizeOf n := by
  unfold sumOperands? at h
  split at h
  · split at h
    · next hl hr =>
      obtain ⟨rfl, rfl⟩ := Prod.mk.inj (Option.some.inj h)
      exact ⟨Node.sizeOf_lt_of_childByField? hl, Node.sizeOf_lt_of_childByField? hr⟩
    · simp at h
  · simp at h

/-- The operands of a sum from left to right, however it is parenthesised. -/
def sumLeaves (n : Node) : List Node :=
  match _h : sumOperands? (stripParens n) with
  | some (l, r) => sumLeaves l ++ sumLeaves r
  | none => [stripParens n]
termination_by sizeOf n
decreasing_by
  · exact Nat.lt_of_lt_of_le (sizeOf_lt_of_sumOperands? _h).1 (Expr.sizeOf_stripParens_le n)
  · exact Nat.lt_of_lt_of_le (sizeOf_lt_of_sumOperands? _h).2 (Expr.sizeOf_stripParens_le n)

/-- The pieces of one operand. -/
def leafSegments (n : Node) : List UrlSegment :=
  (Expr.template? n).getD [.slot n.text]

/-- A URL from its pieces. -/
def ofSegments (segments : List UrlSegment) : UrlExpression :=
  match Expr.literalText? segments with
  | some value => .literal value
  | none => .templated segments

/-- What is known about a URL argument. -/
def urlExpression (n : Node) : UrlExpression :=
  let m := stripParens n
  match Expr.template? m with
  | some segments => ofSegments segments
  | none =>
    if m.kind = "binary_operator" ∧ m.hasToken "+" then
      ofSegments ((sumLeaves m).foldl (fun acc leaf => Expr.pushAll acc (leafSegments leaf)) [])
    else .unknown m.text

end ApiSurface.Http
