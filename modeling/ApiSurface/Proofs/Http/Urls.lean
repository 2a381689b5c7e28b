import ApiSurface.Http.Call
import ApiSurface.Proofs.Expr.Parts
import ApiSurface.Proofs.Expr.Pieces

/-!
# Normal forms of URLs

A URL argument that is a text or a sum is spelled out: a text as one string expression, a sum as the
texts and other expressions that are added, from left to right (`HasOperands`). The URL holds the
pieces merged, and it is a text itself when there is no slot among them (`spelled`). So the grouping
of a sum makes no difference. Everything else is unknown, and then the call is flagged
(`urlExpression_spelled`).
-/

namespace ApiSurface

open ApiSurface.Expr (IsMerged merged isMerged_merged literalText?_merged literalText?_eq
  forall_isLiteral_merged stripParens stripKind_stripKind IsText textPieces template?_eq
  foldl_merged pushAll_merged_merged)
open ApiSurface.Syntax (Node Tree)

/-- A template has a slot, and its literal pieces are merged. -/
def UrlExpression.IsNormal : UrlExpression → Prop
  | templated segments => IsMerged segments ∧ ∃ p ∈ segments, p.isLiteral = false
  | _ => True

namespace Http

/-! ### Pieces -/

/-- The URL that the pieces spell out. -/
def spelled (pieces : List UrlSegment) : UrlExpression :=
  if ∀ p ∈ pieces, p.isLiteral then .literal (String.join (pieces.map UrlSegment.text))
  else .templated (merged pieces)

theorem ofSegments_merged (pieces : List UrlSegment) :
    ofSegments (merged pieces) = spelled pieces := by
  rw [ofSegments, literalText?_merged, literalText?_eq, spelled]
  by_cases h : ∀ p ∈ pieces, p.isLiteral
  · rw [if_pos h, if_pos h]
  · rw [if_neg h, if_neg h]

theorem isNormal_spelled (pieces : List UrlSegment) : (spelled pieces).IsNormal := by
  rw [spelled]
  split
  · trivial
  · next h =>
    refine ⟨isMerged_merged pieces, ?_⟩
    rw [← forall_isLiteral_merged] at h
    simpa using h

theorem isUnknown_spelled (pieces : List UrlSegment) : (spelled pieces).isUnknown = false := by
  rw [spelled]
  split <;> rfl

/-! ### Sums -/

/-- Whether the node is an expression with a plus sign. -/
def IsSum (n : Node) : Prop := n.kind = "binary_operator" ∧ n.hasToken "+"

instance (n : Node) : Decidable (IsSum n) := inferInstanceAs (Decidable (_ ∧ _))

/-- The expressions that are added in the node, from left to right. -/
inductive HasOperands : Node → List Node → Prop
  | operand {n : Node} (h : sumOperands? (stripParens n) = none) : HasOperands n [stripParens n]
  | sum {n left right : Node} {lefts rights : List Node}
    (h : sumOperands? (stripParens n) = some (left, right)) (hleft : HasOperands left lefts)
    (hright : HasOperands right rights) : HasOperands n (lefts ++ rights)

/-- What is added is spelled out if it is a text, and otherwise a slot. -/
def operandPieces (operand : Node) : List UrlSegment :=
  if IsText (stripParens operand) then textPieces (stripParens operand) else [.slot operand.text]

variable {n left right : Node} {operands : List Node}

theorem sumLeaves_of_some (h : sumOperands? (stripParens n) = some (left, right)) :
    sumLeaves n = sumLeaves left ++ sumLeaves right := by
  rw [sumLeaves]
  split
  · next h' =>
    obtain ⟨rfl, rfl⟩ := Prod.mk.inj (Option.some.inj (h.symm.trans h'))
    rfl
  · next h' => simp [h] at h'

theorem sumLeaves_of_none (h : sumOperands? (stripParens n) = none) :
    sumLeaves n = [stripParens n] := by
  rw [sumLeaves]
  split
  · next h' => simp [h] at h'
  · rfl

theorem hasOperands_sumLeaves (n : Node) : HasOperands n (sumLeaves n) := by
  fun_induction sumLeaves n with
  | case1 n left right h ihleft ihright => exact .sum h ihleft ihright
  | case2 n h => exact .operand h

theorem HasOperands.eq_sumLeaves (h : HasOperands n operands) : operands = sumLeaves n := by
  induction h with
  | operand h => rw [sumLeaves_of_none h]
  | sum h _ _ ihleft ihright => rw [sumLeaves_of_some h, ihleft, ihright]

theorem sumLeaves_stripParens (n : Node) : sumLeaves (stripParens n) = sumLeaves n := by
  have hstrip : stripParens (stripParens n) = stripParens n := stripKind_stripKind _ n
  cases h : sumOperands? (stripParens n) with
  | none => rw [sumLeaves_of_none h, sumLeaves_of_none (hstrip.symm ▸ h), hstrip]
  | some operands => rw [sumLeaves_of_some h, sumLeaves_of_some (hstrip.symm ▸ h)]

theorem leafSegments_eq (leaf : Node) : leafSegments leaf = merged (operandPieces leaf) := by
  rw [leafSegments, template?_eq, operandPieces]
  split <;> rfl

/-! ### URLs -/

theorem urlExpression_eq (n : Node) :
    urlExpression n
      = if IsText (stripParens n) then spelled (textPieces (stripParens n))
        else if IsSum (stripParens n) then spelled ((sumLeaves n).flatMap operandPieces)
        else .unknown (stripParens n).text := by
  have hstrip : stripParens (stripParens n) = stripParens n := stripKind_stripKind _ n
  have hstep : ∀ l leaf, Expr.pushAll (merged l) (leafSegments leaf)
      = merged (l ++ operandPieces leaf) := fun l leaf => by
    rw [leafSegments_eq, pushAll_merged_merged]
  have hleaves : (sumLeaves n).foldl (fun acc leaf => Expr.pushAll acc (leafSegments leaf)) []
      = merged ((sumLeaves n).flatMap operandPieces) := foldl_merged hstep [] (sumLeaves n)
  rw [urlExpression, template?_eq, hstrip, sumLeaves_stripParens]
  by_cases htext : IsText (stripParens n)
  · rw [if_pos htext, if_pos htext]
    exact ofSegments_merged _
  rw [if_neg htext, if_neg htext]
  by_cases hsum : IsSum (stripParens n)
  · rw [if_pos hsum]
    exact (if_pos hsum).trans ((congrArg ofSegments hleaves).trans (ofSegments_merged _))
  · rw [if_neg hsum]
    exact if_neg hsum

theorem isNormal_urlExpression (n : Node) : (urlExpression n).IsNormal := by
  rw [urlExpression_eq]
  split
  · exact isNormal_spelled _
  · split
    · exact isNormal_spelled _
    · trivial

theorem isUnknown_urlExpression (n : Node) :
    (urlExpression n).isUnknown ↔ ¬ IsText (stripParens n) ∧ ¬ IsSum (stripParens n) := by
  rw [urlExpression_eq]
  split
  · next h => simp [isUnknown_spelled, h]
  · next h =>
    split
    · next hsum => simp [isUnknown_spelled, hsum]
    · next hsum => simp [UrlExpression.isUnknown, h, hsum]

theorem not_isText_of_isSum (h : IsSum n) : ¬ IsText n := by
  rintro (⟨hk, -⟩ | ⟨hk, -⟩)
  · simp [IsSum, hk] at h
  · simp [IsSum, hk] at h

theorem urlExpression_of_isSum (h : IsSum (stripParens n)) (hop : HasOperands n operands) :
    urlExpression n = spelled (operands.flatMap operandPieces) := by
  rw [urlExpression_eq, if_neg (not_isText_of_isSum h), if_pos h, hop.eq_sumLeaves]

/-- A call is flagged when its URL is not known. -/
theorem flagged_factOf (s : Source) (call : Node) (target : Target) :
    (factOf s call target).url.IsNormal ∧
    (.unknownUrl ∈ (factOf s call target).degradations ↔
      (factOf s call target).url.isUnknown) := by
  constructor
  · dsimp only [factOf]
    split
    · exact isNormal_urlExpression _
    · trivial
  · simp [factOf, Degradations.mem_addIf]

/-- **URLs are in normal form.** A URL is unknown if the argument is neither a text nor a sum, up to
parentheses. Otherwise it is what the text spells out, or what the operands of the sum spell out one
after the other; sums whose operands spell out the same have the same URL. The flag of a call says
whether its URL is unknown. -/
theorem urlExpression_spelled :
    (∀ n, (urlExpression n).IsNormal ∧
      ((urlExpression n).isUnknown ↔ ¬ IsText (stripParens n) ∧ ¬ IsSum (stripParens n)) ∧
      (IsText (stripParens n) → urlExpression n = spelled (textPieces (stripParens n))) ∧
      (IsSum (stripParens n) → ∃ operands, (∀ l, HasOperands n l ↔ l = operands) ∧
        urlExpression n = spelled (operands.flatMap operandPieces))) ∧
    (∀ n n' operands operands', IsSum (stripParens n) → IsSum (stripParens n') →
      HasOperands n operands → HasOperands n' operands' →
      operands.map operandPieces = operands'.map operandPieces →
      urlExpression n = urlExpression n') ∧
    ∀ s, ∀ c ∈ calls s, c.url.IsNormal ∧ (.unknownUrl ∈ c.degradations ↔ c.url.isUnknown) := by
  refine ⟨fun n => ⟨isNormal_urlExpression n, isUnknown_urlExpression n, fun h => ?_, fun h => ?_⟩,
    fun n n' operands operands' h h' hop hop' heq => ?_, fun s c hc => ?_⟩
  · rw [urlExpression_eq, if_pos h]
  · have hleaves := hasOperands_sumLeaves n
    exact ⟨sumLeaves n, fun l => ⟨HasOperands.eq_sumLeaves, fun hl => hl ▸ hleaves⟩,
      urlExpression_of_isSum h hleaves⟩
  · rw [urlExpression_of_isSum h hop, urlExpression_of_isSum h' hop', List.flatMap_def,
      List.flatMap_def, heq]
  · obtain ⟨call, target, rfl⟩ := exists_factOf_of_mem_calls hc
    exact flagged_factOf s call target

section Regrouped

open ApiSurface.Syntax (ParseTree)
open ApiSurface.Syntax.ParseTree

/-- The text `"/a"` from the given byte on. -/
def quotedAt (field : Option String) (i : Nat) : ParseTree :=
  rule "string" field i (i + 4) [
    rule "string_start" none i (i + 1) [],
    rule "string_content" none (i + 1) (i + 3) [],
    rule "string_end" none (i + 3) (i + 4) []]

/-- The text `f"/{b}"` from the given byte on. -/
def formattedAt (field : Option String) (i : Nat) : ParseTree :=
  rule "string" field i (i + 7) [
    rule "string_start" none i (i + 2) [],
    rule "string_content" none (i + 2) (i + 3) [],
    rule "interpolation" none (i + 3) (i + 6) [
      token "\x7b" (i + 3) (i + 4),
      rule "identifier" "expression" (i + 4) (i + 5) [],
      token "\x7d" (i + 5) (i + 6)],
    rule "string_end" none (i + 6) (i + 7) []]

/-- The tree of `("/a" + x) + f"/{b}"`. -/
def leftwardTree : Tree := Tree.lower "(\"/a\" + x) + f\"/\x7bb\x7d\"" <|
  rule "binary_operator" none 0 20 [
    rule "parenthesized_expression" "left" 0 10 [
      token "(" 0 1,
      rule "binary_operator" none 1 9 [
        quotedAt "left" 1,
        token "+" 6 7,
        rule "identifier" "right" 8 9 []],
      token ")" 9 10],
    token "+" 11 12,
    formattedAt "right" 13]

/-- The tree of `"/a" + (x + f"/{b}")`. -/
def rightwardTree : Tree := Tree.lower "\"/a\" + (x + f\"/\x7bb\x7d\")" <|
  rule "binary_operator" none 0 20 [
    quotedAt "left" 0,
    token "+" 5 6,
    rule "parenthesized_expression" "right" 7 20 [
      token "(" 7 8,
      rule "binary_operator" none 8 19 [
        rule "identifier" "left" 8 9 [],
        token "+" 10 11,
        formattedAt "right" 12],
      token ")" 19 20]]

/-- The theorem applies to the two ways of grouping a sum of three. -/
theorem urlExpression_regrouped :
    IsSum (stripParens leftwardTree.root) ∧ IsSum (stripParens rightwardTree.root) ∧
    urlExpression leftwardTree.root = urlExpression rightwardTree.root ∧
    urlExpression rightwardTree.root
      = .templated [.literal "/a", .slot "x", .literal "/", .slot "b"] := by
  have hleft : IsSum (stripParens leftwardTree.root) := by decide +kernel
  have hright : IsSum (stripParens rightwardTree.root) := by decide +kernel
  have hpieces : (sumLeaves leftwardTree.root).map operandPieces
      = (sumLeaves rightwardTree.root).map operandPieces := by decide +kernel
  exact ⟨hleft, hright, urlExpression_spelled.2.1 _ _ _ _ hleft hright (hasOperands_sumLeaves _)
    (hasOperands_sumLeaves _) hpieces, by decide +kernel⟩

end Regrouped

end Http

end ApiSurface
