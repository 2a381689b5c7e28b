import Mathlib.Data.Nat.Digits.Lemmas
import ApiSurface.Proofs.Expr.Parts
import ApiSurface.Routing.Route

/-!
# Numerals with signs

An integer expression is a decimal numeral inside parentheses and behind prefix operators
(`IntExpr`). Its value is read off a numeral that keeps the minus signs and leaves out the other
operators (`numeral?_eq`). So it is the value of the expression without its inversions, if at most
one minus sign is left and the value fits in a word (`intValue?_eq`), and an expression without
inversions is never given a wrong value (`intValue?_of_spells`). The value of an inversion is that
of its operand.
-/

namespace ApiSurface.Expr

open ApiSurface.Numeral (digit? digitsFrom? fitsWord natural? signed? word?)
open ApiSurface.Syntax (Node Tree)

/-- A prefix operator on integers. -/
inductive PrefixOperator where
  | plus | minus | invert
deriving DecidableEq, Repr

namespace PrefixOperator

/-- How the operator is written. -/
def token : PrefixOperator → String
  | plus => "+"
  | minus => "-"
  | invert => "~"

/-- What the operator does. The inversion of an integer flips the bits of its two's complement. -/
def apply : PrefixOperator → Int → Int
  | plus, i => i
  | minus, i => -i
  | invert, i => -i - 1

/-- The operators among the tokens of a node. -/
def among (n : Node) : List PrefixOperator :=
  [plus, minus, invert].filter fun o => n.hasToken o.token

end PrefixOperator

/-- A decimal numeral inside parentheses and behind prefix operators. -/
inductive IntExpr where
  | numeral (digits : List Char)
  | parens (inner : IntExpr)
  | prefixed (operator : PrefixOperator) (operand : IntExpr)

/-- The value of a decimal numeral, in which underscores do not count. -/
def decimalValue (digits : List Char) : Nat :=
  Nat.ofDigits 10 ((digits.filter (· ≠ '_')).reverse.map fun c => c.toNat - '0'.toNat)

/-- Whether the text is a decimal numeral: ASCII digits and underscores, and at least one digit. -/
def IsDecimal (digits : List Char) : Prop :=
  (∀ c ∈ digits, ('0' ≤ c ∧ c ≤ '9') ∨ c = '_') ∧ ∃ c ∈ digits, c ≠ '_'

instance (digits : List Char) : Decidable (IsDecimal digits) :=
  decidable_of_iff ((digits.all fun c => ('0' ≤ c ∧ c ≤ '9') ∨ c = '_') = true ∧
      (digits.any fun c => c ≠ '_') = true)
    (by simp [IsDecimal])

namespace IntExpr

/-- The value of an expression. -/
def value : IntExpr → Int
  | numeral digits => decimalValue digits
  | parens inner => inner.value
  | prefixed operator operand => operator.apply operand.value

/-- The digits and underscores of the numeral. -/
def digits : IntExpr → List Char
  | numeral digits => digits
  | parens inner | prefixed _ inner => inner.digits

/-- The operators from the outermost to the innermost. -/
def operators : IntExpr → List PrefixOperator
  | numeral _ => []
  | parens inner => inner.operators
  | prefixed operator operand => operator :: operand.operators

/-- The number of minus signs. -/
def minusCount (e : IntExpr) : Nat := e.operators.count .minus

/-- The expression without its inversions. -/
def uninverted : IntExpr → IntExpr
  | numeral digits => numeral digits
  | parens inner => parens inner.uninverted
  | prefixed .plus operand => prefixed .plus operand.uninverted
  | prefixed .minus operand => prefixed .minus operand.uninverted
  | prefixed .invert operand => operand.uninverted

/-- The node is written as the expression. -/
inductive Spells : Node → IntExpr → Prop
  | numeral {n : Node} {digits : List Char} (kind_eq : n.kind = "integer")
    (text_eq : n.text.toList = digits) (isDecimal : IsDecimal digits) : Spells n (numeral digits)
  | parens {n inner : Node} {e : IntExpr} (kind_eq : n.kind = "parenthesized_expression")
    (inner_eq : n.firstNamed? = some inner) (spells : Spells inner e) : Spells n (parens e)
  | prefixed {n operand : Node} {e : IntExpr} {operator : PrefixOperator}
    (kind_eq : n.kind = "unary_operator") (operator_eq : PrefixOperator.among n = [operator])
    (operand_eq : n.childByField? "argument" = some operand) (spells : Spells operand e) :
    Spells n (prefixed operator e)

end IntExpr

/-! ### Decimal numerals -/

theorem digit?_eq {c : Char} (h : '0' ≤ c ∧ c ≤ '9') : digit? c = some (c.toNat - '0'.toNat) :=
  if_pos h

theorem digitsFrom?_eq {l : List Char} (h : ∀ c ∈ l, '0' ≤ c ∧ c ≤ '9') (acc : Nat) :
    digitsFrom? acc l
      = some (acc * 10 ^ l.length +
          Nat.ofDigits 10 (l.reverse.map fun c => c.toNat - '0'.toNat)) := by
  induction l generalizing acc with
  | nil => simp [digitsFrom?]
  | cons c l ih =>
    rw [List.forall_mem_cons] at h
    simp only [digitsFrom?, digit?_eq h.1]
    rw [ih h.2, List.reverse_cons, List.map_append, Nat.ofDigits_append, List.length_map,
      List.length_reverse, List.length_cons, List.map_singleton, Nat.ofDigits_singleton]
    congr 1
    ring

/-- The digits of a decimal numeral without the underscores. -/
theorem IsDecimal.digits {l : List Char} (h : IsDecimal l) :
    l.filter (· ≠ '_') ≠ [] ∧ ∀ c ∈ l.filter (· ≠ '_'), '0' ≤ c ∧ c ≤ '9' := by
  obtain ⟨hdigits, c, hc, hne⟩ := h
  constructor
  · exact List.ne_nil_of_mem (List.mem_filter.mpr ⟨hc, by simpa using hne⟩)
  · intro d hd
    obtain ⟨hd, hunder⟩ := List.mem_filter.mp hd
    exact (hdigits d hd).resolve_right (by simpa using hunder)

theorem natural?_of_isDecimal {l : List Char} (h : IsDecimal l) :
    natural? (l.filter (· ≠ '_')) = some (decimalValue l) := by
  have hdigits := digitsFrom?_eq h.digits.2 0
  rw [Nat.zero_mul, Nat.zero_add, ← decimalValue] at hdigits
  obtain ⟨c, r, hcr⟩ := List.exists_cons_of_ne_nil h.digits.1
  rw [hcr] at hdigits ⊢
  exact hdigits

/-- Digits are read behind one minus sign or none, and not behind two. -/
theorem signed?_minuses {l : List Char} {v : Nat} (h : ∀ c ∈ l, '0' ≤ c ∧ c ≤ '9')
    (hv : natural? l = some v) (k : Nat) :
    signed? (List.replicate k '-' ++ l) = if k ≤ 1 then some ((-1) ^ k * (v : Int)) else none := by
  match k with
  | 0 =>
    cases l with
    | nil => cases hv
    | cons c l =>
      have hc := h c List.mem_cons_self
      have hminus : c ≠ '-' := by rintro rfl; revert hc; decide
      have hplus : c ≠ '+' := by rintro rfl; revert hc; decide
      simp [signed?, hv, hminus, hplus]
  | 1 => simp [signed?, hv]
  | k + 2 =>
    have hmany : ¬ k + 2 ≤ 1 := by omega
    rw [if_neg hmany]
    rfl

/-! ### Expressions -/

variable {n m : Node} {e : IntExpr}

theorem numeral?_congr (h : stripParens n = stripParens m) : numeral? n = numeral? m := by
  rw [numeral?, numeral?, h]

theorem numeral?_of_integer (hk : n.kind = "integer") :
    numeral? n = some (n.text.toList.filter (· ≠ '_')) := by
  have hstrip : stripParens n = n := stripKind_of_ne (by simp [hk])
  rw [numeral?, hstrip]
  exact if_pos (.inl hk)

theorem numeral?_of_unary (hk : n.kind = "unary_operator")
    (hm : n.childByField? "argument" = some m) :
    numeral? n = (numeral? m).map fun inner => if n.hasToken "-" then '-' :: inner else inner := by
  have hstrip : stripParens n = n := stripKind_of_ne (by simp [hk])
  have hne : ¬ (n.kind = "integer" ∨ n.kind = "float") := by simp [hk]
  rw [numeral?, hstrip]
  simp only [if_neg hne, if_pos hk]
  split
  · next operand h => rw [Option.some.inj (h.symm.trans hm)]
  · next h => simp [hm] at h

theorem PrefixOperator.hasToken_minus_iff {operator : PrefixOperator} (h : among n = [operator]) :
    n.hasToken "-" ↔ operator = minus := by
  have hmem : minus ∈ among n ↔ n.hasToken "-" := by simp [among, token]
  rw [← hmem, h, List.mem_singleton, eq_comm]

namespace IntExpr

/-- The numeral that is read: the minus signs, and then the digits. -/
theorem numeral?_of_spells (h : Spells n e) :
    numeral? n = some (List.replicate e.minusCount '-' ++ e.digits.filter (· ≠ '_')) := by
  induction h with
  | numeral kind_eq text_eq isDecimal =>
    rw [numeral?_of_integer kind_eq, text_eq]
    rfl
  | parens kind_eq inner_eq spells ih =>
    rw [numeral?_congr (stripKind_of_firstNamed? kind_eq inner_eq), ih]
    rfl
  | @prefixed n operand e operator kind_eq operator_eq operand_eq spells ih =>
    rw [numeral?_of_unary kind_eq operand_eq, ih, Option.map_some]
    by_cases hminus : operator = .minus
    · rw [if_pos ((PrefixOperator.hasToken_minus_iff operator_eq).mpr hminus)]
      simp [hminus, minusCount, operators, digits, List.replicate_succ]
    · rw [if_neg (mt (PrefixOperator.hasToken_minus_iff operator_eq).mp hminus)]
      simp [hminus, minusCount, operators, digits]

theorem isDecimal_digits (h : Spells n e) : IsDecimal e.digits := by
  induction h with
  | numeral _ _ isDecimal => exact isDecimal
  | parens _ _ _ ih => exact ih
  | prefixed _ _ _ _ ih => exact ih

theorem value_uninverted (e : IntExpr) :
    e.uninverted.value = (-1) ^ e.minusCount * (decimalValue e.digits : Int) := by
  induction e with
  | numeral l => simp [uninverted, value, minusCount, operators, digits]
  | parens inner ih => exact ih
  | prefixed operator operand ih =>
    cases operator with
    | plus => exact ih
    | minus =>
      have hcount : (prefixed .minus operand).minusCount = operand.minusCount + 1 :=
        List.count_cons_self
      rw [uninverted, value, ih, hcount, PrefixOperator.apply, pow_succ]
      simp [digits]
    | invert => exact ih

theorem uninverted_eq_self (h : .invert ∉ e.operators) : e.uninverted = e := by
  induction e with
  | numeral l => rfl
  | parens inner ih => rw [uninverted, ih h]
  | prefixed operator operand ih =>
    rw [operators, List.mem_cons, not_or] at h
    cases operator with
    | plus | minus => rw [uninverted, ih h.2]
    | invert => exact absurd rfl h.1

/-- What is read is the value without the inversions. -/
theorem intValue?_eq (h : Spells n e) :
    intValue? n = (if e.minusCount ≤ 1 then some e.uninverted.value else none).filter fitsWord := by
  have hdecimal := isDecimal_digits h
  rw [intValue?, numeral?_of_spells h, Option.bind_some, word?,
    signed?_minuses hdecimal.digits.2 (natural?_of_isDecimal hdecimal), value_uninverted]

theorem eq_of_intValue? (h : Spells n e) {i : Int} (hi : intValue? n = some i) :
    i = e.uninverted.value := by
  rw [intValue?_eq h, Option.filter_eq_some_iff] at hi
  split at hi
  · exact (Option.some.inj hi.1).symm
  · cases hi.1

end IntExpr

/-! ### What numbers are read for -/

open IntExpr (Spells)

theorem kind_stripParens_of_spells (h : Spells n e) :
    (stripParens n).kind = "integer" ∨ (stripParens n).kind = "unary_operator" := by
  induction h with
  | numeral kind_eq _ _ =>
    rw [stripParens, stripKind_of_ne (by simp [kind_eq])]
    exact .inl kind_eq
  | parens kind_eq inner_eq _ ih =>
    rw [stripParens, stripKind_of_firstNamed? kind_eq inner_eq]
    exact ih
  | prefixed kind_eq _ _ _ _ =>
    rw [stripParens, stripKind_of_ne (by simp [kind_eq])]
    exact .inr kind_eq

/-- As a literal, an integer expression is its value, or its text when no value is read. -/
theorem literalValue?_of_spells (h : Spells n e) :
    literalValue? n = some ((intValue? n).elim (.other (stripParens n).text) .int) := by
  have hstrip : numeral? (stripParens n) = numeral? n := numeral?_congr (stripKind_stripKind _ n)
  have hvalue : intValue? (stripParens n) = intValue? n := by rw [intValue?, hstrip, ← intValue?]
  rcases kind_stripParens_of_spells h with hk | hk
  all_goals
    simp only [literalValue?, hk, hvalue]
    cases intValue? n <;> rfl

theorem intValue?_of_literalValue? (h : Spells n e) {i : Int}
    (hi : literalValue? n = some (.int i)) : intValue? n = some i := by
  rw [literalValue?_of_spells h] at hi
  cases hvalue : intValue? n with
  | none => simp [hvalue] at hi
  | some j => simpa [hvalue] using hi

theorem intValue?_of_lengthValue? {k : Nat} (h : lengthValue? n = some k) :
    intValue? n = some (k : Int) := by
  obtain ⟨i, hi, hk⟩ := Option.bind_eq_some_iff.mp h
  split at hk
  · next hpos => rw [hi, ← Option.some.inj hk, Int.toNat_of_nonneg hpos]
  · cases hk

/-- A status code is the value of an integer, or else it is in the name of a constant. -/
theorem intValue?_of_statusCode? {k : Nat} (h : Routing.statusCode? n = some k)
    (hconstant : Routing.statusConstant? (stripParens n).text.toList = none) :
    intValue? n = some (k : Int) := by
  rw [Routing.statusCode?] at h
  split at h
  · next i hi =>
    split at h
    · next hpos => rw [hi, ← Option.some.inj h, Int.toNat_of_nonneg hpos.1]
    · cases h
  · simp [hconstant] at h

/-- **Integers are not misread.** What is read off an integer expression is its value without the
inversions, and nothing when there are several minus signs or the value does not fit in a word. So
an expression without inversions is its value wherever it is read as a number: by itself, as a
literal, as a length, and as a status code (unless a comment inside it names a status). -/
theorem intValue?_of_spells (h : Spells n e) :
    intValue? n = (if e.minusCount ≤ 1 then some e.uninverted.value else none).filter fitsWord ∧
    (.invert ∉ e.operators →
      (∀ i, intValue? n = some i → i = e.value) ∧
      (∀ i, literalValue? n = some (.int i) → i = e.value) ∧
      (∀ k : Nat, lengthValue? n = some k → k = e.value) ∧
      ∀ k : Nat, Routing.statusConstant? (stripParens n).text.toList = none →
        Routing.statusCode? n = some k → k = e.value) := by
  refine ⟨IntExpr.intValue?_eq h, fun hinvert => ?_⟩
  have hvalue : ∀ i, intValue? n = some i → i = e.value := fun i hi => by
    rw [IntExpr.eq_of_intValue? h hi, IntExpr.uninverted_eq_self hinvert]
  exact ⟨hvalue, fun i hi => hvalue i (intValue?_of_literalValue? h hi),
    fun k hk => hvalue k (intValue?_of_lengthValue? hk),
    fun k hconstant hk => hvalue k (intValue?_of_statusCode? hk hconstant)⟩

section Signed

open ApiSurface.Syntax.ParseTree

/-- The tree of `-(+9_223_372_036_854_775_808)`. -/
def leastTree : Tree := Tree.lower "-(+9_223_372_036_854_775_808)" <|
  rule "unary_operator" none 0 29 [
    token "-" 0 1,
    rule "parenthesized_expression" "argument" 1 29 [
      token "(" 1 2,
      rule "unary_operator" none 2 28 [
        token "+" 2 3,
        rule "integer" "argument" 3 28 []],
      token ")" 28 29]]

/-- The tree of `~5`. -/
def invertedTree : Tree := Tree.lower "~5" <|
  rule "unary_operator" none 0 2 [token "~" 0 1, rule "integer" "argument" 1 2 []]

/-- The expression that the first tree spells. -/
def leastExpr : IntExpr :=
  .prefixed .minus (.parens (.prefixed .plus (.numeral "9_223_372_036_854_775_808".toList)))

/-- A node of the first tree. -/
def leastNode (i : Nat) : Node := (leastTree.node? i).getD default

theorem spells_leastTree : Spells (leastNode 0) leastExpr := by
  have hnumeral : Spells (leastNode 6) (.numeral "9_223_372_036_854_775_808".toList) :=
    .numeral (by decide +kernel) (by decide +kernel) (by decide +kernel)
  have hplus : Spells (leastNode 4) (.prefixed .plus _) :=
    .prefixed (by decide +kernel) (by decide +kernel) (by with_unfolding_all rfl) hnumeral
  have hparens : Spells (leastNode 2) (.parens _) :=
    .parens (by decide +kernel) (by with_unfolding_all rfl) hplus
  exact .prefixed (by decide +kernel) (by decide +kernel) (by with_unfolding_all rfl) hparens

/-- The theorem applies to the least integer that fits in a word. -/
theorem intValue?_of_spells_least :
    Spells (leastNode 0) leastExpr ∧ intValue? (leastNode 0) = some (-9223372036854775808) ∧
    leastExpr.value = -9223372036854775808 := by
  have hread := intValue?_of_spells spells_leastTree
  have hvalue : intValue? (leastNode 0) = some (-9223372036854775808) := by
    rw [hread.1]
    decide +kernel
  exact ⟨spells_leastTree, hvalue, ((hread.2 (by decide)).1 _ hvalue).symm⟩

/-- An inversion is read as its operand. -/
theorem intValue?_inverted :
    Spells invertedTree.root (.prefixed .invert (.numeral ['5'])) ∧
    intValue? invertedTree.root = some 5 ∧
    literalValue? invertedTree.root = some (.int 5) ∧
    (IntExpr.prefixed .invert (.numeral ['5'])).value = -6 := by
  have hnumeral : Spells ((invertedTree.node? 2).getD default) (.numeral ['5']) :=
    .numeral (by decide +kernel) (by decide +kernel) (by decide +kernel)
  have hinverted : Spells invertedTree.root (.prefixed .invert (.numeral ['5'])) :=
    .prefixed (by decide +kernel) (by decide +kernel) (by with_unfolding_all rfl) hnumeral
  have hvalue : intValue? invertedTree.root = some 5 := by
    rw [IntExpr.intValue?_eq hinverted]
    decide +kernel
  refine ⟨hinverted, hvalue, ?_, by decide⟩
  rw [literalValue?_of_spells hinverted, hvalue]
  rfl

end Signed

end ApiSurface.Expr
