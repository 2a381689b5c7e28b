import Mathlib.Algebra.Order.BigOperators.Group.List
import Mathlib.Algebra.Order.Ring.Nat
import Mathlib.Data.List.TakeWhile
import ApiSurface.Proofs.Expr.Parts

/-!
# Positions of arguments

How many values a `*` unpacks is not known from the source. So an argument is sure to get a position
(`IsBoundAt`) only in front of the first `*`, and then the position is its number among the
positional arguments (`isBoundAt_iff`). The arguments of a call are collected without regard to
that: those behind a `*` follow the others as if it were not there (`positional_ofCall`).
-/

namespace ApiSurface.Expr.Arguments

open ApiSurface.Syntax (Node)

variable {call a : Node} {i : Nat}

/-- Whether an iterable is unpacked into positional arguments. -/
def isSplat (n : Node) : Bool := n.kind == "list_splat"

/-- Whether the argument is passed by position. -/
def isPositional (n : Node) : Bool :=
  n.kind != "keyword_argument" && n.kind != "dictionary_splat" && !isSplat n

/-- The number of positions that an argument fills, if each `*` unpacks so many values. -/
def width (unpacked : Node → Nat) (n : Node) : Nat :=
  if isSplat n then unpacked n else if isPositional n then 1 else 0

/-- The call is sure to pass the argument at the position: those in front of it fill so many
positions, whatever is unpacked. A generator without parentheses of its own is the only argument. -/
def IsBoundAt (call : Node) (i : Nat) (a : Node) : Prop :=
  ∃ list, call.childByField? "arguments" = some list ∧
    if list.kind = "argument_list" then
      ∃ before after, list.namedChildren = before ++ a :: after ∧ isPositional a ∧
        ∀ unpacked, (before.map (width unpacked)).sum = i
    else a = list ∧ i = 0

/-- The positional arguments in front of the first `*`. -/
def beforeSplat (call : Node) : List Node :=
  match call.childByField? "arguments" with
  | some list =>
    if list.kind = "argument_list" then
      (list.namedChildren.takeWhile fun n => !isSplat n).filter isPositional
    else [list]
  | none => []

/-- The positional arguments behind the first `*`. -/
def afterSplat (call : Node) : List Node :=
  match call.childByField? "arguments" with
  | some list =>
    if list.kind = "argument_list" then
      (list.namedChildren.dropWhile fun n => !isSplat n).filter isPositional
    else []
  | none => []

/-! ### Places in filtered lists -/

/-- The `i`-th element that passes a filter stands behind `i` others that pass it. -/
theorem getElem?_filter_iff {α : Type} {p : α → Bool} {l : List α} {x : α} :
    (l.filter p)[i]? = some x ↔ ∃ before after, l = before ++ x :: after ∧ p x ∧
      (before.filter p).length = i := by
  constructor
  · intro h
    obtain ⟨hi, hx⟩ := List.getElem?_eq_some_iff.mp h
    have hsplit : l.filter p = (l.filter p).take i ++ x :: (l.filter p).drop (i + 1) := by
      rw [← hx, List.getElem_cons_drop, List.take_append_drop]
    obtain ⟨before, rest, rfl, hbefore, hrest⟩ := List.filter_eq_append_iff.mp hsplit
    obtain ⟨skipped, after, rfl, hskipped, hpx, -⟩ := List.filter_eq_cons_iff.mp hrest
    refine ⟨before ++ skipped, after, (List.append_assoc ..).symm, hpx, ?_⟩
    rw [List.filter_append, List.filter_eq_nil_iff.mpr hskipped, List.append_nil, hbefore,
      List.length_take, Nat.min_eq_left (Nat.le_of_lt hi)]
  · rintro ⟨before, after, rfl, hpx, rfl⟩
    rw [List.filter_append, List.filter_cons_of_pos hpx, List.getElem?_append_right (Nat.le_refl _),
      Nat.sub_self, List.getElem?_cons_zero]

/-! ### What is collected -/

theorem positional_add (args : Arguments) (n : Node) :
    (args.add n).positional = args.positional ++ [n].filter isPositional := by
  rw [add]
  split
  · next hk =>
    have hno : isPositional n = false := by simp [isPositional, hk]
    split <;> simp [hno]
  · next hk => simp [isPositional, isSplat, hk]
  · next hk => simp [isPositional, isSplat, hk]
  · next hkeyword hlist hdict =>
    have hyes : isPositional n = true := by
      simp only [isPositional, isSplat, Bool.and_eq_true, Bool.not_eq_true', bne_iff_ne,
        beq_eq_false_iff_ne]
      exact ⟨⟨hkeyword, hdict⟩, hlist⟩
    simp [hyes]

theorem positional_foldl_add (args : Arguments) (l : List Node) :
    (l.foldl add args).positional = args.positional ++ l.filter isPositional := by
  induction l generalizing args with
  | nil => simp
  | cons n l ih =>
    rw [List.foldl_cons, ih, positional_add, List.append_assoc, ← List.filter_append,
      List.singleton_append]

/-- **What is taken for positions.** Arguments are numbered as if no `*` filled a position. -/
theorem positional_ofCall (call : Node) :
    (ofCall call).positional = beforeSplat call ++ afterSplat call := by
  cases hlist : call.childByField? "arguments" with
  | none => simp only [ofCall, beforeSplat, afterSplat, hlist, empty, List.append_nil]
  | some list =>
    simp only [ofCall, beforeSplat, afterSplat, hlist, ofList]
    split
    · rw [positional_foldl_add, ← List.filter_append, List.takeWhile_append_dropWhile]
      rfl
    · rfl

/-! ### What is certain -/

variable {before : List Node}

theorem not_isSplat_of_isPositional (h : isPositional a) : isSplat a = false := by
  simpa [isPositional] using (Bool.and_eq_true_iff.mp h).2

theorem sum_width (h : ∀ n ∈ before, isSplat n = false) (unpacked : Node → Nat) :
    (before.map (width unpacked)).sum = (before.filter isPositional).length := by
  induction before with
  | nil => rfl
  | cons n before ih =>
    rw [List.forall_mem_cons] at h
    rw [List.map_cons, List.sum_cons, ih h.2, width, h.1, List.filter_cons]
    by_cases hn : isPositional n
    · simp [hn, Nat.add_comm]
    · simp [hn]

/-- Where the position does not depend on what is unpacked, nothing is. -/
theorem not_isSplat_of_sum (h : ∀ unpacked, (before.map (width unpacked)).sum = i) :
    ∀ n ∈ before, isSplat n = false := by
  refine fun n hn => Bool.eq_false_iff.mpr fun hsplat => ?_
  have hwidth : width (fun _ => i + 1) n = i + 1 := if_pos hsplat
  have hle : width (fun _ => i + 1) n ≤ (before.map (width fun _ => i + 1)).sum :=
    List.le_sum_of_mem (List.mem_map_of_mem hn)
  rw [hwidth, h] at hle
  exact absurd hle (Nat.not_succ_le_self i)

/-- **What is certain.** An argument is sure to get a position exactly in front of the first `*`,
and then it is the one that is taken for it. -/
theorem isBoundAt_iff : IsBoundAt call i a ↔ (beforeSplat call)[i]? = some a := by
  cases hlist : call.childByField? "arguments" with
  | none => simp [IsBoundAt, beforeSplat, hlist]
  | some list =>
    simp only [IsBoundAt, beforeSplat, hlist, Option.some.injEq, exists_eq_left']
    by_cases hk : list.kind = "argument_list"
    · rw [if_pos hk, if_pos hk, getElem?_filter_iff]
      constructor
      · rintro ⟨before, after, hsplit, ha, hsum⟩
        have hbefore := not_isSplat_of_sum hsum
        refine ⟨before, after.takeWhile fun n => !isSplat n, ?_, ha, ?_⟩
        · rw [hsplit, List.takeWhile_append_of_pos (by simpa using hbefore), List.takeWhile_cons,
            not_isSplat_of_isPositional ha]
          rfl
        · rw [← sum_width hbefore fun _ => 0, hsum]
      · rintro ⟨before, after, hsplit, ha, rfl⟩
        refine ⟨before, after ++ list.namedChildren.dropWhile fun n => !isSplat n, ?_, ha, ?_⟩
        · rw [← List.cons_append, ← List.append_assoc, ← hsplit, List.takeWhile_append_dropWhile]
        · refine fun unpacked => sum_width (fun n hn => ?_) unpacked
          have hmem : n ∈ list.namedChildren.takeWhile fun n => !isSplat n :=
            hsplit ▸ List.mem_append_left _ hn
          simpa using List.mem_takeWhile_imp hmem
    · rw [if_neg hk, if_neg hk]
      cases i with
      | zero => simp [eq_comm]
      | succ i => simp

end ApiSurface.Expr.Arguments
