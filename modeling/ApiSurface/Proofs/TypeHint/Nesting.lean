import ApiSurface.Proofs.TypeHint.Below
import ApiSurface.Proofs.TypeHint.Shapes
import ApiSurface.Proofs.Types.Union

/-!
# Nesting of readings and types

A reading counts how deeply it is nested and gives up at `maxDepth`; every reading that it asks for
is nested one deeper (`Yields`). So an annotation has one reading, whatever its aliases and quotes
lead to, cycles included, and the type is at most two constructors deeper for each level: an
optional around a union is all that one level adds (`normalize_comes_to_an_end`).
-/

namespace ApiSurface.TypeHint

open ApiSurface.Syntax (Node)

variable {s : Source} {below : Below} {look : Look} {n : Node} {d : Descriptor} {t : TypeInfo}
  {k depth : Nat}

/-! ### Depth of types -/

theorem depth_le_of_isPart (hbelow : ∀ look c, (below look c).descriptor.depth ≤ k) (hk : 1 ≤ k)
    (h : IsPart below d) : d.depth ≤ k := by
  cases h with
  | reading look c => exact hbelow look c
  | missing => exact hk
  | absent => exact hk

/-- One level adds at most two constructors. -/
theorem depth_le_of_isBuilt (hbelow : ∀ look c, (below look c).descriptor.depth ≤ k) (hk : 1 ≤ k)
    (h : IsBuilt below d) : d.depth ≤ k + 2 := by
  have hpart : ∀ {d}, IsPart below d → d.depth ≤ k := depth_le_of_isPart hbelow hk
  have hparts : ∀ {ds}, (∀ d ∈ ds, IsPart below d) → Descriptor.depthAll ds ≤ k := fun h =>
    Descriptor.depthAll_le fun d hd => hpart (h d hd)
  cases h with
  | part h => exact Nat.le_trans (hpart h) (Nat.le_add_right k 2)
  | unknown | primitive | reference | literal =>
    exact Nat.le_trans hk (Nat.le_add_right k 2)
  | bare form =>
    have hbare : (bareForm form).depth ≤ 2 := by
      cases form <;> exact Nat.le_of_ble_eq_true rfl
    exact Nat.le_trans hbare (Nat.le_add_left 2 k)
  | list h | set h =>
    have := hpart h
    simp only [Descriptor.depth]
    omega
  | dict hkey hvalue =>
    have := hpart hkey
    have := hpart hvalue
    simp only [Descriptor.depth]
    omega
  | tuple _ h | generic _ h =>
    have := hparts h
    simp only [Descriptor.depth]
    omega
  | callable _ h hr =>
    have := hparts h
    have := hpart hr
    simp only [Descriptor.depth]
    omega
  | union h => exact Descriptor.depth_unionOf_le (fun d hd => hpart (h d hd)) hk

theorem depth_readWithin_le (s : Source) (depth : Nat) (look : Look) (n : Node) :
    (readWithin s depth look n).descriptor.depth ≤ 2 * depth + 1 := by
  induction depth generalizing look n with
  | zero => exact Nat.le_refl 1
  | succ depth ih =>
    exact depth_le_of_isBuilt ih (Nat.le_add_left 1 _) (isBuilt_level s _ look n)

/-! ### Readings come to an end -/

/-- The node, read in these circumstances and so deeply nested, gives the type after finitely many
readings of what it asks for, each of them nested one deeper. -/
inductive Yields (s : Source) : Nat → Look → Node → TypeInfo → Prop
  | tooDeep {depth : Nat} {look : Look} {n : Node} (h : maxDepth ≤ depth) :
    Yields s depth look n .unknown
  | read {depth : Nat} {look : Look} {n : Node} {below : Below} (h : depth < maxDepth)
    (hbelow : ∀ r ∈ asked s look n, Yields s (depth + 1) (r.under look.visiting) r.node
      (below (r.under look.visiting) r.node)) :
    Yields s depth look n (level s below look n)

theorem Yields.eq_readWithin (h : Yields s depth look n t) :
    t = readWithin s (maxDepth - depth) look n := by
  induction h with
  | tooDeep h =>
    rw [Nat.sub_eq_zero_of_le h]
    rfl
  | @read depth look n below h _ ih =>
    have hleft : maxDepth - depth = maxDepth - (depth + 1) + 1 := by omega
    rw [hleft]
    exact level_congr_of_asked rfl rfl ih

theorem yields_readWithin (hdepth : depth + k = maxDepth) (look : Look) (n : Node) :
    Yields s depth look n (readWithin s k look n) := by
  induction k generalizing depth look n with
  | zero => exact .tooDeep (Nat.le_of_eq hdepth.symm)
  | succ k ih => exact .read (by omega) fun r _ => ih (by omega) _ _

/-- **Readings come to an end**, and what they give is not nested deeply. Every annotation of every
source, of whatever table and parser, has one reading, in which no reading is nested deeper than the
limit. Its type has at most two constructors for each level, and one for where the limit is met. -/
theorem normalize_comes_to_an_end (s : Source) (n : Node) :
    (∀ t, Yields s 0 .initial n t ↔ t = normalize s n) ∧
    (normalize s n).descriptor.depth ≤ 2 * maxDepth + 1 := by
  refine ⟨fun t => ⟨fun h => h.eq_readWithin, ?_⟩, depth_readWithin_le s maxDepth .initial n⟩
  rintro rfl
  exact yields_readWithin (Nat.zero_add maxDepth) .initial n

section Cycle

/-- A name that stands for itself. -/
def selfNode : Node :=
  .mk 0 ⟨"identifier", none, true, false, false, default⟩ "A" []

def selfAlias : Source where
  path := "cycle.py"
  parse text := .ofRoot text selfNode
  tree := .ofRoot "A" selfNode
  table := ⟨#[⟨.module, none, selfNode, [⟨"A", 0, none, .typeAlias ⟨selfNode, false⟩⟩]⟩], #[0]⟩
  catalog := .builtin

example : normalize selfAlias selfNode = TypeInfo.unknown.withAlias "A" := by decide +kernel

end Cycle

end ApiSurface.TypeHint
