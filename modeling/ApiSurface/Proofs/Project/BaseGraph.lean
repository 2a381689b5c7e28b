import Mathlib.Logic.Relation
import Mathlib.Order.WellFounded
import Mathlib.Data.Set.Card
import ApiSurface.Project.Classes

/-!
# The graph of bases

Classes are connected by their resolved bases. A class **reaches** the classes that zero or more
such links lead to. Where no class is below itself, one may recurse from a class to its bases
(`Acyclic.wellFounded`).
-/

namespace ApiSurface.Project.Hierarchy

variable {h : Hierarchy} {i b : Nat}

/-- The class `b` is a resolved base of the class `i`. -/
def HasBase (h : Hierarchy) (i b : Nat) : Prop := b ∈ h.basesOf i

/-- Zero or more base links lead from the class `i` to the class `j`. -/
def Reaches (h : Hierarchy) : Nat → Nat → Prop := Relation.ReflTransGen h.HasBase

/-- No class is reached from itself by one or more base links. -/
def Acyclic (h : Hierarchy) : Prop := ∀ i, ¬ Relation.TransGen h.HasBase i i

theorem HasBase.lt_size (hb : h.HasBase i b) : i < h.size := by
  rw [size, ← h.length_bases]
  by_contra hi
  rw [HasBase, basesOf, List.getElem?_eq_none (Nat.le_of_not_lt hi)] at hb
  simp at hb

theorem HasBase.mem_flatten (hb : h.HasBase i b) : b ∈ h.bases.flatten := by
  have hi : i < h.bases.length := h.length_bases ▸ hb.lt_size
  rw [HasBase, basesOf, List.getElem?_eq_getElem hi] at hb
  exact List.mem_flatten.mpr ⟨_, List.getElem_mem hi, hb⟩

/-- Classes whose bases have smaller numbers, however the numbers are given, form no cycle. -/
theorem acyclic_of_rank_lt (rank : Nat → Nat) (hlt : ∀ i b, h.HasBase i b → rank b < rank i) :
    h.Acyclic := by
  intro i hi
  have hless : ∀ j, Relation.TransGen h.HasBase i j → rank j < rank i := fun j hj => by
    induction hj with
    | single hb => exact hlt i _ hb
    | tail _ hb ih => exact (hlt _ _ hb).trans ih
  exact Nat.lt_irrefl (rank i) (hless i hi)

/-- Classes that stand behind their bases form no cycle. -/
theorem acyclic_of_base_lt (hlt : ∀ i b, h.HasBase i b → b < i) : h.Acyclic :=
  acyclic_of_rank_lt id hlt

/-- **Recursion to bases.** Without cycles the classes that are strictly above a class become
fewer with each link, and there are finitely many. -/
theorem Acyclic.wellFounded (hac : h.Acyclic) : WellFounded fun b i => h.HasBase i b := by
  let above (i : Nat) : Set Nat := {j | Relation.TransGen h.HasBase i j}
  have hfin : ∀ i, (above i).Finite := fun i => by
    refine h.bases.flatten.finite_toSet.subset fun j hj => ?_
    obtain ⟨k, -, hk⟩ := Relation.TransGen.tail'_iff.mp hj
    exact hk.mem_flatten
  refine Subrelation.wf (fun {b i} hb => ?_) (measure fun i => (above i).ncard).wf
  -- `b` itself is above `i`, but not above `b`
  refine Set.ncard_lt_ncard ⟨fun j hj => .head hb hj, fun hsub => ?_⟩ (hfin i)
  exact hac b (hsub (.single hb))

end ApiSurface.Project.Hierarchy
