import ApiSurface.Proofs.Project.Embedding
import ApiSurface.Proofs.Project.Placement

/-!
# Forests with further groups

Where the groups of a forest stand among further groups, and no edge to one of them is added, their
lineages are the same but for the indices. So their prefixes and places are the same
(`Graph.Embeds.placed_eq`).
-/

namespace ApiSurface.Project

/-- An edge between groups whose indices were shifted. -/
def Edge.moved (e : Edge) (σ : Nat → Nat) : Edge := ⟨σ e.parent, σ e.child, e.mount⟩

namespace Graph

variable {σ : Nat → Nat} {g g' : Graph} {i root : Nat} {e : Edge} {es : List Edge}

/-- The groups of `g` stand among those of `g'`, with the same edges above them. -/
structure Embeds (σ : Nat → Nat) (g g' : Graph) : Prop where
  getElem?_groups : ∀ i, g'.groups[σ i]? = g.groups[i]?
  kept?_eq : ∀ i, g'.kept? (σ i) = (g.kept? i).map (·.moved σ)

namespace Embeds

theorem lt_size (h : Embeds σ g g') (hi : i < g.size) : σ i < g'.size := by
  have hget := (h.getElem?_groups i).trans (List.getElem?_eq_getElem hi)
  exact (List.getElem?_eq_some_iff.mp hget).1

theorem declared?_eq (h : Embeds σ g g') (i : Nat) : g'.declared? (σ i) = g.declared? i := by
  rw [declared?, h.getElem?_groups, declared?]

theorem kept?_none (h : Embeds σ g g') (hk : g.kept? i = none) : g'.kept? (σ i) = none := by
  rw [h.kept?_eq, hk, Option.map_none]

theorem kept?_some (h : Embeds σ g g') (hk : g.kept? i = some e) :
    g'.kept? (σ i) = some (e.moved σ) := by
  rw [h.kept?_eq, hk, Option.map_some]

/-! ### Lineages -/

theorem lineage (h : Embeds σ g g') (hl : g.Lineage root es i) :
    g'.Lineage (σ root) (es.map (·.moved σ)) (σ i) := by
  induction hl with
  | root hr => exact .root (h.kept?_none hr)
  | under _ hk ih =>
    rw [List.map_append]
    exact .under ih (h.kept?_some hk)

theorem grounded_iff (h : Embeds σ g g') : g'.Grounded (σ i) ↔ g.Grounded i := by
  constructor
  · rintro ⟨root, es, hl⟩
    -- by induction on the lineage among the further groups: all of it stands among the former ones
    generalize hj : σ i = j at hl
    induction hl generalizing i with
    | root hr =>
      refine grounded_of_root ?_
      rw [← hj, h.kept?_eq, Option.map_eq_none_iff] at hr
      exact hr
    | under hl hk ih =>
      rw [← hj, h.kept?_eq, Option.map_eq_some_iff] at hk
      obtain ⟨e, hk, rfl⟩ := hk
      exact (grounded_iff_parent hk).mpr (ih rfl)
  · rintro ⟨root, es, hl⟩
    exact ⟨_, _, h.lineage hl⟩

theorem fragments_eq (h : Embeds σ g g') (root : Nat) (es : List Edge) :
    g'.fragments (σ root) (es.map (·.moved σ)) = g.fragments root es := by
  have hedge : ∀ e : Edge, g'.edgeFragments (e.moved σ) = g.edgeFragments e := by
    intro e
    rw [edgeFragments, edgeFragments, Edge.moved, h.declared?_eq]
  rw [fragments, fragments, h.declared?_eq, List.flatMap_map]
  exact congrArg _ (List.flatMap_congr fun e _ => hedge e)

/-! ### Places -/

theorem knownPrefix?_eq (h : Embeds σ g g') (hi : i < g.size) :
    knownPrefix? g'.prefixes (σ i) = knownPrefix? g.prefixes i := by
  by_cases hg : g.Grounded i
  · obtain ⟨root, es, hl⟩ := hg
    rw [knownPrefix?_of_lineage hi hl, knownPrefix?_of_lineage (h.lt_size hi) (h.lineage hl),
      h.fragments_eq]
  · have hnone : knownPrefix? g.prefixes i = none :=
      knownPrefix?_prefixes_eq_none_iff.mpr ((mem_reached_iff hi).not.mpr hg)
    have hnone' : knownPrefix? g'.prefixes (σ i) = none :=
      knownPrefix?_prefixes_eq_none_iff.mpr
        ((mem_reached_iff (h.lt_size hi)).not.mpr (h.grounded_iff.not.mpr hg))
    rw [hnone, hnone']

/-- **Further groups change no place.** -/
theorem placed_eq (h : Embeds σ g g') (hi : i < g.size) (group : RouteGroup) :
    g'.placed (knownPrefix? g'.prefixes (σ i)) (σ i) group
      = g.placed (knownPrefix? g.prefixes i) i group := by
  rw [h.knownPrefix?_eq hi]
  cases knownPrefix? g.prefixes i with
  | none => rfl
  | some p =>
    cases hk : g.kept? i with
    | none => rw [placed_of_root hk, placed_of_root (h.kept?_none hk)]
    | some e =>
      rw [placed_of_kept hk, placed_of_kept (h.kept?_some hk)]
      simp only [Edge.moved, h.getElem?_groups]

end Embeds

end Graph

end ApiSurface.Project
