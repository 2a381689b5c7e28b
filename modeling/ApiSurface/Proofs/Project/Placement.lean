import ApiSurface.Proofs.Project.Prefix

/-!
# The places of groups

What the statuses of the groups say about the kept edges: a root has none above it, a linked group
is below a root, and a cyclic one lies on or below a cycle (`Graph.IsPlaced`). Linked groups, and
no others, get the key of their parent and the prefix of the include that is kept.

`GroupIndex.build_places_every_group` says so of the groups of all files, together with what the
queue does: it runs empty, it gives out no group twice, and the prefix of a group is computed when
the one of its parent is final.
-/

namespace ApiSurface.Project

namespace Graph

variable {g : Graph} {i : Nat} {declared : RouteGroup}

/-- The group `placed` shows the place of the group `declared`, which is the group `i`. -/
structure IsPlaced (g : Graph) (i : Nat) (declared placed : RouteGroup) : Prop where
  root_iff : placed.status = .root ↔ g.kept? i = none
  linked_iff : placed.status = .linked ↔
    (∃ e, g.kept? i = some e) ∧ ∃ n root, g.ancestor? n i = some root ∧ g.kept? root = none
  cyclic_iff : placed.status = .cyclic ↔ g.Endless i
  cyclic_iff_below_cycle : placed.status = .cyclic ↔ g.BelowCycle i
  /-- A linked group shows the edge that is kept. -/
  parent_of_linked : placed.status = .linked → ∃ e parent, g.kept? i = some e ∧
    g.groups[e.parent]? = some parent ∧ placed.parent = some parent.key ∧
    placed.mountPrefix = e.mount.mountPrefix
  /-- Any other group keeps what it declares. -/
  parent_of_not_linked : placed.status ≠ .linked →
    placed.parent = declared.parent ∧ placed.mountPrefix = declared.mountPrefix

/-- The three places: without a parent, below a root, or without a lineage. -/
theorem place_cases (hi : i < g.size) :
    (g.kept? i = none ∧ ∃ p, knownPrefix? g.prefixes i = some p) ∨
    (∃ e, g.kept? i = some e ∧ g.Grounded i ∧ ∃ p, knownPrefix? g.prefixes i = some p) ∨
    (∃ e, g.kept? i = some e ∧ ¬ g.Grounded i ∧ knownPrefix? g.prefixes i = none) := by
  cases hk : g.kept? i with
  | none =>
    have hreached := (mem_reached_iff hi).mpr (grounded_of_root hk)
    exact .inl ⟨rfl, _, knownPrefix?_prefixes hreached⟩
  | some e =>
    refine .inr ?_
    by_cases hg : g.Grounded i
    · exact .inl ⟨e, rfl, hg, _, knownPrefix?_prefixes ((mem_reached_iff hi).mpr hg)⟩
    · refine .inr ⟨e, rfl, hg, knownPrefix?_prefixes_eq_none_iff.mpr ?_⟩
      rwa [mem_reached_iff hi]

theorem placed_of_root {p : String} (hk : g.kept? i = none) :
    g.placed (some p) i declared
      = { declared with status := .root, effectivePrefix := some p } := by
  simp only [placed, hk]

theorem placed_of_kept {p : String} {e : Edge} (hk : g.kept? i = some e) :
    g.placed (some p) i declared =
      { declared with
        status := .linked
        parent := g.groups[e.parent]?.map (·.key)
        mountPrefix := e.mount.mountPrefix
        effectivePrefix := some p } := by
  simp only [placed, hk]

/-- **The place of every group** is the one that the kept edges give it. -/
theorem isPlaced_placed (declared : RouteGroup) (hi : i < g.size) :
    g.IsPlaced i declared (g.placed (knownPrefix? g.prefixes i) i declared) := by
  rcases place_cases hi with ⟨hk, p, hp⟩ | ⟨e, hk, hg, p, hp⟩ | ⟨e, hk, hg, hp⟩
  · -- without a parent
    have hground := grounded_of_root hk
    have hend : ¬ g.Endless i := fun h => not_grounded_iff_endless.mpr h hground
    have hcycle := (not_congr (endless_iff_below_cycle hi)).mp hend
    rw [hp, placed_of_root hk]
    constructor <;> simp [hk, hend, hcycle]
  · -- below a root
    have hend : ¬ g.Endless i := fun h => not_grounded_iff_endless.mpr h hg
    have hcycle := (not_congr (endless_iff_below_cycle hi)).mp hend
    have hup := grounded_iff_ancestor?.mp hg
    have hparent := List.getElem?_eq_getElem (parent_lt_of_kept? hk)
    rw [hp, placed_of_kept hk]
    constructor <;> simp [hk, hend, hcycle, hup, hparent]
  · -- without a lineage
    have hend := not_grounded_iff_endless.mp hg
    have hcycle := (endless_iff_below_cycle hi).mp hend
    have hup := (not_congr grounded_iff_ancestor?).mp hg
    rw [hp, placed]
    constructor <;> simp [hk, hend, hcycle, hup]

theorem length_placedGroups (g : Graph) : g.placedGroups.length = g.size := by
  simp [placedGroups, size]

theorem getElem?_placedGroups (g : Graph) (i : Nat) :
    g.placedGroups[i]? = g.groups[i]?.map (g.placed (knownPrefix? g.prefixes i) i) := by
  simp [placedGroups]

end Graph

open ApiSurface.Project.Graph (knownPrefix?)

/-- **Every group is placed.** The queue over the groups of all files runs empty and gives out each
group at most once; whenever it gives out a group with a kept edge, the final prefix of the parent
is in the table already; and the index shows each group with its place. -/
theorem GroupIndex.build_places_every_group (files : List FileFacts) :
    let g := graph files
    g.Drains g.roots g.reached ∧ g.reached.Nodup ∧
    (∀ before i behind e, g.reached = before ++ i :: behind → g.kept? i = some e →
      ∃ p, knownPrefix? (before.foldl g.addPrefix []) e.parent = some p ∧
        knownPrefix? g.prefixes e.parent = some p) ∧
    (build files).groups.length = g.groups.length ∧
    ∀ i declared, g.groups[i]? = some declared →
      ∃ placed, (build files).groups[i]? = some placed ∧ g.IsPlaced i declared placed := by
  intro g
  refine ⟨g.drains_reached, g.nodup_reached, ?_, g.length_placedGroups, ?_⟩
  · intro before i behind e hsplit hk
    have hparent := g.parentsFirst_reached before i behind hsplit e hk
    have hreached : e.parent ∈ g.reached := hsplit ▸ List.mem_append_left _ hparent
    have hfinal := Graph.knownPrefix?_prefixes hreached
    exact ⟨_, (Graph.knownPrefix?_foldl_of_prefix hsplit hparent).trans hfinal, hfinal⟩
  · intro i declared hi
    refine ⟨_, ?_, Graph.isPlaced_placed declared (List.getElem?_eq_some_iff.mp hi).1⟩
    exact (g.getElem?_placedGroups i).trans (congrArg _ hi)

end ApiSurface.Project
