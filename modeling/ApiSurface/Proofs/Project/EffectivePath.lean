import ApiSurface.Project.Resolve
import ApiSurface.Proofs.Project.Placement

/-!
# Effective paths of routes

The effective path of a route in a group with a lineage is the path of one list of fragments: those
of the lineage from the root down, and the raw path behind them. Without a lineage only the
prefix that the group declares stands before the raw path. The routes of such groups, and no others,
are flagged when a project is resolved.
-/

namespace ApiSurface.Project.GroupIndex

open ApiSurface.Routing (joinPaths joinPresent joinPaths_cons_joinPaths)
open ApiSurface.Project.Graph (knownPrefix? joinPresent_singleton)

variable {files : List FileFacts} {route : Route} {key : GroupKey} {i : Nat}

/-! ### The group of a route -/

theorem lt_size_of_indexOf? (hi : indexOf? (build files).groups key = some i) :
    i < (graph files).size :=
  (graph files).length_placedGroups ▸ indexOf?_lt hi

/-- The group of a route is the declared one with its place. -/
theorem exists_groupOf?_eq (hkey : route.group = some key)
    (hi : indexOf? (build files).groups key = some i) :
    ∃ declared, (graph files).groups[i]? = some declared ∧ (build files).groupOf? route
      = some ((graph files).placed (knownPrefix? (graph files).prefixes i) i declared) := by
  have hlt := lt_size_of_indexOf? hi
  refine ⟨_, List.getElem?_eq_getElem hlt, ?_⟩
  rw [groupOf?, hkey, Option.bind_some, find?, hi, Option.bind_some]
  exact ((graph files).getElem?_placedGroups i).trans
    (congrArg _ (List.getElem?_eq_getElem hlt))

theorem effectivePrefix_placed (g : Graph) (known : Option String) (i : Nat) (group : RouteGroup) :
    (g.placed known i group).effectivePrefix
      = some (known.getD (joinPaths group.declaredPrefix.toList)) := by
  unfold Graph.placed
  split
  · rw [joinPresent_singleton]
    rfl
  · split <;> rfl

/-- The effective path, given what is known about the prefix of the group. -/
theorem effectivePath?_of_indexOf? {raw : String} (hraw : route.rawPath = some raw)
    (hkey : route.group = some key) (hi : indexOf? (build files).groups key = some i) :
    (build files).effectivePath? route = some (joinPaths
      [(knownPrefix? (graph files).prefixes i).getD
        (joinPaths ((graph files).declared? i).toList), raw]) := by
  obtain ⟨declared, hd, hgroup⟩ := exists_groupOf?_eq hkey hi
  rw [effectivePath?, hraw, hgroup, Option.bind_some, effectivePrefix_placed, Option.map_some,
    Option.getD_some, Graph.declared?, hd, Option.bind_some]

/-- The prefixes of a lineage stand before the raw path in one list. -/
theorem effectivePath?_of_lineage {raw : String} {root : Nat} {es : List Edge}
    (hraw : route.rawPath = some raw) (hkey : route.group = some key)
    (hi : indexOf? (build files).groups key = some i) (hl : (graph files).Lineage root es i) :
    (build files).effectivePath? route
      = some (joinPaths ((graph files).fragments root es ++ [raw])) := by
  rw [effectivePath?_of_indexOf? hraw hkey hi,
    Graph.knownPrefix?_of_lineage (lt_size_of_indexOf? hi) hl, Option.getD_some,
    joinPaths_cons_joinPaths]

/-- Without a lineage only the declared prefix stands before the raw path. -/
theorem effectivePath?_of_not_grounded {raw : String} (hraw : route.rawPath = some raw)
    (hkey : route.group = some key) (hi : indexOf? (build files).groups key = some i)
    (hg : ¬ (graph files).Grounded i) :
    (build files).effectivePath? route
      = some (joinPaths (((graph files).declared? i).toList ++ [raw])) := by
  have hnot : i ∉ (graph files).reached :=
    (Graph.mem_reached_iff (lt_size_of_indexOf? hi)).not.mpr hg
  rw [effectivePath?_of_indexOf? hraw hkey hi, Graph.knownPrefix?_prefixes_eq_none_iff.mpr hnot,
    Option.getD_none, joinPaths_cons_joinPaths]

/-! ### Groups without a lineage -/

/-- The route belongs to a group of the index that has no lineage. -/
def IsAdrift (files : List FileFacts) (route : Route) : Prop :=
  ∃ key i, route.group = some key ∧ indexOf? (build files).groups key = some i ∧
    ¬ (graph files).Grounded i

theorem isCyclic_iff_isAdrift : (build files).isCyclic route ↔ IsAdrift files route := by
  have hstatus : ∀ key i, route.group = some key → indexOf? (build files).groups key = some i →
      ((build files).isCyclic route ↔ ¬ (graph files).Grounded i) := by
    intro key i hkey hi
    obtain ⟨declared, -, hgroup⟩ := exists_groupOf?_eq hkey hi
    have hplaced := Graph.isPlaced_placed declared (lt_size_of_indexOf? hi)
    rw [isCyclic, hgroup, Option.any_some, beq_iff_eq, hplaced.cyclic_iff,
      Graph.not_grounded_iff_endless]
  constructor
  · intro h
    obtain ⟨group, hgroup, -⟩ := (Option.any_eq_true _ _).mp h
    obtain ⟨key, hkey, hfind⟩ := Option.bind_eq_some_iff.mp hgroup
    obtain ⟨i, hi, -⟩ := Option.bind_eq_some_iff.mp hfind
    exact ⟨key, i, hkey, hi, (hstatus key i hkey hi).mp h⟩
  · rintro ⟨key, i, hkey, hi, hg⟩
    exact (hstatus key i hkey hi).mpr hg

/-- A route is flagged when it is adrift; nothing else is added to its flags. -/
theorem degradations_resolve :
    (IsAdrift files route →
      ((build files).resolve route).degradations = route.degradations.add .unresolvedGroup) ∧
    (¬ IsAdrift files route →
      ((build files).resolve route).degradations = route.degradations) := by
  rw [← isCyclic_iff_isAdrift]
  constructor <;> intro h <;> simp [resolve, Degradations.addIf, h]

/-- The routes of a resolved project are those of the files, each resolved by the index. -/
theorem routes_resolve_perm (files : List FileFacts) :
    (Project.resolve files).routes.Perm
      ((files.flatMap (·.routes)).map (build (byPath files)).resolve) := by
  have hfiles : (byPath files).Perm files := List.mergeSort_perm _ _
  exact (List.mergeSort_perm _ _).trans ((hfiles.flatMap_right _).map _)

/-! ### Effective paths -/

/-- **Effective paths are flat.** The effective path of a route with a raw path, whose group is in
the index, joins the fragments of the lineage of the group and the raw path; without a lineage it
joins the prefix that the group declares and the raw path. When a project is resolved, each route
gets its effective path, and the flag of unresolved groups is added to the routes whose group has no
lineage. -/
theorem effectivePath?_eq_joinPaths (files : List FileFacts) :
    (∀ route raw key i, route.rawPath = some raw → route.group = some key →
      indexOf? (build files).groups key = some i →
      (∀ root es, (graph files).Lineage root es i → (build files).effectivePath? route
        = some (joinPaths ((graph files).fragments root es ++ [raw]))) ∧
      (¬ (graph files).Grounded i → (build files).effectivePath? route
        = some (joinPaths (((graph files).declared? i).toList ++ [raw])))) ∧
    (Project.resolve files).routes.Perm
      ((files.flatMap (·.routes)).map (build (byPath files)).resolve) ∧
    ∀ route,
      ((build (byPath files)).resolve route).effectivePath
        = (build (byPath files)).effectivePath? route ∧
      (IsAdrift (byPath files) route → ((build (byPath files)).resolve route).degradations
        = route.degradations.add .unresolvedGroup) ∧
      (¬ IsAdrift (byPath files) route → ((build (byPath files)).resolve route).degradations
        = route.degradations) := by
  refine ⟨fun route raw key i hraw hkey hi => ⟨fun root es hl => ?_, fun hg => ?_⟩,
    routes_resolve_perm files, fun route => ⟨rfl, degradations_resolve⟩⟩
  · exact effectivePath?_of_lineage hraw hkey hi hl
  · exact effectivePath?_of_not_grounded hraw hkey hi hg

end ApiSurface.Project.GroupIndex
