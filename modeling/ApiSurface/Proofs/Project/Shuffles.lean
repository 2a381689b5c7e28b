import Mathlib.Data.List.Nodup
import ApiSurface.Proofs.Project.Sorting

/-!
# Files in any order

Files can be given in any order, and so can the groups and the includes inside each file. The index
of groups depends on the files in three ways only: by the module of each path, by the groups sorted
by their keys, and by the includes sorted by their places. Where paths, keys and places are distinct,
none of the three shows the order of the files (`GroupIndex.build_eq_of_isShuffle`).
-/

namespace ApiSurface.Project

variable {files files' : List FileFacts}

/-- The groups and the includes of a file may be in another order. -/
structure IsRearranged (f f' : FileFacts) : Prop where
  path : f'.path = f.path
  module : f'.module = f.module
  groups : f'.groups.Perm f.groups
  includes : f'.includes.Perm f.includes

/-- The files may be in another order, and so may the groups and the includes inside each file. -/
def IsShuffle (files files' : List FileFacts) : Prop :=
  ∃ l, l.Perm files ∧ List.Forall₂ IsRearranged l files'

/-! ### The modules of the files -/

/-- Where paths are distinct, the module of a path is that of the only file with the path. -/
theorem moduleOf?_eq_some_iff (hpaths : (files.map (·.path)).Nodup) {path m : String} :
    moduleOf? files path = some m ↔ ∃ f ∈ files, f.path = path ∧ f.module = some m := by
  have hfound : ∀ m, moduleOf? files path = some m →
      ∃ f ∈ files, f.path = path ∧ f.module = some m := by
    intro m h
    obtain ⟨f, hf, hm⟩ := List.exists_of_findSome?_eq_some h
    split at hm
    case isTrue hpath => exact ⟨f, List.mem_reverse.mp hf, hpath, hm⟩
    case isFalse => cases hm
  refine ⟨hfound m, ?_⟩
  rintro ⟨f, hf, hpath, hm⟩
  cases h : moduleOf? files path with
  | none =>
    have hnone := List.findSome?_eq_none_iff.mp h f (List.mem_reverse.mpr hf)
    rw [if_pos hpath, hm] at hnone
    cases hnone
  | some m' =>
    obtain ⟨f', hf', hpath', hm'⟩ := hfound m' h
    obtain rfl := List.inj_on_of_nodup_map hpaths hf hf' (hpath.trans hpath'.symm)
    rw [← hm', hm]

theorem IsShuffle.paths_perm (h : IsShuffle files files') :
    (files'.map (·.path)).Perm (files.map (·.path)) := by
  obtain ⟨l, hperm, hsame⟩ := h
  have hpaths : files'.map (·.path) = l.map (·.path) := by
    clear hperm
    induction hsame with
    | nil => rfl
    | cons hf _ ih => rw [List.map_cons, List.map_cons, hf.path, ih]
  exact hpaths ▸ hperm.map _

/-- The files of a shuffle are the files, rearranged. -/
theorem IsShuffle.mem_iff (h : IsShuffle files files') (path : String) (module : Option String) :
    (∃ f ∈ files', f.path = path ∧ f.module = module) ↔
      ∃ f ∈ files, f.path = path ∧ f.module = module := by
  obtain ⟨l, hperm, hsame⟩ := h
  simp only [← hperm.mem_iff]
  clear hperm
  induction hsame with
  | nil => simp
  | cons hf _ ih => simp only [List.exists_mem_cons_iff, hf.path, hf.module, ih]

theorem IsShuffle.moduleOf?_eq (h : IsShuffle files files') (hpaths : (files.map (·.path)).Nodup) :
    moduleOf? files' = moduleOf? files := by
  funext path
  refine Option.ext fun m => ?_
  rw [moduleOf?_eq_some_iff hpaths, moduleOf?_eq_some_iff (h.paths_perm.nodup_iff.mpr hpaths),
    h.mem_iff]

/-! ### The sorted groups and includes -/

/-- What the files have of something is the same but for the order. -/
theorem IsShuffle.flatMap_perm {α : Type} {part : FileFacts → List α} (h : IsShuffle files files')
    (hpart : ∀ f f', IsRearranged f f' → (part f').Perm (part f)) :
    (files'.flatMap part).Perm (files.flatMap part) := by
  obtain ⟨l, hperm, hsame⟩ := h
  refine List.Perm.trans ?_ (hperm.flatMap_right part)
  clear hperm
  induction hsame with
  | nil => exact List.Perm.refl _
  | cons hf _ ih =>
    rw [List.flatMap_cons, List.flatMap_cons]
    exact (hpart _ _ hf).append ih

theorem IsShuffle.sortedGroups_eq (h : IsShuffle files files')
    (hkeys : ((files.flatMap (·.groups)).map (·.key)).Nodup) :
    sortedGroups files' = sortedGroups files := by
  have hperm : (files.flatMap (·.groups)).Perm (files'.flatMap (·.groups)) :=
    (h.flatMap_perm fun _ _ hf => hf.groups).symm
  refine ((isSortable_key RouteGroup.key).mergeSort_eq_of_perm hperm ?_).symm
  intro a ha b hb hab hba
  exact List.inj_on_of_nodup_map hkeys ha hb
    (eq_of_le_of_le GroupKey.compare hab hba)

theorem IsShuffle.sortedIncludes_eq (h : IsShuffle files files')
    (hplaces : ((files.flatMap (·.includes)).map (·.location)).Nodup) :
    sortedIncludes files' = sortedIncludes files := by
  have hperm : (files.flatMap (·.includes)).Perm (files'.flatMap (·.includes)) :=
    (h.flatMap_perm fun _ _ hf => hf.includes).symm
  refine ((isSortable_location GroupInclude.location).mergeSort_eq_of_perm hperm ?_).symm
  intro a ha b hb hab hba
  exact List.inj_on_of_nodup_map hplaces ha hb
    (eq_of_le_of_le compareLocation hab hba)

/-! ### The index -/

/-- Files are looked at for their modules only when an include is resolved. -/
theorem edge?_congr (hmodules : moduleOf? files' = moduleOf? files) (groups : List RouteGroup) :
    edge? files' groups = edge? files groups := by
  funext i
  simp only [edge?, target?, importedGroup?, isInModule, hmodules]

/-- The index depends on modules, sorted groups and sorted includes only. -/
theorem GroupIndex.build_congr (hmodules : moduleOf? files' = moduleOf? files)
    (hgroups : sortedGroups files' = sortedGroups files)
    (hincludes : sortedIncludes files' = sortedIncludes files) :
    build files' = build files := by
  have hgraph : graph files' = graph files := by
    simp only [graph, edge?_congr hmodules, hgroups, hincludes]
  simp only [build, hgraph, edge?_congr hmodules, hgroups, hincludes]

/-- **The order of the input does not matter.** Let the paths of the files be distinct, and the keys
of their groups, and the places of their includes. Then the groups with their places, the includes
that are not resolved and the effective path of every route are the same for every order of the
files and of the groups and includes inside each file. -/
theorem GroupIndex.build_eq_of_isShuffle (files files' : List FileFacts)
    (hpaths : (files.map (·.path)).Nodup)
    (hkeys : ((files.flatMap (·.groups)).map (·.key)).Nodup)
    (hplaces : ((files.flatMap (·.includes)).map (·.location)).Nodup)
    (h : IsShuffle files files') :
    (build files').groups = (build files).groups ∧
    (build files').unresolved = (build files).unresolved ∧
    ∀ r, (build files').effectivePath? r = (build files).effectivePath? r := by
  have hbuild : build files' = build files :=
    build_congr (h.moduleOf?_eq hpaths) (h.sortedGroups_eq hkeys) (h.sortedIncludes_eq hplaces)
  rw [hbuild]
  exact ⟨rfl, rfl, fun _ => rfl⟩

/-- An application with two routers, one of its own file and one of another module, and a second
include of the latter. -/
def shopMain : FileFacts :=
  { FileFacts.empty "shop/main.py" "python" with
    module := some "shop.main"
    groups := [
      { (default : RouteGroup) with key := ⟨"shop/main.py", "app", 10⟩ },
      { (default : RouteGroup) with
        key := ⟨"shop/main.py", "api", 40⟩
        declaredPrefix := some "/api" }]
    includes := [
      { (default : GroupInclude) with
        file := "shop/main.py"
        span := ⟨60, 80, 3, 1, 3, 21⟩
        parent := ⟨"shop/main.py", "app", 10⟩
        target := .local ⟨"shop/main.py", "api", 40⟩ },
      { (default : GroupInclude) with
        file := "shop/main.py"
        span := ⟨90, 120, 4, 1, 4, 31⟩
        parent := ⟨"shop/main.py", "api", 40⟩
        target := .imported "shop.users" "router"
        mountPrefix := some "/v1" },
      { (default : GroupInclude) with
        file := "shop/main.py"
        span := ⟨130, 160, 5, 1, 5, 31⟩
        parent := ⟨"shop/main.py", "app", 10⟩
        target := .imported "shop.users" "router" }] }

/-- The module of the second router, with two routes that one definition is registered under. -/
def shopUsers : FileFacts :=
  { FileFacts.empty "shop/users.py" "python" with
    module := some "shop.users"
    groups := [
      { (default : RouteGroup) with
        key := ⟨"shop/users.py", "router", 8⟩
        declaredPrefix := some "/users" }]
    routes := [
      { (default : Route) with
        file := "shop/users.py"
        span := ⟨40, 80, 3, 1, 5, 9⟩
        rawPath := some "/all"
        group := some ⟨"shop/users.py", "router", 8⟩ },
      { (default : Route) with
        file := "shop/users.py"
        span := ⟨40, 80, 3, 1, 5, 9⟩
        rawPath := some "/every"
        group := some ⟨"shop/users.py", "router", 8⟩ }] }

/-- The application with its groups and includes from last to first. -/
def shopMainReversed : FileFacts :=
  { shopMain with
    groups := shopMain.groups.reverse
    includes := shopMain.includes.reverse }

/-- The second include of the router counts in neither order. -/
theorem GroupIndex.build_eq_shop :
    (([shopMain, shopUsers].map (·.path)).Nodup ∧
      (([shopMain, shopUsers].flatMap (·.groups)).map (·.key)).Nodup ∧
      (([shopMain, shopUsers].flatMap (·.includes)).map (·.location)).Nodup ∧
      IsShuffle [shopMain, shopUsers] [shopUsers, shopMainReversed]) ∧
    (build [shopUsers, shopMainReversed]).groups = (build [shopMain, shopUsers]).groups ∧
    (build [shopUsers, shopMainReversed]).unresolved = (build [shopMain, shopUsers]).unresolved ∧
    ∀ r, (build [shopUsers, shopMainReversed]).effectivePath? r
      = (build [shopMain, shopUsers]).effectivePath? r := by
  have hpaths : ([shopMain, shopUsers].map (·.path)).Nodup := by decide
  have hkeys : (([shopMain, shopUsers].flatMap (·.groups)).map (·.key)).Nodup := by decide
  have hplaces : (([shopMain, shopUsers].flatMap (·.includes)).map (·.location)).Nodup := by decide
  have hshuffle : IsShuffle [shopMain, shopUsers] [shopUsers, shopMainReversed] :=
    ⟨[shopUsers, shopMain], List.Perm.swap _ _ _,
      .cons ⟨rfl, rfl, List.Perm.refl _, List.Perm.refl _⟩ <|
      .cons ⟨rfl, rfl, List.reverse_perm _, List.reverse_perm _⟩ .nil⟩
  exact ⟨⟨hpaths, hkeys, hplaces, hshuffle⟩,
    build_eq_of_isShuffle _ _ hpaths hkeys hplaces hshuffle⟩

end ApiSurface.Project
