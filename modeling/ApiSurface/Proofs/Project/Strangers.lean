import Mathlib.Data.List.Find
import ApiSurface.Proofs.Project.ClassEmbedding
import ApiSurface.Proofs.Project.Conservation
import ApiSurface.Proofs.Project.ForestEmbedding

/-!
# Files that nothing mentions

A file is a stranger to others when they mention neither its path nor the keys of its groups, when it
includes nothing, and when none of its names is one that they look for. Such a file shifts every
index and may change how many sweeps there are and where the walk over the classes begins, but
without its own facts the outcome is that of the other files alone (`resolve_stranger`).
-/

namespace ApiSurface

/-- The file has another path, and none of its facts names that path. -/
structure FileFacts.Avoids (u : FileFacts) (other : String) : Prop where
  path : u.path ≠ other
  httpCalls : ∀ c ∈ u.httpCalls, c.file ≠ other
  routes : ∀ r ∈ u.routes, r.file ≠ other
  groups : ∀ g ∈ u.groups, g.key.file ≠ other
  includes : ∀ i ∈ u.includes, i.file ≠ other
  tools : ∀ t ∈ u.tools, t.file ≠ other

/-- The group that an include points at in its own file. -/
def IncludeTarget.key? : IncludeTarget → Option GroupKey
  | .local key => some key
  | _ => none

/-- The name that an include points at in another module. -/
def IncludeTarget.importedName? : IncludeTarget → Option String
  | .imported _ name => some name
  | _ => none

/-- The keys of groups that a file mentions. -/
def FileFacts.keys (f : FileFacts) : List GroupKey :=
  f.groups.map (·.key) ++ f.routes.filterMap (·.group) ++ f.includes.map (·.parent) ++
    f.includes.filterMap (·.target.key?)

/-- The names of classes that a class looks for: those of its bases, and the last segments of those
that the types of its fields refer to. -/
def ClassDecl.sought (d : ClassDecl) : List String :=
  d.bases.map (·.symbol) ++ d.fields.filterMap fun f =>
    f.type.descriptor.referencedName?.map (Text.afterLastString '.')

/-- The facts of a project without those of one file. -/
def ProjectFacts.without (p : ProjectFacts) (path : String) : ProjectFacts where
  httpCalls := p.httpCalls.filter fun c => c.file ≠ path
  routes := p.routes.filter fun r => r.file ≠ path
  groups := p.groups.filter fun g => g.key.file ≠ path
  unresolvedIncludes := p.unresolvedIncludes.filter fun i => i.file ≠ path
  schemas := p.schemas.filter fun s => s.file ≠ path
  tools := p.tools.filter fun t => t.file ≠ path
  files := p.files.filter fun f => f.path ≠ path

namespace Project

/-- The file `f` has nothing to do with the others. -/
structure IsStranger (f : FileFacts) (others : List FileFacts) : Prop where
  isOwn : f.IsOwn
  includes : f.includes = []
  avoids : ∀ u ∈ others, u.Avoids f.path
  keys : ∀ u ∈ others, ∀ g ∈ f.groups, g.key ∉ u.keys
  groupNames : ∀ u ∈ others, ∀ i ∈ u.includes, ∀ g ∈ f.groups,
    i.target.importedName? ≠ some g.key.name
  classNames : ∀ u ∈ others, ∀ d ∈ u.classes, ∀ c ∈ f.classes, c.name ∉ d.sought

variable {files files' : List FileFacts} {f u : FileFacts}

/-- The files are those of `files'` without the file `f`, which is a stranger to them. -/
structure Joins (f : FileFacts) (files files' : List FileFacts) : Prop where
  stranger : IsStranger f files
  filter_path_ne : files'.filter (fun u => u.path ≠ f.path) = files
  eq_of_path : ∀ u ∈ files', u.path = f.path → u = f

/-! ### The other files -/

theorem Joins.byPath {before behind : List FileFacts} (h : IsStranger f (before ++ behind)) :
    Joins f (byPath (before ++ behind)) (byPath (before ++ f :: behind)) where
  stranger := by
    have hmem : ∀ {u}, u ∈ Project.byPath (before ++ behind) → u ∈ before ++ behind :=
      List.mem_mergeSort.mp
    exact ⟨h.isOwn, h.includes, fun u hu => h.avoids u (hmem hu), fun u hu => h.keys u (hmem hu),
      fun u hu => h.groupNames u (hmem hu), fun u hu => h.classNames u (hmem hu)⟩
  filter_path_ne := by
    have hkeep : ∀ u ∈ before ++ behind, decide (u.path ≠ f.path) := fun u hu =>
      decide_eq_true (h.avoids u hu).path
    rw [Project.byPath, isSortable_path.filter_mergeSort, List.filter_append,
      List.filter_cons_of_neg (by simp), ← List.filter_append, List.filter_eq_self.mpr hkeep,
      Project.byPath]
  eq_of_path u hu heq := by
    have hu := List.mem_mergeSort.mp hu
    simp only [List.mem_append, List.mem_cons] at hu
    by_contra hne
    refine (h.avoids u ?_).path heq
    simp only [List.mem_append]
    tauto

namespace Joins

theorem eq_or_mem (h : Joins f files files') (hu : u ∈ files') : u = f ∨ u ∈ files := by
  by_cases hpath : u.path = f.path
  · exact .inl (h.eq_of_path u hu hpath)
  · exact .inr (h.filter_path_ne ▸ List.mem_filter.mpr ⟨hu, decide_eq_true hpath⟩)

/-- Facts that are told apart by the files that they name. -/
theorem filter_flatMap_ne {α : Type} (h : Joins f files files') {part : FileFacts → List α}
    (fileOf : α → String) (hf : ∀ a ∈ part f, fileOf a = f.path)
    (hothers : ∀ u ∈ files, ∀ a ∈ part u, fileOf a ≠ f.path) :
    (files'.flatMap part).filter (fun a => fileOf a ≠ f.path) = files.flatMap part := by
  rw [← h.filter_path_ne]
  refine filter_flatMap fun u hu a ha => ?_
  rcases h.eq_or_mem hu with rfl | hmem
  · simp [hf a ha]
  · simp [hothers u hmem a ha, (h.stranger.avoids u hmem).path]

/-! ### Modules -/

end Joins

theorem moduleOf?_cons (u : FileFacts) (r : List FileFacts) (path : String) :
    moduleOf? (u :: r) path
      = (moduleOf? r path).or (if u.path = path then u.module else none) := by
  rw [moduleOf?, List.reverse_cons, List.findSome?_append, moduleOf?, List.findSome?_cons]
  cases (if u.path = path then u.module else none) <;> rfl

/-- Files of other paths do not matter for the module of a path. -/
theorem moduleOf?_filter {q : FileFacts → Bool} {path : String} {l : List FileFacts}
    (hq : ∀ u ∈ l, u.path = path → q u) : moduleOf? (l.filter q) path = moduleOf? l path := by
  induction l with
  | nil => rfl
  | cons u r ih =>
    have ih := ih fun v hv => hq v (List.mem_cons_of_mem u hv)
    by_cases hu : q u
    · rw [List.filter_cons_of_pos hu, moduleOf?_cons, moduleOf?_cons, ih]
    · have hne : u.path ≠ path := fun heq => hu (hq u List.mem_cons_self heq)
      rw [List.filter_cons_of_neg hu, moduleOf?_cons, ih, if_neg hne, Option.or_none]

namespace Joins

theorem moduleOf?_eq (h : Joins f files files') {path : String} (hne : path ≠ f.path) :
    moduleOf? files' path = moduleOf? files path := by
  rw [← h.filter_path_ne]
  exact (moduleOf?_filter fun u _ hu => decide_eq_true (hu ▸ hne)).symm

/-! ### Groups -/

/-- Whether a group belongs to one of the other files. -/
def keeps (f : FileFacts) (g : RouteGroup) : Bool := g.key.file ≠ f.path

theorem filter_sortedGroups (h : Joins f files files') :
    (sortedGroups files').filter (keeps f) = sortedGroups files := by
  have hparts : (files'.flatMap (·.groups)).filter (keeps f) = files.flatMap (·.groups) :=
    h.filter_flatMap_ne (fun g : RouteGroup => g.key.file) h.stranger.isOwn.groups
      fun u hu => (h.stranger.avoids u hu).groups
  rw [sortedGroups, (isSortable_key RouteGroup.key).filter_mergeSort, hparts, sortedGroups]

theorem sortedIncludes_eq (h : Joins f files files') :
    sortedIncludes files' = sortedIncludes files := by
  have hparts := h.filter_flatMap_ne GroupInclude.file (by simp [h.stranger.includes])
    fun u hu => (h.stranger.avoids u hu).includes
  have hall : ∀ i ∈ files'.flatMap (·.includes), decide (i.file ≠ f.path) := by
    intro i hmem
    obtain ⟨u, hu, hi⟩ := List.mem_flatMap.mp hmem
    rcases h.eq_or_mem hu with heq | hu
    · simp [heq, h.stranger.includes] at hi
    · exact decide_eq_true ((h.stranger.avoids u hu).includes i hi)
  rw [List.filter_eq_self.mpr hall] at hparts
  rw [sortedIncludes, hparts, sortedIncludes]

/-- A group that is not kept is one of the stranger. -/
theorem mem_groups_of_not_keeps (h : Joins f files files') {g : RouteGroup}
    (hg : g ∈ sortedGroups files') (hkeep : ¬ keeps f g) : g ∈ f.groups := by
  obtain ⟨u, hu, hgu⟩ := List.mem_flatMap.mp (List.mem_mergeSort.mp hg)
  rcases h.eq_or_mem hu with heq | hu
  · exact heq ▸ hgu
  · exact absurd (decide_eq_true ((h.stranger.avoids u hu).groups g hgu)) hkeep

theorem keeps_of_key (h : Joins f files files') (hu : u ∈ files) {key : GroupKey}
    (hkey : key ∈ u.keys) : ∀ g ∈ sortedGroups files', g.key = key → keeps f g := by
  intro g hg heq
  by_contra hkeep
  exact h.stranger.keys u hu g (h.mem_groups_of_not_keeps hg hkeep) (heq ▸ hkey)

theorem indexOf?_eq (h : Joins f files files') (hu : u ∈ files) {key : GroupKey}
    (hkey : key ∈ u.keys) :
    indexOf? (sortedGroups files') key
      = (indexOf? (sortedGroups files) key).map (keptIndex (keeps f) (sortedGroups files')) := by
  have hkeep := h.keeps_of_key hu hkey
  rw [indexOf?, indexOf?, ← h.filter_sortedGroups]
  exact lastIndex?_keptIndex fun g hg heq => hkeep g hg (of_decide_eq_true heq)

theorem isInModule_eq (h : Joins f files files') (wanted : String) {g : RouteGroup}
    (hg : keeps f g) : isInModule files' wanted g = isInModule files wanted g := by
  rw [isInModule, isInModule, h.moduleOf?_eq (of_decide_eq_true hg)]

/-- No group of the stranger has an imported name, so imports lead to the same groups. -/
theorem importedGroup?_eq (h : Joins f files files') (hu : u ∈ files) {i : GroupInclude}
    (hi : i ∈ u.includes) {module name : String} (htarget : i.target = .imported module name) :
    importedGroup? files' (sortedGroups files') i module name
      = (importedGroup? files (sortedGroups files) i module name).map
        (keptIndex (keeps f) (sortedGroups files')) := by
  let named (g : RouteGroup) : Bool := g.key.name == name && g.key != i.parent
  have hnamed : ∀ g ∈ sortedGroups files', named g → keeps f g := by
    intro g hg hname
    by_contra hkeep
    refine h.stranger.groupNames u hu i hi g (h.mem_groups_of_not_keeps hg hkeep) ?_
    rw [htarget, IncludeTarget.importedName?, beq_iff_eq.mp (Bool.and_eq_true_iff.mp hname).1]
  have hmodule : ∀ wanted,
      lastIndex? (fun g => named g && isInModule files' wanted g) (sortedGroups files')
        = (lastIndex? (fun g => named g && isInModule files wanted g) (sortedGroups files)).map
          (keptIndex (keeps f) (sortedGroups files')) := by
    intro wanted
    have hkept : ∀ g ∈ sortedGroups files', (named g && isInModule files' wanted g) → keeps f g :=
      fun g hg hq => hnamed g hg (Bool.and_eq_true_iff.mp hq).1
    rw [lastIndex?_keptIndex hkept, h.filter_sortedGroups]
    refine congrArg _ (lastIndex?_congr fun g hg => ?_)
    rw [h.isInModule_eq wanted (List.mem_filter.mp (h.filter_sortedGroups ▸ hg)).2]
  have hlast : lastIndex? named (sortedGroups files')
      = (lastIndex? named (sortedGroups files)).map
        (keptIndex (keeps f) (sortedGroups files')) := by
    rw [lastIndex?_keptIndex hnamed, h.filter_sortedGroups]
  have hcount : (sortedGroups files').filter named = (sortedGroups files).filter named := by
    rw [← h.filter_sortedGroups, List.filter_filter]
    refine List.filter_congr fun g hg => ?_
    cases hq : named g with
    | false => simp
    | true => simp [hnamed g hg hq]
  have hfile := h.moduleOf?_eq ((h.stranger.avoids u hu).includes i hi)
  simp only [importedGroup?, Option.orElse_eq_orElse, Option.orElse_eq_or, Option.map_or,
    Option.map_bind, hfile]
  rw [hmodule, hlast, hcount]
  refine congrArg₂ Option.or (congrArg (Option.bind _) (funext hmodule)) (congrArg (Option.or _) ?_)
  simp only [named]
  split <;> rfl

theorem target?_eq (h : Joins f files files') (hu : u ∈ files) {i : GroupInclude}
    (hi : i ∈ u.includes) :
    target? files' (sortedGroups files') i
      = (target? files (sortedGroups files) i).map
        (keptIndex (keeps f) (sortedGroups files')) := by
  cases htarget : i.target with
  | «local» key =>
    have hkey : key ∈ u.keys := by
      refine List.mem_append_right _ (List.mem_filterMap.mpr ⟨i, hi, ?_⟩)
      rw [htarget, IncludeTarget.key?]
    simp only [target?, htarget, h.indexOf?_eq hu hkey]
  | imported module name => simp only [target?, htarget, h.importedGroup?_eq hu hi htarget]
  | unknown => simp only [target?, htarget, Option.map_none]

theorem edge?_eq (h : Joins f files files') (hu : u ∈ files) {i : GroupInclude}
    (hi : i ∈ u.includes) :
    edge? files' (sortedGroups files') i
      = (edge? files (sortedGroups files) i).map
        (·.moved (keptIndex (keeps f) (sortedGroups files'))) := by
  have hkey : i.parent ∈ u.keys := by
    refine List.mem_append_left _ (List.mem_append_right _ ?_)
    exact List.mem_map_of_mem hi
  rw [edge?, edge?, h.indexOf?_eq hu hkey, h.target?_eq hu hi]
  cases indexOf? (sortedGroups files) i.parent with
  | none => rfl
  | some parent => cases target? files (sortedGroups files) i <;> rfl

theorem edge?_eq_of_mem (h : Joins f files files') {i : GroupInclude}
    (hi : i ∈ sortedIncludes files) :
    edge? files' (sortedGroups files') i
      = (edge? files (sortedGroups files) i).map
        (·.moved (keptIndex (keeps f) (sortedGroups files'))) := by
  obtain ⟨u, hu, hiu⟩ := List.mem_flatMap.mp (List.mem_mergeSort.mp hi)
  exact h.edge?_eq hu hiu

/-- The forest of the other files stands in that of all files. -/
theorem embeds_graph (h : Joins f files files') :
    Graph.Embeds (keptIndex (keeps f) (sortedGroups files'))
      (GroupIndex.graph files) (GroupIndex.graph files') where
  getElem?_groups i := by
    have hgroups : ∀ l, (GroupIndex.graph l).groups = sortedGroups l := fun _ => rfl
    rw [hgroups, hgroups, getElem?_keptIndex, h.filter_sortedGroups]
  kept?_eq i := by
    have hedges : ∀ l, (GroupIndex.graph l).edges
        = (sortedIncludes l).filterMap (edge? l (sortedGroups l)) := fun _ => rfl
    have hmoved : (GroupIndex.graph files').edges = (GroupIndex.graph files).edges.map
        (·.moved (keptIndex (keeps f) (sortedGroups files'))) := by
      rw [hedges, hedges, h.sortedIncludes_eq, List.map_filterMap]
      exact List.filterMap_congr fun i hi => h.edge?_eq_of_mem hi
    rw [Graph.kept?, hmoved, List.find?_map, Graph.kept?]
    refine congrArg _ (congrArg (fun p => List.find? p _) (funext fun e => ?_))
    exact (injective_keptIndex (keeps f) (sortedGroups files')).beq_eq

theorem keeps_placed (f : FileFacts) (g : Graph) (effective? : Option String) (i : Nat)
    (group : RouteGroup) : keeps f (g.placed effective? i group) = keeps f group := by
  have hkey : (g.placed effective? i group).key = group.key :=
    (congrArg RouteGroup.key (g.unplaced_placed effective? i group) :)
  rw [keeps, hkey, keeps]

theorem filter_groups_build (h : Joins f files files') :
    (GroupIndex.build files').groups.filter (keeps f) = (GroupIndex.build files).groups := by
  have hplaced : ∀ l, (GroupIndex.build l).groups = (sortedGroups l).mapIdx fun i =>
      (GroupIndex.graph l).placed (Graph.knownPrefix? (GroupIndex.graph l).prefixes i) i :=
    fun _ => rfl
  have hkept : ∀ i group, keeps f ((GroupIndex.graph files').placed
      (Graph.knownPrefix? (GroupIndex.graph files').prefixes i) i group) = keeps f group :=
    fun i group => keeps_placed f _ _ i group
  rw [hplaced, filter_mapIdx _ _ hkept, h.filter_sortedGroups, hplaced]
  refine List.ext_getElem (by simp) fun i hi _ => ?_
  have hlt : i < (sortedGroups files).length := by simpa using hi
  rw [List.getElem_mapIdx, List.getElem_mapIdx]
  exact h.embeds_graph.placed_eq hlt _

theorem unresolved_build (h : Joins f files files') :
    (GroupIndex.build files').unresolved = (GroupIndex.build files).unresolved := by
  rw [GroupIndex.build, GroupIndex.build, h.sortedIncludes_eq]
  refine List.filter_congr fun i hi => ?_
  rw [h.edge?_eq_of_mem hi, Option.isNone_map]

/-- A key that another file mentions leads to the same group. -/
theorem find?_eq (h : Joins f files files') (hu : u ∈ files) {key : GroupKey}
    (hkey : key ∈ u.keys) :
    (GroupIndex.build files').find? key = (GroupIndex.build files).find? key := by
  rw [GroupIndex.find?, indexOf?, getElem?_lastIndex?, GroupIndex.find?, indexOf?,
    getElem?_lastIndex?, ← h.filter_groups_build, ← List.filter_reverse, List.find?_filter]
  refine List.find?_congr fun g hg => ?_
  by_cases heq : g.key = key
  · have hmem : g.key ∈ (sortedGroups files').map (·.key) := by
      rw [← map_key_groups_build]
      exact List.mem_map_of_mem (List.mem_reverse.mp hg)
    obtain ⟨g', hg', hkey'⟩ := List.mem_map.mp hmem
    have hkeep := h.keeps_of_key hu hkey g' hg' (hkey'.trans heq)
    have hkeep' : keeps f g := by rwa [keeps, ← hkey']
    simp [heq, hkeep']
  · simp [heq]

theorem resolve_eq (h : Joins f files files') (hu : u ∈ files) {r : Route} (hr : r ∈ u.routes) :
    (GroupIndex.build files').resolve r = (GroupIndex.build files).resolve r := by
  have hgroup : (GroupIndex.build files').groupOf? r = (GroupIndex.build files).groupOf? r := by
    rw [GroupIndex.groupOf?, GroupIndex.groupOf?]
    cases hg : r.group with
    | none => rfl
    | some key =>
      have hkey : key ∈ u.keys := by
        refine List.mem_append_left _ (List.mem_append_left _ (List.mem_append_right _ ?_))
        exact List.mem_filterMap.mpr ⟨r, hr, hg⟩
      exact h.find?_eq hu hkey
  rw [GroupIndex.resolve, GroupIndex.resolve, GroupIndex.effectivePath?, GroupIndex.effectivePath?,
    GroupIndex.isCyclic, GroupIndex.isCyclic, hgroup]

/-! ### Classes -/

/-- Whether a class belongs to one of the other files. -/
def keepsClass (f : FileFacts) (c : ClassEntry) : Bool := c.file ≠ f.path

theorem filter_classEntries (h : Joins f files files') :
    (classEntries files').filter (keepsClass f) = classEntries files := by
  refine h.filter_flatMap_ne ClassEntry.file ?_ ?_
  · intro c hc
    obtain ⟨d, -, rfl⟩ := List.mem_map.mp hc
    rfl
  · intro u hu c hc
    obtain ⟨d, -, rfl⟩ := List.mem_map.mp hc
    exact (h.stranger.avoids u hu).path

/-- No class of the stranger has a name that is looked for. -/
theorem keepsClass_of_sought (h : Joins f files files') {c : ClassEntry}
    (hc : c ∈ classEntries files) {name : String} (hname : name ∈ c.decl.sought) :
    ∀ d ∈ classEntries files', d.decl.name == name → keepsClass f d := by
  intro d hd heq
  obtain ⟨u, hu, hcu⟩ := List.mem_flatMap.mp hc
  obtain ⟨decl, hdecl, rfl⟩ := List.mem_map.mp hcu
  obtain ⟨v, hv, hdv⟩ := List.mem_flatMap.mp hd
  obtain ⟨decl', hdecl', rfl⟩ := List.mem_map.mp hdv
  rcases h.eq_or_mem hv with rfl | hv
  · refine absurd hname ?_
    rw [← beq_iff_eq.mp heq]
    exact h.stranger.classNames u hu decl hdecl decl' hdecl'
  · exact decide_eq_true (h.stranger.avoids v hv).path

theorem embeds_ofFiles (h : Joins f files files') :
    Hierarchy.Embeds (keptIndex (keepsClass f) (classEntries files'))
      (.ofFiles files) (.ofFiles files') :=
  Hierarchy.embeds_ofFiles h.filter_classEntries fun _ hc _ hb =>
    h.keepsClass_of_sought hc (List.mem_append_left _ (List.mem_map_of_mem hb))

theorem filter_schemas (h : Joins f files files') (hac : (Hierarchy.ofFiles files).Acyclic) :
    (Hierarchy.ofFiles files').schemas.filter (fun s => s.file ≠ f.path)
      = (Hierarchy.ofFiles files).schemas := by
  have he := h.embeds_ofFiles
  have henum : ∀ c ∈ (Hierarchy.ofFiles files).classes, ∀ g ∈ c.decl.fields, ∀ name,
      g.type.descriptor.referencedName? = some name → ∀ i,
        (Hierarchy.ofFiles files').enumOf? (Hierarchy.ofFiles files').marks
          (keptIndex (keepsClass f) (classEntries files') i) name
        = (Hierarchy.ofFiles files).enumOf? (Hierarchy.ofFiles files).marks i name := by
    intro c hc g hg name hname
    refine Hierarchy.enumOf?_ofFiles h.filter_classEntries he (h.keepsClass_of_sought hc ?_)
    refine List.mem_append_right _ (List.mem_filterMap.mpr ⟨g, hg, ?_⟩)
    rw [hname, Option.map_some]
  have hkept : ∀ m p i c s, (Hierarchy.ofFiles files').schema? m p i c = some s →
      decide (s.file ≠ f.path) = keepsClass f c := fun m p i c s hs => by
    have hfile : s.file = c.file := congrArg Prod.fst (Hierarchy.isOf_of_schema? hs).location
    rw [keepsClass, hfile]
  have hclasses : ∀ l, (Hierarchy.ofFiles l).classes = classEntries l := fun _ => rfl
  rw [Hierarchy.schemas, (isSortable_location Schema.location).filter_mergeSort,
    filter_filterMap_mapIdx _ _ (hkept _ _), hclasses, h.filter_classEntries, Hierarchy.schemas,
    hclasses]
  refine congrArg (List.mergeSort · _) (congrArg _ (List.ext_getElem (by simp) fun i _ _ => ?_))
  rw [List.getElem_mapIdx, List.getElem_mapIdx]
  exact he.schema?_eq hac henum i _

end Joins

/-! ### Projects -/

/-- What is kept of a sorted list is the sorted list of what is kept. -/
theorem filter_byLocation {α : Type} (location : α → String × Span) (p : α → Bool) (l : List α) :
    (byLocation location l).filter p = byLocation location (l.filter p) :=
  (isSortable_location location).filter_mergeSort p l

/-- **A stranger changes nothing.** Let no class of a unit be below itself, and add a file that
nothing in the unit mentions, that includes nothing, and none of whose groups and classes has a name
that the unit looks for. Then the calls, routes, groups, schemas, tools and summaries of the unit are
what they are without the file, in the same order, and so are the includes that are not resolved. -/
theorem resolve_stranger (before behind : List FileFacts) (f : FileFacts)
    (hac : (Hierarchy.ofFiles (byPath (before ++ behind))).Acyclic)
    (hf : IsStranger f (before ++ behind)) :
    (resolve (before ++ f :: behind)).without f.path = resolve (before ++ behind) ∧
    (resolve (before ++ f :: behind)).unresolvedIncludes
      = (resolve (before ++ behind)).unresolvedIncludes := by
  have h := Joins.byPath hf
  set files := byPath (before ++ behind)
  set files' := byPath (before ++ f :: behind)
  have havoids := h.stranger.avoids
  have hcalls := h.filter_flatMap_ne HttpCall.file hf.isOwn.httpCalls
    fun u hu => (havoids u hu).httpCalls
  have htools := h.filter_flatMap_ne Tool.file hf.isOwn.tools
    fun u hu => (havoids u hu).tools
  have hroutes : ((files'.flatMap (·.routes)).map (GroupIndex.build files').resolve).filter
        (fun r => r.file ≠ f.path)
      = (files.flatMap (·.routes)).map (GroupIndex.build files).resolve := by
    have hparts := h.filter_flatMap_ne Route.file hf.isOwn.routes
      fun u hu => (havoids u hu).routes
    rw [List.filter_map, ← hparts]
    refine List.map_congr_left fun r hr => ?_
    obtain ⟨u, hu, hru⟩ := List.mem_flatMap.mp (hparts ▸ hr)
    exact h.resolve_eq hu hru
  have hgroups : (GroupIndex.build files').groups.filter (fun g => g.key.file ≠ f.path)
      = (GroupIndex.build files).groups := h.filter_groups_build
  have hincludes := h.unresolved_build
  have hleft : ∀ i ∈ (GroupIndex.build files).unresolved, decide (i.file ≠ f.path) := by
    intro i hi
    obtain ⟨u, hu, hiu⟩ := List.mem_flatMap.mp (List.mem_mergeSort.mp (List.mem_of_mem_filter hi))
    exact decide_eq_true ((havoids u hu).includes i hiu)
  have hsummaries : (files'.map summarize).filter (fun s => s.path ≠ f.path)
      = files.map summarize := by
    rw [List.filter_map, ← h.filter_path_ne]
    rfl
  refine ⟨?_, hincludes⟩
  simp only [ProjectFacts.without, resolve, filter_byLocation]
  rw [hcalls, hroutes, hgroups, htools, hsummaries, h.filter_schemas hac, hincludes,
    List.filter_eq_self.mpr hleft]

/-- A model with a base, and a field whose type names an enumeration. -/
def shopModels : FileFacts :=
  { FileFacts.empty "shop/models.py" "python" with
    module := some "shop.models"
    classes := [
      { (default : ClassDecl) with name := "Base", directKind := some .pydantic },
      { (default : ClassDecl) with name := "Color", isEnum := true, enumValues := [.str "red"] },
      { (default : ClassDecl) with
        name := "Item"
        bases := [⟨"Base", "Base", none, none⟩]
        fields := [{ (default : SchemaField) with
          name := "color"
          type := ⟨.reference "Color", none, []⟩ }] }] }

/-- A file in front of the others with a group of its own, two classes that are bases of each other,
and a third one below a class of another file. -/
def annex : FileFacts :=
  { FileFacts.empty "annex.py" "python" with
    module := some "annex"
    groups := [{ (default : RouteGroup) with
      key := ⟨"annex.py", "other", 4⟩
      declaredPrefix := some "/other" }]
    routes := [{ (default : Route) with
      file := "annex.py"
      rawPath := some "/"
      group := some ⟨"annex.py", "other", 4⟩ }]
    classes := [
      { (default : ClassDecl) with name := "Hen", bases := [⟨"Egg", "Egg", none, none⟩] },
      { (default : ClassDecl) with name := "Egg", bases := [⟨"Hen", "Hen", none, none⟩] },
      { (default : ClassDecl) with name := "Ware", bases := [⟨"Item", "Item", none, none⟩] }] }

theorem isStranger_annex : IsStranger annex [shopMain, shopModels, shopUsers] where
  isOwn := by constructor <;> decide
  includes := rfl
  avoids := by
    intro u hu
    simp only [List.mem_cons, List.not_mem_nil, or_false] at hu
    rcases hu with rfl | rfl | rfl <;> constructor <;> decide
  keys := by decide
  groupNames := by decide
  classNames := by decide +kernel

theorem acyclic_shop :
    (Hierarchy.ofFiles (byPath [shopMain, shopModels, shopUsers])).Acyclic := by
  have hsorted : byPath [shopMain, shopModels, shopUsers] = [shopMain, shopModels, shopUsers] :=
    List.mergeSort_of_pairwise (by decide)
  have hlt : ∀ i < 3, ∀ b ∈ (Hierarchy.ofFiles [shopMain, shopModels, shopUsers]).basesOf i,
      b < i := by decide +kernel
  rw [hsorted]
  exact Hierarchy.acyclic_of_base_lt fun i b hb => hlt i hb.lt_size b hb

/-- The file stands between two others in the input and in front of all when it is sorted. -/
theorem resolve_stranger_annex :
    (Hierarchy.ofFiles (byPath ([shopMain] ++ [shopModels, shopUsers]))).Acyclic ∧
    IsStranger annex ([shopMain] ++ [shopModels, shopUsers]) ∧
    (resolve ([shopMain] ++ annex :: [shopModels, shopUsers])).without "annex.py"
      = resolve [shopMain, shopModels, shopUsers] ∧
    (resolve ([shopMain] ++ annex :: [shopModels, shopUsers])).unresolvedIncludes
      = (resolve [shopMain, shopModels, shopUsers]).unresolvedIncludes :=
  ⟨acyclic_shop, isStranger_annex,
    resolve_stranger [shopMain] [shopModels, shopUsers] annex acyclic_shop isStranger_annex⟩

end Project

end ApiSurface
