import Mathlib.Data.List.Forall2
import Mathlib.Data.List.Nodup
import ApiSurface.Proofs.Project.Ownership
import ApiSurface.Proofs.Project.Shuffles

/-!
# Nothing is lost

A resolved project has the facts of its files, each once and sorted, and resolving changes nothing
but what it determines: the effective path of a route and its flag of unresolved groups, and the
place of a group (`conserves_resolve`). With distinct paths the order of the files does not matter,
and routes can be resolved by several workers at once.
-/

namespace ApiSurface

/-- A route with an effective path. The flag of unresolved groups may have been added. -/
def Route.IsResolutionOf (r declared : Route) : Prop :=
  ∃ path flags, r = { declared with effectivePath := path, degradations := flags } ∧
    (flags = declared.degradations ∨ flags = declared.degradations.add .unresolvedGroup)

/-- What is left of a group when its place is forgotten. -/
def RouteGroup.unplaced (g : RouteGroup) : RouteGroup :=
  { g with parent := none, mountPrefix := none, effectivePrefix := none, status := .root }

namespace Project

/-- The place that a class is listed by. -/
def ClassEntry.location (c : ClassEntry) : String × Span := (c.file, c.decl.span)

end Project

/-- A schema shows what the class says about itself. -/
structure Schema.IsOf (s : Schema) (c : Project.ClassEntry) : Prop where
  location : s.location = c.location
  name : s.name = c.decl.name
  bases : s.bases = c.decl.bases.map (·.written)
  typeParams : s.typeParams = c.decl.typeParams
  config : s.config = c.decl.config
  validators : s.validators = c.decl.validators
  doc : s.doc = c.decl.doc

namespace Project

/-- The order of facts by file and span. -/
def placeLE {α : Type} (location : α → String × Span) (a b : α) : Bool :=
  locationLE (location a) (location b)

/-- The order of groups by file and span, and of those of one place by their keys. -/
def groupLE : RouteGroup → RouteGroup → Bool :=
  thenLE (placeLE RouteGroup.location) fun a b => GroupKey.le a.key b.key

/-- What the facts of a project have to do with those of its files. -/
structure Conserves (files : List FileFacts) (p : ProjectFacts) : Prop where
  httpCalls :
    IsStableSort (placeLE HttpCall.location) (files.flatMap (·.httpCalls)) p.httpCalls
  tools : IsStableSort (placeLE Tool.location) (files.flatMap (·.tools)) p.tools
  routes : ∃ resolved, List.Forall₂ Route.IsResolutionOf resolved (files.flatMap (·.routes)) ∧
    IsStableSort (placeLE Route.location) resolved p.routes
  groups : ∃ declared, IsStableSort groupLE (files.flatMap (·.groups)) declared ∧
    p.groups.map (·.unplaced) = declared.map (·.unplaced)
  unresolvedIncludes : ∃ left, left.Sublist (files.flatMap (·.includes)) ∧
    IsStableSort (placeLE GroupInclude.location) left p.unresolvedIncludes
  schemas : p.schemas.Pairwise fun a b => placeLE Schema.location a b
  schemas_ties : ∀ place, ∃ recognised,
    recognised.Sublist ((classEntries files).filter fun c => c.location = place) ∧
    List.Forall₂ Schema.IsOf (p.schemas.filter fun s => s.location = place) recognised
  files : IsStableSort (fun a b : FileSummary => compare a.path b.path != .gt)
    (files.map summarize) p.files

/-! ### Facts of one file -/

/-- Files of one path stay in their order. -/
theorem filter_byPath (files : List FileFacts) (path : String) :
    (byPath files).filter (fun f => f.path = path) = files.filter fun f => f.path = path := by
  rw [byPath, isSortable_path.filter_mergeSort]
  refine List.mergeSort_of_pairwise (List.pairwise_of_forall_mem_list fun f hf g hg => ?_)
  have hf := of_decide_eq_true (List.mem_filter.mp hf).2
  have hg := of_decide_eq_true (List.mem_filter.mp hg).2
  rw [hf, ← hg]
  exact isSortable_path.refl g

section Parts

variable {α : Type} {part : FileFacts → List α} {fileOf : α → String} {files : List FileFacts}

/-- The facts that name a file are those of the files of the name. -/
theorem filter_flatMap_of_own (hown : ∀ f ∈ files, ∀ a ∈ part f, fileOf a = f.path)
    (path : String) :
    (files.flatMap part).filter (fun a => fileOf a = path)
      = (files.filter fun f => f.path = path).flatMap part :=
  filter_flatMap fun f hf a ha => by rw [hown f hf a ha]

/-- Facts of one file come in the same order when the files are sorted first. -/
theorem filter_flatMap_byPath (hown : ∀ f ∈ files, ∀ a ∈ part f, fileOf a = f.path) {p : α → Bool}
    {path : String} (hp : ∀ a, p a → fileOf a = path) :
    ((byPath files).flatMap part).filter p = (files.flatMap part).filter p := by
  have hfile : ∀ l : List α, l.filter p = (l.filter fun a => fileOf a = path).filter p := by
    intro l
    rw [List.filter_filter]
    refine List.filter_congr fun a _ => ?_
    cases h : p a with
    | false => rfl
    | true => simp [hp a h]
  have hown' : ∀ f ∈ byPath files, ∀ a ∈ part f, fileOf a = f.path :=
    fun f hf => hown f (List.mem_mergeSort.mp hf)
  rw [hfile, filter_flatMap_of_own hown', filter_byPath, ← filter_flatMap_of_own hown, ← hfile]

/-- Sorting the facts of the sorted files sorts the facts of the files, where only facts of one
file are tied. -/
theorem isStableSort_flatMap {le : α → α → Bool} (hle : IsSortable le)
    (htied : ∀ a b, isTied le a b → fileOf a = fileOf b)
    (hown : ∀ f ∈ files, ∀ a ∈ part f, fileOf a = f.path) :
    IsStableSort le (files.flatMap part) (((byPath files).flatMap part).mergeSort le) :=
  (hle.isStableSort_mergeSort _).congr_input ((List.mergeSort_perm _ _).flatMap_right _) fun a =>
    filter_flatMap_byPath hown fun b hb => (htied a b hb).symm

/-- Facts that are listed by their places. -/
theorem isStableSort_byLocation {location : α → String × Span}
    (hown : ∀ f ∈ files, ∀ a ∈ part f, (location a).1 = f.path) :
    IsStableSort (placeLE location) (files.flatMap part)
      (byLocation location ((byPath files).flatMap part)) :=
  isStableSort_flatMap (isSortable_location location)
    (fun _ _ h => congrArg Prod.fst (isTied_location_iff.mp h)) hown

end Parts

/-! ### Groups -/

theorem Graph.unplaced_placed (g : Graph) (effective? : Option String) (i : Nat)
    (group : RouteGroup) : (g.placed effective? i group).unplaced = group.unplaced := by
  unfold Graph.placed
  split
  · rfl
  · split <;> rfl

theorem Graph.map_unplaced_placedGroups (g : Graph) :
    g.placedGroups.map (·.unplaced) = g.groups.map (·.unplaced) := by
  refine List.ext_getElem (by simp [Graph.placedGroups]) fun i _ _ => ?_
  simp only [Graph.placedGroups, List.getElem_map, List.getElem_mapIdx, Graph.unplaced_placed]

theorem map_key_groups_build (files : List FileFacts) :
    (GroupIndex.build files).groups.map (·.key) = (sortedGroups files).map (·.key) := by
  have hplaced := congrArg (List.map RouteGroup.key) (GroupIndex.graph files).map_unplaced_placedGroups
  rwa [List.map_map, List.map_map] at hplaced

/-- Where groups lie plays no part in how they are listed. -/
theorem map_unplaced_byLocation (l : List RouteGroup) :
    (byLocation RouteGroup.location l).map (·.unplaced)
      = byLocation RouteGroup.location (l.map (·.unplaced)) :=
  List.map_mergeSort fun _ _ _ _ => rfl

theorem map_unplaced_groups_resolve (files : List FileFacts) :
    (resolve files).groups.map (·.unplaced)
      = (byLocation RouteGroup.location (sortedGroups (byPath files))).map (·.unplaced) := by
  rw [resolve, map_unplaced_byLocation, map_unplaced_byLocation]
  exact congrArg _ (Graph.map_unplaced_placedGroups _)

theorem isStableSort_groups {files : List FileFacts} (hown : ∀ f ∈ files, f.IsOwn) :
    IsStableSort groupLE (files.flatMap (·.groups))
      (byLocation RouteGroup.location (sortedGroups (byPath files))) := by
  have hkeys : IsStableSort (fun a b : RouteGroup => GroupKey.le a.key b.key)
      (files.flatMap (·.groups)) (sortedGroups (byPath files)) := by
    refine isStableSort_flatMap (isSortable_key RouteGroup.key) (fun a b h => ?_)
      fun f hf => (hown f hf).groups
    rw [isTied, Bool.and_eq_true] at h
    exact congrArg GroupKey.file (eq_of_le_of_le GroupKey.compare h.1 h.2)
  exact hkeys.thenLE (isSortable_location RouteGroup.location)
    ((isSortable_location RouteGroup.location).isStableSort_mergeSort _)

/-! ### Schemas -/

theorem Hierarchy.isOf_of_schema? {h : Hierarchy} {m : Hierarchy.Marks} {p : Hierarchy.Progress}
    {i : Nat} {c : ClassEntry} {s : Schema} (hs : h.schema? m p i c = some s) : s.IsOf c := by
  obtain ⟨kind, -, hs⟩ := Option.bind_eq_some_iff.mp hs
  obtain ⟨fields, -, hs⟩ := Option.bind_eq_some_iff.mp hs
  rw [← Option.some.inj hs]
  exact ⟨rfl, rfl, rfl, rfl, rfl, rfl, rfl⟩

/-- The classes of one place come in the same order when the files are sorted first. -/
theorem filter_classEntries_byPath (files : List FileFacts) (place : String × Span) :
    (classEntries (byPath files)).filter (fun c => c.location = place)
      = (classEntries files).filter fun c => c.location = place := by
  have hown : ∀ f ∈ files, ∀ c ∈ f.classes.map (ClassEntry.mk f.path f.module), c.file = f.path := by
    intro f _ c hc
    obtain ⟨d, -, rfl⟩ := List.mem_map.mp hc
    rfl
  exact filter_flatMap_byPath hown fun c hc => congrArg Prod.fst (of_decide_eq_true hc)

/-- What elements of a list become, without those that become nothing, comes in their order. -/
private theorem exists_forall₂_mapIdx {α β : Type} {R : β → α → Prop} {p : β → Bool} {q : α → Bool}
    (hpq : ∀ a b, R b a → p b = q a) (l : List α) (f : Nat → α → Option β)
    (hf : ∀ i a b, f i a = some b → R b a) :
    ∃ sub, sub.Sublist (l.filter q) ∧
      List.Forall₂ R (((l.mapIdx f).filterMap id).filter p) sub := by
  induction l generalizing f with
  | nil => exact ⟨[], List.nil_sublist _, .nil⟩
  | cons a r ih =>
    obtain ⟨sub, hsub, hR⟩ := ih (fun i => f (i + 1)) fun i => hf (i + 1)
    rw [List.mapIdx_cons, List.filterMap_cons]
    cases ha : f 0 a with
    | none => exact ⟨sub, hsub.trans ((List.sublist_cons_self a r).filter q), hR⟩
    | some b =>
      have hab := hf 0 a b ha
      by_cases hb : p b
      · rw [List.filter_cons_of_pos (hpq a b hab ▸ hb)]
        exact ⟨a :: sub, hsub.cons_cons a, by simpa [hb] using ⟨hab, hR⟩⟩
      · rw [List.filter_cons_of_neg (hpq a b hab ▸ hb)]
        exact ⟨sub, hsub, by simpa [hb] using hR⟩

theorem Hierarchy.pairwise_schemas (h : Hierarchy) :
    h.schemas.Pairwise fun a b => placeLE Schema.location a b :=
  (isSortable_location Schema.location).pairwise_mergeSort _

/-- The schemas of one place come in the order of the classes. -/
theorem Hierarchy.exists_forall₂_schemas (h : Hierarchy) (place : String × Span) :
    ∃ recognised, recognised.Sublist (h.classes.filter fun c => c.location = place) ∧
      List.Forall₂ Schema.IsOf (h.schemas.filter fun s => s.location = place) recognised := by
  have hsorted : h.schemas.filter (fun s => s.location = place)
      = ((h.classes.mapIdx (h.schema? h.marks (h.allFields h.marks))).filterMap id).filter
        fun s => s.location = place := by
    rw [Hierarchy.schemas, (isSortable_location Schema.location).filter_mergeSort]
    refine List.mergeSort_of_pairwise (List.pairwise_of_forall_mem_list fun s hs t ht => ?_)
    have hs := of_decide_eq_true (List.mem_filter.mp hs).2
    have ht := of_decide_eq_true (List.mem_filter.mp ht).2
    rw [hs, ← ht]
    exact (isSortable_location Schema.location).refl t
  rw [hsorted]
  refine exists_forall₂_mapIdx (fun c s hs => ?_) h.classes _ fun i c s => isOf_of_schema?
  rw [hs.location]

/-! ### Resolving -/

theorem conserves_resolve {files : List FileFacts} (hown : ∀ f ∈ files, f.IsOwn) :
    Conserves files (resolve files) where
  httpCalls := isStableSort_byLocation fun f hf => (hown f hf).httpCalls
  tools := isStableSort_byLocation fun f hf => (hown f hf).tools
  routes := by
    let index := GroupIndex.build (byPath files)
    refine ⟨(files.flatMap (·.routes)).map index.resolve, ?_, ?_⟩
    · rw [List.forall₂_map_left_iff, List.forall₂_same]
      intro r _
      refine ⟨_, _, rfl, ?_⟩
      rw [Degradations.addIf]
      split
      · exact .inr rfl
      · exact .inl rfl
    · have hroutes : ∀ l : List FileFacts, (l.flatMap (·.routes)).map index.resolve
          = l.flatMap fun f => f.routes.map index.resolve := fun l => List.map_flatMap
      rw [resolve, hroutes, hroutes]
      refine isStableSort_byLocation fun f hf r hr => ?_
      obtain ⟨declared, hd, rfl⟩ := List.mem_map.mp hr
      exact (hown f hf).routes declared hd
  groups := ⟨_, isStableSort_groups hown, map_unplaced_groups_resolve files⟩
  unresolvedIncludes := by
    let fs := byPath files
    let left := fun i => (edge? fs (sortedGroups fs) i).isNone
    refine ⟨(files.flatMap (·.includes)).filter left, List.filter_sublist, ?_⟩
    have hleft : ∀ l : List FileFacts, (l.flatMap (·.includes)).filter left
        = l.flatMap fun f => f.includes.filter left := fun l => List.filter_flatMap
    have hsorted : (resolve files).unresolvedIncludes
        = byLocation GroupInclude.location (fs.flatMap fun f => f.includes.filter left) := by
      rw [← hleft]
      exact (isSortable_location GroupInclude.location).filter_mergeSort left _
    rw [hsorted, hleft]
    exact isStableSort_byLocation fun f hf i hi =>
      (hown f hf).includes i (List.mem_filter.mp hi).1
  schemas := Hierarchy.pairwise_schemas _
  schemas_ties place := by
    obtain ⟨recognised, hsub, hR⟩ :=
      (Hierarchy.ofFiles (byPath files)).exists_forall₂_schemas place
    refine ⟨recognised, ?_, hR⟩
    rwa [Hierarchy.ofFiles, filter_classEntries_byPath] at hsub
  files := by
    have hfiles : (byPath files).map summarize
        = (files.map summarize).mergeSort fun a b => compare a.path b.path != .gt :=
      List.map_mergeSort fun _ _ _ _ => rfl
    rw [resolve, hfiles]
    exact ((IsSortable.of_compare (compare : String → String → Ordering)).comp
      FileSummary.path).isStableSort_mergeSort _

/-- With distinct paths the order of the files does not matter. -/
theorem resolve_eq_of_perm {files files' : List FileFacts} (hpaths : (files.map (·.path)).Nodup)
    (hperm : files'.Perm files) : resolve files' = resolve files := by
  have hsorted : byPath files = byPath files' := by
    refine isSortable_path.mergeSort_eq_of_perm hperm.symm ?_
    intro f hf g hg hfg hgf
    exact List.inj_on_of_nodup_map hpaths hf hg
      (eq_of_le_of_le (compare : String → String → Ordering) hfg hgf)
  rw [resolve, resolve, hsorted]

/-! ### Several workers -/

/-- How a list is handed to workers: as a whole, or cut into two parts that are handed on. -/
inductive Division where
  | whole
  | cut (at_ : Nat) (left right : Division)

/-- What the workers find, put together in the order of the list. -/
def Division.gather {α β : Type} (work : α → List β) : Division → List α → List β
  | whole, l => l.flatMap work
  | cut n left right, l => left.gather work (l.take n) ++ right.gather work (l.drop n)

theorem Division.gather_eq_flatMap {α β : Type} (work : α → List β) (d : Division) (l : List α) :
    d.gather work l = l.flatMap work := by
  induction d generalizing l with
  | whole => rfl
  | cut n left right hleft hright =>
    rw [gather, hleft, hright, ← List.flatMap_append, List.take_append_drop]

/-- The facts of a project, with the routes of its files resolved by several workers. -/
def resolveDivided (d : Division) (files : List FileFacts) : ProjectFacts :=
  let sorted := byPath files
  let index := GroupIndex.build sorted
  { resolve files with
    routes := byLocation Route.location (d.gather (fun f => f.routes.map index.resolve) sorted) }

theorem resolveDivided_eq (d : Division) (files : List FileFacts) :
    resolveDivided d files = resolve files := by
  rw [resolveDivided, d.gather_eq_flatMap, ← List.map_flatMap]
  rfl

/-- **Nothing is lost, doubled or altered.** Let each file have facts of its own only, as extracted
files do. A resolved project has the calls, tools and routes of the files, where only the effective
path and the flag of unresolved groups of a route were changed, and their groups, where only the
place of each was changed, and a summary of each file. All lists are sorted by file and span, files
by path. What is tied stays in the order of the input; only groups of one place are in the order of
their keys first. With distinct paths the order of the files does not matter, and however the files
are handed to workers, the outcome is the same. -/
theorem resolve_conserves (files : List FileFacts) (hown : ∀ f ∈ files, f.IsOwn) :
    Conserves files (resolve files) ∧
    ((files.map (·.path)).Nodup → ∀ files', files'.Perm files → resolve files' = resolve files) ∧
    ∀ d, resolveDivided d files = resolve files :=
  ⟨conserves_resolve hown, fun hpaths _ => resolve_eq_of_perm hpaths,
    fun d => resolveDivided_eq d files⟩

/-- A unit whose files are not in the order of their paths, with two routes of one place. -/
theorem resolve_conserves_shop :
    (∀ f ∈ [shopUsers, shopMain], f.IsOwn) ∧ ([shopUsers, shopMain].map (·.path)).Nodup ∧
    Conserves [shopUsers, shopMain] (resolve [shopUsers, shopMain]) ∧
    resolve [shopMain, shopUsers] = resolve [shopUsers, shopMain] ∧
    ∀ d, resolveDivided d [shopUsers, shopMain] = resolve [shopUsers, shopMain] := by
  have hown : ∀ f ∈ [shopUsers, shopMain], f.IsOwn := by
    intro f hf
    obtain rfl | rfl := List.mem_pair.mp hf <;> constructor <;> decide
  have hpaths : ([shopUsers, shopMain].map (·.path)).Nodup := by decide
  obtain ⟨hconserves, hperm, hdivided⟩ := resolve_conserves [shopUsers, shopMain] hown
  exact ⟨hown, hpaths, hconserves, hperm hpaths _ (List.Perm.swap _ _ _), hdivided⟩

/-- The file `app.py` when its router has the given name. -/
def reading (router : String) : FileFacts :=
  { FileFacts.empty "app.py" "python" with
    module := some "app"
    groups := [{ (default : RouteGroup) with
      key := ⟨"app.py", router, 34⟩
      span := ⟨30, 45, 2, 1, 2, 16⟩ }] }

theorem isOwn_reading (router : String) : (reading router).IsOwn := by
  constructor <;> simp [reading, FileFacts.empty]

/-- One path twice, with one router at one place under two names. -/
def readings : List FileFacts := [reading "b", reading "a"]

theorem sortedGroups_readings : sortedGroups readings = (readings.flatMap (·.groups)).reverse := by
  have hperm : (readings.flatMap (·.groups)).Perm (readings.flatMap (·.groups)).reverse :=
    (List.reverse_perm _).symm
  refine ((isSortable_key RouteGroup.key).mergeSort_eq_of_perm hperm (by decide)).trans ?_
  exact List.mergeSort_of_pairwise (by decide)

/-- **Groups of one place are not in the order of the input.** They come in the order of their keys,
so no stable sort by file and span lists them as they are listed. -/
theorem not_isStableSort_groups_readings :
    (∀ f ∈ readings, f.IsOwn) ∧
    ¬ ∃ declared, IsStableSort (placeLE RouteGroup.location) (readings.flatMap (·.groups)) declared ∧
      (resolve readings).groups.map (·.unplaced) = declared.map (·.unplaced) := by
  refine ⟨by simp [readings, isOwn_reading], ?_⟩
  rintro ⟨declared, hsort, hdeclared⟩
  have hall : ∀ g ∈ readings.flatMap (·.groups),
      isTied (placeLE RouteGroup.location) ((reading "b").groups.headD default) g := by decide
  have hinput : declared = readings.flatMap (·.groups) := by
    have hties := hsort.ties ((reading "b").groups.headD default)
    rwa [List.filter_eq_self.mpr hall,
      List.filter_eq_self.mpr fun g hg => hall g (hsort.perm.mem_iff.mp hg)] at hties
  have hfiles : byPath readings = readings := List.mergeSort_of_pairwise (by decide)
  have hplaces : byLocation RouteGroup.location (sortedGroups readings) = sortedGroups readings := by
    rw [sortedGroups_readings]
    exact List.mergeSort_of_pairwise (by decide)
  rw [map_unplaced_groups_resolve, hfiles, hplaces, sortedGroups_readings, hinput] at hdeclared
  revert hdeclared
  decide

end Project

end ApiSurface
