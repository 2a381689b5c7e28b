import ApiSurface.Facts.File
import ApiSurface.Project.Module
import ApiSurface.Routing.Path

/-!
# Groups across files

The groups of all files with the place of each one under the others. An include is resolved to
the group that it puts under another; of several includes of one group the first counts, so the
groups form chains of parents. Groups whose chain ends get their effective prefix from the top
down; the others lie on or below a cycle and keep their own.
-/

namespace ApiSurface.Project

/-- The greatest index of an element that satisfies `p`. -/
def lastIndex? {α : Type} (p : α → Bool) : List α → Option Nat
  | [] => none
  | a :: r =>
    match lastIndex? p r with
    | some i => some (i + 1)
    | none => if p a then some 0 else none

theorem lastIndex?_lt {α : Type} {p : α → Bool} {l : List α} {i : Nat}
    (h : lastIndex? p l = some i) : i < l.length := by
  induction l generalizing i with
  | nil => simp [lastIndex?] at h
  | cons a r ih =>
    simp only [lastIndex?] at h
    split at h
    case h_1 j hj =>
      have hlt := ih hj
      simp only [Option.some.injEq] at h
      simp only [List.length_cons]
      omega
    case h_2 =>
      split at h
      · simp only [Option.some.injEq] at h
        simp [← h]
      · simp at h

/-- The module name of a file. -/
def moduleOf? (files : List FileFacts) (path : String) : Option String :=
  files.reverse.findSome? fun f => if f.path = path then f.module else none

/-- The groups of all files in the order of their keys. -/
def sortedGroups (files : List FileFacts) : List RouteGroup :=
  (files.flatMap (·.groups)).mergeSort fun a b => GroupKey.le a.key b.key

/-- The includes of all files in the order of their places. -/
def sortedIncludes (files : List FileFacts) : List GroupInclude :=
  (files.flatMap (·.includes)).mergeSort fun a b => locationLE a.location b.location

/-! ### Resolving includes -/

/-- The index of the group with a key. -/
def indexOf? (groups : List RouteGroup) (key : GroupKey) : Option Nat :=
  lastIndex? (fun g => g.key = key) groups

theorem indexOf?_lt {groups : List RouteGroup} {key : GroupKey} {i : Nat}
    (h : indexOf? groups key = some i) : i < groups.length := lastIndex?_lt h

/-- Whether the file of a group is a module that stands for the wanted one. -/
def isInModule (files : List FileFacts) (wanted : String) (g : RouteGroup) : Bool :=
  match moduleOf? files g.key.file with
  | some m => Module.isMatch m wanted
  | none => false

/-- The group that an imported name denotes: one of that name in the module as the importing file
sees it, else in the module without its dots, else the only one of that name. Of several the last
in the order of keys counts, as the last binding of a name does. -/
def importedGroup? (files : List FileFacts) (groups : List RouteGroup) (i : GroupInclude)
    (module name : String) : Option Nat :=
  let named (g : RouteGroup) : Bool := g.key.name == name && g.key != i.parent
  let inModule (wanted : String) : Option Nat :=
    lastIndex? (fun g => named g && isInModule files wanted g) groups
  ((Module.absolute? (moduleOf? files i.file) module).bind inModule) <|>
    inModule (Module.undotted module) <|>
    if (groups.filter named).length = 1 then lastIndex? named groups else none

theorem importedGroup?_lt {files : List FileFacts} {groups : List RouteGroup} {i : GroupInclude}
    {module name : String} {n : Nat} (h : importedGroup? files groups i module name = some n) :
    n < groups.length := by
  simp only [importedGroup?, Option.orElse_eq_orElse, Option.orElse_eq_or,
    Option.or_eq_some_iff] at h
  rcases h with h | ⟨-, h | ⟨-, h⟩⟩
  · obtain ⟨_, -, h⟩ := Option.bind_eq_some_iff.mp h
    exact lastIndex?_lt h
  · exact lastIndex?_lt h
  · split at h
    · exact lastIndex?_lt h
    · simp at h

/-- The group that an include points at. -/
def target? (files : List FileFacts) (groups : List RouteGroup) (i : GroupInclude) : Option Nat :=
  match i.target with
  | .local key => indexOf? groups key
  | .imported module name => importedGroup? files groups i module name
  | .unknown _ => none

theorem target?_lt {files : List FileFacts} {groups : List RouteGroup} {i : GroupInclude} {n : Nat}
    (h : target? files groups i = some n) : n < groups.length := by
  simp only [target?] at h
  split at h
  · exact indexOf?_lt h
  · exact importedGroup?_lt h
  · simp at h

/-- An include with the indices of the two groups that it connects. -/
structure Edge where
  parent : Nat
  child : Nat
  mount : GroupInclude
deriving DecidableEq, Repr

/-- The edge of an include, when both of its groups are known. -/
def edge? (files : List FileFacts) (groups : List RouteGroup) (i : GroupInclude) : Option Edge := do
  let parent ← indexOf? groups i.parent
  let child ← target? files groups i
  pure ⟨parent, child, i⟩

theorem edge?_lt {files : List FileFacts} {groups : List RouteGroup} {i : GroupInclude} {e : Edge}
    (h : edge? files groups i = some e) : e.parent < groups.length ∧ e.child < groups.length := by
  obtain ⟨parent, hp, h⟩ := Option.bind_eq_some_iff.mp h
  obtain ⟨child, hc, h⟩ := Option.bind_eq_some_iff.mp h
  obtain rfl : (⟨parent, child, i⟩ : Edge) = e := Option.some.inj h
  exact ⟨indexOf?_lt hp, target?_lt hc⟩

/-! ### The forest of groups -/

/-- Groups and the edges between them. -/
structure Graph where
  groups : List RouteGroup
  edges : List Edge
  /-- Every edge connects two of the groups. -/
  lt_of_mem_edges : ∀ e ∈ edges, e.parent < groups.length ∧ e.child < groups.length

namespace Graph

/-- The number of groups. -/
def size (g : Graph) : Nat := g.groups.length

/-- The edge that puts a group under its parent: the first one to it. -/
def kept? (g : Graph) (child : Nat) : Option Edge := g.edges.find? fun e => e.child == child

/-- The groups without a parent. -/
def roots (g : Graph) : List Nat := (List.range g.size).filter fun i => (g.kept? i).isNone

/-- The groups under a group. -/
def childrenOf (g : Graph) (parent : Nat) : List Nat :=
  (List.range g.size).filter fun i => (g.kept? i).any fun e => e.parent == parent

/-- Take groups off a queue and append the groups under them, for at most `fuel` groups. -/
def walk (g : Graph) : Nat → List Nat → List Nat
  | 0, _ => []
  | _ + 1, [] => []
  | fuel + 1, i :: queue => i :: g.walk fuel (queue ++ g.childrenOf i)

/-- The groups that are reached from roots, parents before children. -/
def reached (g : Graph) : List Nat := g.walk g.size g.roots

/-- The prefix of a group under the effective prefix of its parent. -/
def under (base : String) (e : Edge) (declared : Option String) : String :=
  if e.mount.replacesPrefix && e.mount.mountPrefix.isSome then
    Routing.joinPresent [some base, e.mount.mountPrefix]
  else Routing.joinPresent [some base, e.mount.mountPrefix, declared]

/-- The prefix that a group declares. -/
def declared? (g : Graph) (i : Nat) : Option String := g.groups[i]?.bind (·.declaredPrefix)

/-- The effective prefix of a group, given those of the groups before it. -/
def effective (g : Graph) (known : Nat → Option String) (i : Nat) : String :=
  match g.kept? i with
  | none => Routing.joinPresent [g.declared? i]
  | some e => under ((known e.parent).getD "") e (g.declared? i)

/-- The prefix of a group among those that are known. -/
def knownPrefix? (known : List (Nat × String)) (i : Nat) : Option String :=
  (known.find? fun p => p.1 == i).map (·.2)

/-- The prefixes with that of one more group. -/
def addPrefix (g : Graph) (known : List (Nat × String)) (i : Nat) : List (Nat × String) :=
  (i, g.effective (knownPrefix? known) i) :: known

/-- The effective prefixes of the groups that are reached. -/
def prefixes (g : Graph) : List (Nat × String) := g.reached.foldl g.addPrefix []

/-- A group with its place in the forest, given its effective prefix when it is reached. -/
def placed (g : Graph) (effective? : Option String) (i : Nat) (group : RouteGroup) : RouteGroup :=
  match effective? with
  | none =>
    { group with
      status := .cyclic
      effectivePrefix := some (Routing.joinPresent [group.declaredPrefix]) }
  | some p =>
    match g.kept? i with
    | none => { group with status := .root, effectivePrefix := some p }
    | some e =>
      { group with
        status := .linked
        parent := g.groups[e.parent]?.map (·.key)
        mountPrefix := e.mount.mountPrefix
        effectivePrefix := some p }

/-- The groups with their places. -/
def placedGroups (g : Graph) : List RouteGroup :=
  let known := g.prefixes
  g.groups.mapIdx fun i group => g.placed (knownPrefix? known i) i group

end Graph

/-! ### The index -/

/-- All groups with their places, and the includes that could not be resolved. -/
structure GroupIndex where
  groups : List RouteGroup
  unresolved : List GroupInclude

namespace GroupIndex

/-- The graph of the groups of all files. -/
def graph (files : List FileFacts) : Graph where
  groups := sortedGroups files
  edges := (sortedIncludes files).filterMap (edge? files (sortedGroups files))
  lt_of_mem_edges := fun _ he =>
    have ⟨_, _, hi⟩ := List.mem_filterMap.mp he
    edge?_lt hi

/-- The index of the groups of all files. -/
def build (files : List FileFacts) : GroupIndex where
  groups := (graph files).placedGroups
  unresolved := (sortedIncludes files).filter fun i => (edge? files (sortedGroups files) i).isNone

/-- The group with a key. -/
def find? (x : GroupIndex) (key : GroupKey) : Option RouteGroup :=
  (indexOf? x.groups key).bind fun i => x.groups[i]?

/-- The group that a route belongs to. -/
def groupOf? (x : GroupIndex) (r : Route) : Option RouteGroup := r.group.bind x.find?

/-- The path of a route under the effective prefix of its group. -/
def effectivePath? (x : GroupIndex) (r : Route) : Option String :=
  r.rawPath.map fun raw =>
    Routing.joinPaths [((x.groupOf? r).bind (·.effectivePrefix)).getD "", raw]

/-- Whether a route belongs to a group on or below a cycle. -/
def isCyclic (x : GroupIndex) (r : Route) : Bool :=
  (x.groupOf? r).any fun g => g.status == .cyclic

/-- A route with its effective path. -/
def resolve (x : GroupIndex) (r : Route) : Route :=
  { r with
    effectivePath := x.effectivePath? r
    degradations := r.degradations.addIf (x.isCyclic r) .unresolvedGroup }

end GroupIndex

end ApiSurface.Project
