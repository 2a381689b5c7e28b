import ApiSurface.Config.Basic

/-!
# The tables of a configuration

The entries of a configuration are read list by list. The first one that names something unknown is
reported, groups before bases and frameworks before kinds (`CatalogEntries.firstUnknown?`). If there
is none, the entries lie on top of the built-in tables: of several entries for one name the last one
counts, whichever list it comes from, and names without an entry are left to the built-in table
(`Catalog.IsLayered`).
-/

namespace ApiSurface

open ApiSurface.Catalog (Role find?)

/-! ### Known names -/

/-- The names that frameworks go by. -/
def Framework.names : List String := ["fastapi", "starlette", "flask"]

/-- The names that kinds of groups go by. -/
def GroupKind.names : List String := ["application", "app", "router", "blueprint"]

/-- The names that kinds of data shapes go by. -/
def SchemaKind.names : List String := ["pydantic", "typed_dict", "named_tuple", "dataclass"]

theorem Framework.ofName?_eq_none_iff {name : String} : ofName? name = none ↔ name ∉ names := by
  simp only [ofName?, names, List.mem_cons, List.not_mem_nil, or_false]
  grind

theorem GroupKind.ofName?_eq_none_iff {name : String} : ofName? name = none ↔ name ∉ names := by
  simp only [ofName?, names, List.mem_cons, List.not_mem_nil, or_false]
  grind

theorem SchemaKind.ofName?_eq_none_iff {name : String} : ofName? name = none ↔ name ∉ names := by
  have hnames : names = [SchemaKind.pydantic, .typedDict, .namedTuple, .dataclass].map
    SchemaKind.name := rfl
  simp only [ofName?, List.find?_eq_none, hnames, List.mem_map, not_exists, not_and, beq_iff_eq]

/-! ### Entries -/

/-- What a group entry names that does not exist. -/
def RouteGroupEntry.unknown? (e : RouteGroupEntry) : Option UnknownRole :=
  if e.framework ∉ Framework.names then some ⟨e.constructor, .framework, e.framework⟩
  else if e.kind ∉ GroupKind.names then some ⟨e.constructor, .kind, e.kind⟩
  else none

/-- What the entry of a base names that does not exist. -/
def ModelBaseEntry.unknown? (e : ModelBaseEntry) : Option UnknownRole :=
  e.kind.bind fun name => if name ∉ SchemaKind.names then some ⟨e.path, .kind, name⟩ else none

/-- The kind that an entry gives to subclasses of the base. -/
def ModelBaseEntry.schemaKind? (e : ModelBaseEntry) : Option SchemaKind :=
  e.kind.elim (some .pydantic) SchemaKind.ofName?

/-- An entry for a constructor. -/
inductive ConstructorEntry where
  | client (e : HttpClientEntry)
  | group (e : RouteGroupEntry)
  | server (e : ToolServerEntry)
deriving DecidableEq

namespace ConstructorEntry

def constructor : ConstructorEntry → String
  | client e => e.constructor
  | group e => e.constructor
  | server e => e.constructor

/-- What an entry says that calls of its constructor produce. -/
def role? : ConstructorEntry → Option Role
  | client e => some (.httpClient e.library e.isAsync)
  | group e => (Framework.ofName? e.framework).bind fun framework =>
    (GroupKind.ofName? e.kind).map (.routeGroup framework)
  | server e => some (.toolServer e.framework)

end ConstructorEntry

namespace CatalogEntries

/-- The first thing that an entry names and that does not exist, groups before bases. -/
def firstUnknown? (e : CatalogEntries) : Option UnknownRole :=
  (e.routeGroups.findSome? RouteGroupEntry.unknown?).or
    (e.modelBases.findSome? ModelBaseEntry.unknown?)

/-- All entries for constructors, list by list. -/
def constructorEntries (e : CatalogEntries) : List ConstructorEntry :=
  e.httpClients.map .client ++ e.routeGroups.map .group ++ e.toolServers.map .server

end CatalogEntries

/-! ### Layers -/

namespace Catalog

section Layers

variable {α β : Type}

/-- The look-up finds what the last entry for a name says, and what the table says about a name
for which there is no entry. -/
structure IsLayered (table : List (String × β)) (entries : List α) (key : α → String)
    (value? : α → Option β) (lookup? : String → Option β) : Prop where
  last : ∀ before e after, entries = before ++ e :: after → (∀ a ∈ after, key a ≠ key e) →
    ∃ v, value? e = some v ∧ lookup? (key e) = some v
  builtin : ∀ name, (∀ e ∈ entries, key e ≠ name) → lookup? name = find? table name

/-- The entries as they are added, each name with what is said about it. -/
def keyed (key : α → String) (value? : α → Option β) (entries : List α) : List (String × β) :=
  entries.filterMap fun e => (value? e).map (key e, ·)

variable {key : α → String} {value? : α → Option β} {entries : List α} {name : String}

theorem keyed_append (l l' : List α) :
    keyed key value? (l ++ l') = keyed key value? l ++ keyed key value? l' :=
  List.filterMap_append

theorem keyed_map {γ : Type} (f : γ → α) (l : List γ) :
    keyed key value? (l.map f) = keyed (key ∘ f) (value? ∘ f) l :=
  List.filterMap_map

theorem find?_append (l l' : List (String × β)) :
    find? (l ++ l') name = (find? l name).or (find? l' name) := by
  rw [find?, List.find?_append, Option.map_or]
  rfl

theorem find?_reverse_keyed_eq_none (h : ∀ e ∈ entries, key e ≠ name) :
    find? (keyed key value? entries).reverse name = none := by
  refine Option.map_eq_none_iff.mpr (List.find?_eq_none.mpr fun p hp => ?_)
  obtain ⟨e, he, hvalue⟩ := List.mem_filterMap.mp (List.mem_reverse.mp hp)
  obtain ⟨v, -, rfl⟩ := Option.map_eq_some_iff.mp hvalue
  simpa using h e he

/-- Entries that are added one after the other, the last one first, make a layer. -/
theorem isLayered_reverse_keyed (table : List (String × β))
    (h : ∀ e ∈ entries, (value? e).isSome) :
    IsLayered table entries key value? fun name =>
      find? (keyed key value? entries).reverse name <|> find? table name where
  last before e after hsplit hafter := by
    obtain ⟨v, hv⟩ := Option.isSome_iff_exists.mp (h e (by simp [hsplit]))
    have hkeyed : (keyed key value? entries).reverse
        = (keyed key value? after).reverse ++ (key e, v) :: (keyed key value? before).reverse := by
      simp [hsplit, keyed, hv]
    refine ⟨v, hv, ?_⟩
    rw [hkeyed, find?_append, find?_reverse_keyed_eq_none hafter]
    simp [find?]
  builtin name hname := by
    rw [find?_reverse_keyed_eq_none hname]
    rfl

end Layers

section Adding

variable {α β : Type}

/-- The catalog with all these added, one after the other. -/
def addAll (add : Catalog → String → β → Catalog) (l : List (String × β)) (c : Catalog) : Catalog :=
  l.foldl (fun c p => add c p.1 p.2) c

theorem foldl_eq_addAll (add : Catalog → String → β → Catalog) (key : α → String) (value : α → β)
    (l : List α) (c : Catalog) :
    l.foldl (fun c e => add c (key e) (value e)) c
      = addAll add (keyed key (fun e => some (value e)) l) c := by
  have hkeyed : keyed key (fun e => some (value e)) l = l.map fun e => (key e, value e) :=
    congrFun List.filterMap_eq_map' l
  rw [addAll, hkeyed, List.foldl_map]

/-- What is added to one list stands there in reverse order. -/
theorem addAll_eq {add : Catalog → String → β → Catalog} (holding : List (String × β) → Catalog)
    (hadd : ∀ added name v, add (holding added) name v = holding ((name, v) :: added))
    (l added : List (String × β)) :
    addAll add l (holding added) = holding (l.reverse ++ added) := by
  induction l generalizing added with
  | nil => rfl
  | cons p l ih =>
    have hrest : addAll add (p :: l) (holding added) = addAll add l (add (holding added) p.1 p.2) :=
      rfl
    rw [hrest, hadd, ih, List.reverse_cons, List.append_assoc]
    rfl

end Adding

theorem addAll_addConstructor (l : List (String × Role)) (c : Catalog) :
    addAll addConstructor l c = { c with addedConstructors := l.reverse ++ c.addedConstructors } :=
  addAll_eq (fun added => { c with addedConstructors := added }) (fun _ _ _ => rfl) l _

theorem addAll_addHttpModule (l : List (String × String)) (c : Catalog) :
    addAll addHttpModule l c = { c with addedHttpModules := l.reverse ++ c.addedHttpModules } :=
  addAll_eq (fun added => { c with addedHttpModules := added }) (fun _ _ _ => rfl) l _

theorem addAll_addModelBase (l : List (String × SchemaKind)) (c : Catalog) :
    addAll addModelBase l c = { c with addedModelBases := l.reverse ++ c.addedModelBases } :=
  addAll_eq (fun added => { c with addedModelBases := added }) (fun _ _ _ => rfl) l _

end Catalog

/-! ### Reading entries -/

section Reading

variable {α β : Type}

/-- Reading an entry gives what is unknown about it, or else its value. -/
structure Reads (read : α → Except UnknownRole β) (unknown? : α → Option UnknownRole)
    (value? : α → Option β) : Prop where
  unknown : ∀ e u, unknown? e = some u → read e = .error u
  known : ∀ e, unknown? e = none → ∃ v, value? e = some v ∧ read e = .ok v

variable {read : α → Except UnknownRole β} {unknown? : α → Option UnknownRole}
  {value? : α → Option β}

/-- Reading a list of entries stops at the first one about which something is unknown. -/
theorem Reads.foldlM_eq (h : Reads read unknown? value?) (key : α → String)
    (add : Catalog → String → β → Catalog) (l : List α) (c : Catalog) :
    l.foldlM (fun c e => (read e).map (add c (key e))) c = (l.findSome? unknown?).elim
      (.ok (Catalog.addAll add (Catalog.keyed key value? l) c)) .error := by
  induction l generalizing c with
  | nil => rfl
  | cons e l ih =>
    rw [List.foldlM_cons, List.findSome?_cons]
    cases hu : unknown? e with
    | some u =>
      rw [h.unknown e u hu]
      rfl
    | none =>
      obtain ⟨v, hv, hread⟩ := h.known e hu
      have hkeyed : Catalog.keyed key value? (e :: l)
          = (key e, v) :: Catalog.keyed key value? l := by
        simp [Catalog.keyed, hv]
      rw [hread, hkeyed]
      exact ih _

end Reading

theorem RouteGroupEntry.reads :
    Reads role unknown? fun e => (ConstructorEntry.group e).role? where
  unknown e u hu := by
    simp only [unknown?, ← Framework.ofName?_eq_none_iff, ← GroupKind.ofName?_eq_none_iff] at hu
    rw [role]
    cases hframework : Framework.ofName? e.framework with
    | none => simp_all
    | some framework => cases hkind : GroupKind.ofName? e.kind <;> simp_all
  known e hu := by
    simp only [unknown?, ← Framework.ofName?_eq_none_iff, ← GroupKind.ofName?_eq_none_iff] at hu
    rw [role]
    cases hframework : Framework.ofName? e.framework with
    | none => simp_all
    | some framework =>
      cases hkind : GroupKind.ofName? e.kind with
      | none => simp_all
      | some kind => exact ⟨_, by simp [ConstructorEntry.role?, hframework, hkind], rfl⟩

theorem ModelBaseEntry.reads : Reads schemaKind unknown? schemaKind? where
  unknown e u hu := by
    obtain ⟨name, hname, hu⟩ := Option.bind_eq_some_iff.mp hu
    simp only [← SchemaKind.ofName?_eq_none_iff] at hu
    rw [schemaKind, hname]
    cases hkind : SchemaKind.ofName? name <;> simp_all
  known e hu := by
    rw [schemaKind, schemaKind?]
    cases hname : e.kind with
    | none => exact ⟨_, rfl, rfl⟩
    | some name =>
      simp only [unknown?, hname, Option.bind_some, ← SchemaKind.ofName?_eq_none_iff] at hu
      cases hkind : SchemaKind.ofName? name with
      | none => simp [hkind] at hu
      | some kind => exact ⟨kind, hkind, by simp only [hkind]⟩

theorem RouteGroupEntry.isSome_unknown?_iff {e : RouteGroupEntry} :
    e.unknown?.isSome ↔ e.framework ∉ Framework.names ∨ e.kind ∉ GroupKind.names := by
  rw [unknown?]
  split <;> simp_all

theorem ModelBaseEntry.isSome_unknown?_iff {e : ModelBaseEntry} :
    e.unknown?.isSome ↔ ∃ name ∈ e.kind, name ∉ SchemaKind.names := by
  rw [unknown?]
  cases e.kind <;> simp

/-! ### The tables -/

namespace CatalogEntries

/-- The tables with the entries on top of them. -/
def layered (e : CatalogEntries) : Catalog where
  addedConstructors :=
    (Catalog.keyed ConstructorEntry.constructor ConstructorEntry.role? e.constructorEntries).reverse
  addedHttpModules :=
    (Catalog.keyed HttpModuleEntry.module (some ·.library) e.httpModules).reverse
  addedModelBases :=
    (Catalog.keyed ModelBaseEntry.path ModelBaseEntry.schemaKind? e.modelBases).reverse

/-- Reading the entries of a configuration stops at the first one that names something unknown. -/
theorem toCatalog_eq (e : CatalogEntries) :
    e.toCatalog = e.firstUnknown?.elim (.ok e.layered) .error := by
  have hclients := Catalog.foldl_eq_addAll Catalog.addConstructor
    HttpClientEntry.constructor (fun h => .httpClient h.library h.isAsync) e.httpClients
  have hmodules := Catalog.foldl_eq_addAll Catalog.addHttpModule
    HttpModuleEntry.module HttpModuleEntry.library e.httpModules
  have hgroups := RouteGroupEntry.reads.foldlM_eq RouteGroupEntry.constructor
    Catalog.addConstructor e.routeGroups
  have hservers := Catalog.foldl_eq_addAll Catalog.addConstructor
    ToolServerEntry.constructor (fun t => .toolServer t.framework) e.toolServers
  have hbases := ModelBaseEntry.reads.foldlM_eq ModelBaseEntry.path
    Catalog.addModelBase e.modelBases
  simp only [toCatalog, HttpClientEntry.addTo, HttpModuleEntry.addTo, RouteGroupEntry.addTo,
    ToolServerEntry.addTo, ModelBaseEntry.addTo, hclients, hmodules, hgroups, hservers, hbases,
    firstUnknown?]
  cases e.routeGroups.findSome? RouteGroupEntry.unknown? with
  | some u => rfl
  | none =>
    cases e.modelBases.findSome? ModelBaseEntry.unknown? with
    | some u => rfl
    | none =>
      simp only [Option.elim_none, bind, Except.bind, Catalog.addAll_addConstructor,
        Catalog.addAll_addHttpModule, Catalog.addAll_addModelBase, layered, constructorEntries,
        Catalog.keyed_append, Catalog.keyed_map, List.reverse_append, Catalog.builtin,
        List.append_nil]
      rfl

theorem isSome_firstUnknown?_iff (e : CatalogEntries) : e.firstUnknown?.isSome ↔
    (∃ g ∈ e.routeGroups, g.framework ∉ Framework.names ∨ g.kind ∉ GroupKind.names) ∨
      ∃ b ∈ e.modelBases, ∃ name ∈ b.kind, name ∉ SchemaKind.names := by
  simp only [firstUnknown?, Option.isSome_or, Bool.or_eq_true, List.findSome?_isSome_iff,
    RouteGroupEntry.isSome_unknown?_iff, ModelBaseEntry.isSome_unknown?_iff]

theorem isSome_role?_of_firstUnknown? {e : CatalogEntries} (h : e.firstUnknown? = Option.none) :
    ∀ c ∈ e.constructorEntries, c.role?.isSome := by
  obtain ⟨hgroups, -⟩ := Option.or_eq_none_iff.mp h
  intro c hc
  simp only [constructorEntries, List.mem_append, List.mem_map] at hc
  obtain (⟨client, -, rfl⟩ | ⟨group, hgroup, rfl⟩) | ⟨server, -, rfl⟩ := hc
  · rfl
  · obtain ⟨role, hrole, -⟩ :=
      RouteGroupEntry.reads.known group (List.findSome?_eq_none_iff.mp hgroups group hgroup)
    exact Option.isSome_of_eq_some hrole
  · rfl

theorem isSome_schemaKind?_of_firstUnknown? {e : CatalogEntries}
    (h : e.firstUnknown? = Option.none) : ∀ b ∈ e.modelBases, b.schemaKind?.isSome := by
  obtain ⟨-, hbases⟩ := Option.or_eq_none_iff.mp h
  intro b hb
  obtain ⟨kind, hkind, -⟩ :=
    ModelBaseEntry.reads.known b (List.findSome?_eq_none_iff.mp hbases b hb)
  exact Option.isSome_of_eq_some hkind

end CatalogEntries

theorem Config.tables_eq (c : Config) :
    c.tables = c.catalog.firstUnknown?.elim (.ok c.catalog.layered) (.error ∘ .role) := by
  rw [tables, CatalogEntries.toCatalog_eq]
  cases c.catalog.firstUnknown? <;> rfl

/-- **Configured tables.** Reading the catalog of a configuration fails exactly when a group entry
names an unknown framework or kind or the entry of a base an unknown kind, and the first such entry
is reported, groups before bases and the framework before the kind. Otherwise it gives tables in
which the last entry for a name counts, whichever list of constructors it comes from, and the
built-in tables count for all other names. -/
theorem Config.tables_layered (c : Config) :
    ((∃ err, c.tables = .error err) ↔
      (∃ g ∈ c.catalog.routeGroups, g.framework ∉ Framework.names ∨ g.kind ∉ GroupKind.names) ∨
        ∃ b ∈ c.catalog.modelBases, ∃ name ∈ b.kind, name ∉ SchemaKind.names) ∧
    (∀ err, c.tables = .error err ↔ c.catalog.firstUnknown?.map .role = some err) ∧
    ((∃ err, c.tables = .error err) ∨ ∃ tables, c.tables = .ok tables ∧
      Catalog.IsLayered Catalog.constructors c.catalog.constructorEntries
        ConstructorEntry.constructor ConstructorEntry.role? tables.constructorRole? ∧
      Catalog.IsLayered Catalog.httpModules c.catalog.httpModules HttpModuleEntry.module
        (some ·.library) tables.httpModule? ∧
      Catalog.IsLayered Catalog.modelBases c.catalog.modelBases ModelBaseEntry.path
        ModelBaseEntry.schemaKind? tables.modelBase?) := by
  have htables := c.tables_eq
  rw [← CatalogEntries.isSome_firstUnknown?_iff]
  cases hunknown : c.catalog.firstUnknown? with
  | some u =>
    rw [hunknown] at htables
    have herror : c.tables = .error (.role u) := htables
    exact ⟨by simp [herror], by simp [herror], .inl ⟨_, herror⟩⟩
  | none =>
    rw [hunknown] at htables
    have hok : c.tables = .ok c.catalog.layered := htables
    exact ⟨by simp [hok], by simp [hok], .inr ⟨_, hok,
      Catalog.isLayered_reverse_keyed _ (CatalogEntries.isSome_role?_of_firstUnknown? hunknown),
      Catalog.isLayered_reverse_keyed _ fun _ _ => rfl,
      Catalog.isLayered_reverse_keyed _
        (CatalogEntries.isSome_schemaKind?_of_firstUnknown? hunknown)⟩⟩

/-- Of a client, a group and a server of one name the server counts, as its list is the last one. -/
example :
    let entries : CatalogEntries := ⟨[⟨"a.Maker", "a", true⟩], [⟨"requests", "a"⟩],
      [⟨"a.Maker", "starlette", "app"⟩], [⟨"a.Maker", "mcp"⟩], [⟨"a.Base", none⟩]⟩
    entries.firstUnknown? = none ∧
      entries.layered.constructorRole? "a.Maker" = some (.toolServer "mcp") ∧
      entries.layered.httpModule? "requests" = some "a" ∧
      entries.layered.modelBase? "a.Base" = some .pydantic := by
  decide

end ApiSurface
