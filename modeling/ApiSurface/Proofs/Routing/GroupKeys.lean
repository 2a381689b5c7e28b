import ApiSurface.Proofs.Binding.CallPlaces
import ApiSurface.Proofs.Binding.Copies
import ApiSurface.Proofs.Extension.Groups
import ApiSurface.Proofs.Routing.Parameters

/-!
# Keys of groups

A group has the place of the call that constructs it in its key, and the name that the call is
assigned to. The bindings of all names of all groups are sorted by these places, and of each run of
neighbours with one origin the first is kept. That leaves one group for each call when no two calls
that construct groups start at one place, which holds where names stand in front of what they are
called with (`Source.HasPlacedCalls.hasCallsApart`).

So keys tell groups apart, and the look-ups by origin and by key, which both take the last of
several, find the only one: routes and includes carry the key of the group that their receiver was
constructed as, and each group has its own routes as members (`isGrouped_listing`).
-/

namespace ApiSurface

open ApiSurface.Syntax (Node)
open ApiSurface.Expr (Arguments stripAwait)
open ApiSurface.Binding (Table Value IsNamedCall HasNamesInFront)

/-- The table of the file is that of its tree, which is numbered in source order and has names in
front of calls. -/
structure Source.HasPlacedCalls (s : Source) : Prop where
  table_eq : s.table = Table.build s.tree s.catalog
  numbered : s.tree.IsNumbered
  namesInFront : HasNamesInFront s.tree

theorem Source.HasPlacedCalls.hasCallsApart {s : Source} (hs : s.HasPlacedCalls) :
    s.HasCallsApart := by
  intro v hv w hw
  rw [hs.table_eq] at hv hw
  obtain ⟨hv, hvcall⟩ := Binding.isNamedCallIn_of_mem_roleValues hv
  obtain ⟨hw, hwcall⟩ := Binding.isNamedCallIn_of_mem_roleValues hw
  constructor
  · intro hstart
    rw [hs.namesInFront.eq_of_startByte_eq hv hw hvcall hwcall hstart]
  · intro hid
    rw [hs.numbered.eq_of_id_eq hv hw hid]

namespace Routing

variable {s : Source} {X : Node} {name : String} {v w : Value} {g : Constructed} {path : String}

/-! ### Bindings of groups -/

/-- The name is bound to a route group that the node constructs. -/
def BindsGroup (s : Source) (name : String) (X : Node) : Prop :=
  ∃ e v, s.table.Has e ∧ e.bound = .value v ∧ v.variableName = name ∧ v.origin = X ∧
    v.role.any (·.isRouteGroup)

/-- The key is that of a group which the node constructs, with one of its names. -/
structure Constructs (s : Source) (X : Node) (key : GroupKey) : Prop where
  file : key.file = s.path
  offset : key.offset = X.startByte
  bindsGroup : BindsGroup s key.name X

theorem mem_roleValues_of_has {t : Table} {e : Binding.Entry} (he : t.Has e)
    (hv : e.bound = .value v) (hrole : v.role.isSome) : v ∈ t.roleValues := by
  obtain ⟨i, scope, hscope, he⟩ := he
  refine List.mem_flatMap.mpr ⟨scope, ?_, List.mem_map.mpr ⟨(e.visibleFrom, v), ?_, rfl⟩⟩
  · exact List.mem_of_getElem? (by simpa using hscope)
  · refine List.mem_mergeSort.mpr (List.mem_filterMap.mpr ⟨e, List.mem_reverse.mpr he, ?_⟩)
    simp only [Table.roleValue?, hv, hrole, if_true]

theorem mem_groupBindings_iff : v ∈ groupBindings s ↔
    ∃ e, s.table.Has e ∧ e.bound = .value v ∧ v.role.any (·.isRouteGroup) := by
  simp only [groupBindings, List.mem_map, List.mem_mergeSort]
  constructor
  · rintro ⟨_, ⟨u, hu, rfl⟩, rfl⟩
    obtain ⟨hu, hgroup⟩ := List.mem_filter.mp hu
    obtain ⟨e, he, hbound, -⟩ := Binding.exists_has_of_mem_roleValues hu
    exact ⟨e, he, hbound, hgroup⟩
  · rintro ⟨e, he, hbound, hgroup⟩
    have hrole : v.role.isSome := by
      cases hv : v.role with
      | none => simp [hv] at hgroup
      | some role => rfl
    exact ⟨_, ⟨v, List.mem_filter.mpr ⟨mem_roleValues_of_has he hbound hrole, hgroup⟩, rfl⟩, rfl⟩

theorem bindsGroup_iff : BindsGroup s name X ↔
    ∃ v ∈ groupBindings s, v.variableName = name ∧ v.origin = X := by
  constructor
  · rintro ⟨e, v, he, hbound, hname, hX, hgroup⟩
    exact ⟨v, mem_groupBindings_iff.mpr ⟨e, he, hbound, hgroup⟩, hname, hX⟩
  · rintro ⟨v, hv, hname, hX⟩
    obtain ⟨e, he, hbound, hgroup⟩ := mem_groupBindings_iff.mp hv
    exact ⟨e, v, he, hbound, hname, hX, hgroup⟩

/-- Of each run a value is kept. -/
theorem exists_mem_dropRepeats (l : List Value) :
    ∀ v ∈ l, ∃ w ∈ dropRepeats l, w.origin.id = v.origin.id := by
  fun_induction dropRepeats l with
  | case1 => simp
  | case2 u => simp
  | case3 u w r hsame ih =>
    have hu := ih u List.mem_cons_self
    rw [List.forall_mem_cons, List.forall_mem_cons]
    exact ⟨hu, hsame ▸ hu, fun v hv => ih v (List.mem_cons_of_mem u hv)⟩
  | case4 u w r hne ih =>
    rw [List.forall_mem_cons]
    refine ⟨⟨u, List.mem_cons_self, rfl⟩, fun v hv => ?_⟩
    obtain ⟨k, hk, hid⟩ := ih v hv
    exact ⟨k, List.mem_cons_of_mem u hk, hid⟩

/-! ### Constructed groups -/

theorem key_of_ofBinding? (h : ofBinding? path v = some g) :
    g.group.key = ⟨path, v.variableName, v.origin.startByte⟩ := by
  rw [ofBinding?] at h
  split at h
  · exact Option.some.inj h ▸ rfl
  · cases h

theorem exists_ofBinding?_eq (path : String) (hv : v.role.any (·.isRouteGroup)) :
    ∃ g, ofBinding? path v = some g := by
  rw [ofBinding?]
  split
  · exact ⟨_, rfl⟩
  · next hnone =>
    obtain ⟨role, hrole, hgroup⟩ := (Option.any_eq_true _ _).mp hv
    cases role with
    | routeGroup framework kind => exact absurd hrole (hnone framework kind)
    | httpClient | toolServer => simp [Catalog.Role.isRouteGroup] at hgroup

/-- A group comes from a binding, which is one of its names. -/
theorem exists_mem_groupBindings (hg : g ∈ constructedGroups s) :
    ∃ v ∈ groupBindings s, g.origin = v.origin.id ∧ Constructs s v.origin g.group.key := by
  obtain ⟨v, hv, hgv⟩ := List.mem_filterMap.mp hg
  have hmem := (sublist_dropRepeats _).subset hv
  have hkey := key_of_ofBinding? hgv
  refine ⟨v, hmem, (eq_of_ofBinding? hgv).1, by rw [hkey], by rw [hkey], ?_⟩
  exact bindsGroup_iff.mpr ⟨v, hmem, by rw [hkey], rfl⟩

/-- What a name is bound to is constructed as a group. -/
theorem exists_mem_constructedGroups (hv : v ∈ groupBindings s) :
    ∃ g ∈ constructedGroups s, g.origin = v.origin.id := by
  obtain ⟨w, hw, hid⟩ := exists_mem_dropRepeats _ v hv
  obtain ⟨-, -, -, hgroup⟩ := mem_groupBindings_iff.mp ((sublist_dropRepeats _).subset hw)
  obtain ⟨g, hg⟩ := exists_ofBinding?_eq s.path hgroup
  exact ⟨g, List.mem_filterMap.mpr ⟨w, hw, hg⟩, (eq_of_ofBinding? hg).1.trans hid⟩

end Routing

namespace Source.HasPlacedCalls

open Routing

variable {s : Source} {X Y : Node} {name : String} {v : Value} {g : Constructed} {key : GroupKey}

/-! ### One group for each call -/

theorem mem_nodes_of_bindsGroup (hs : s.HasPlacedCalls) (h : BindsGroup s name X) :
    X ∈ s.tree.nodes ∧ IsNamedCall X := by
  obtain ⟨v, hv, -, rfl⟩ := bindsGroup_iff.mp h
  have hrole := mem_groupBindings hv
  rw [hs.table_eq] at hrole
  exact Binding.isNamedCallIn_of_mem_roleValues hrole

/-- The place in a key tells the call. -/
theorem eq_of_constructs (hs : s.HasPlacedCalls) (hX : Constructs s X key)
    (hY : Constructs s Y key) : X = Y := by
  obtain ⟨hXmem, hXcall⟩ := hs.mem_nodes_of_bindsGroup hX.bindsGroup
  obtain ⟨hYmem, hYcall⟩ := hs.mem_nodes_of_bindsGroup hY.bindsGroup
  exact hs.namesInFront.eq_of_startByte_eq hXmem hYmem hXcall hYcall
    (hX.offset.symm.trans hY.offset)

/-- The group of a binding has the key that the origin of the binding constructs. -/
theorem exists_keyOf?_eq (hs : s.HasPlacedCalls) (hv : v ∈ groupBindings s) :
    ∃ g ∈ constructedGroups s, keyOf? (constructedGroups s) v.origin = some g.group.key ∧
      Constructs s v.origin g.group.key := by
  obtain ⟨g, hg, horigin⟩ := exists_mem_constructedGroups hv
  obtain ⟨w, hw, hgw, hkey⟩ := exists_mem_groupBindings hg
  have hnode : ∀ {v}, v ∈ groupBindings s → v.origin ∈ s.tree.nodes := fun hv =>
    (hs.mem_nodes_of_bindsGroup (bindsGroup_iff.mpr ⟨_, hv, rfl, rfl⟩)).1
  have hsame : w.origin = v.origin :=
    hs.numbered.eq_of_id_eq (hnode hw) (hnode hv) (hgw.symm.trans horigin)
  exact ⟨g, hg, (keyOf?_eq_some_iff hs.hasCallsApart.nodup_origins).mpr ⟨g, hg, horigin, rfl⟩,
    hsame ▸ hkey⟩

/-- Groups are told apart by the places in their keys. -/
theorem eq_of_offset_eq (hs : s.HasPlacedCalls) {g k : Constructed}
    (hg : g ∈ constructedGroups s) (hk : k ∈ constructedGroups s)
    (h : g.group.key.offset = k.group.key.offset) : g = k := by
  obtain ⟨v, hv, hgv, hgkey⟩ := exists_mem_groupBindings hg
  obtain ⟨w, hw, hkw, hkkey⟩ := exists_mem_groupBindings hk
  have hid : v.origin.id = w.origin.id :=
    (hs.hasCallsApart v (mem_groupBindings hv) w (mem_groupBindings hw)).mp
      (hgkey.offset.symm.trans (h.trans hkkey.offset))
  exact List.inj_on_of_nodup_map hs.hasCallsApart.nodup_origins hg hk
    (hgv.trans (hid.trans hkw.symm))

end Source.HasPlacedCalls

namespace Routing

variable {s : Source} {object : Node} {v : Value} {groups : List Constructed}

/-! ### Receivers -/

/-- The expression is a name that is bound to the value. -/
def ThroughValue (s : Source) (object : Node) (v : Value) : Prop :=
  (stripAwait object).kind = "identifier" ∧
    s.table.lookup (stripAwait object).text (stripAwait object) = some (.value v)

/-- The group object that a name denotes is the one that the origin of its value constructs. -/
theorem groupOf?_of_throughValue {found : Framework × Option GroupKey}
    (h : groupOf? s groups object = some found) (hv : ThroughValue s object v) :
    v ∈ groupBindings s ∧ found.2 = keyOf? groups v.origin := by
  obtain ⟨hk, hlookup⟩ := hv
  simp only [groupOf?, Option.bind_eq_bind, Option.bind_eq_some_iff] at h
  obtain ⟨i, hi, hfound⟩ := h
  rw [Source.resolve?, Table.resolve?_of_identifier hk, hlookup, Option.bind_some,
    Table.instanceOfBound?, Table.instanceOfValue?] at hi
  simp only [Option.bind_eq_bind, Option.bind_eq_some_iff] at hi
  obtain ⟨role, hrole, callee, -, hi⟩ := hi
  obtain rfl := Option.some.inj hi
  split at hfound
  · next framework kind hgroup =>
    obtain ⟨e, he, -, hbound⟩ := Table.exists_has_of_findFrom hlookup
    have hany : v.role.any (·.isRouteGroup) := by
      rw [hrole, Option.any_some, show role = .routeGroup framework kind from hgroup]
      rfl
    exact ⟨mem_groupBindings_iff.mpr ⟨e, he, hbound, hany⟩, Option.some.inj hfound ▸ rfl⟩
  · cases hfound

/-- The group that a decorator registers on is that of the object of the decorator. -/
theorem exists_receiver_of_decoratorSite? {decorated definition decorator : Node} {site : Site}
    (h : decoratorSite? s groups decorated definition decorator = some site) :
    ∃ object member, calledMember? site.call = some (object, member) ∧
      groupOf? s groups object = some (site.framework, site.group) := by
  simp only [decoratorSite?, Option.bind_eq_bind, Option.bind_eq_some_iff] at h
  obtain ⟨call, -, h⟩ := h
  split at h
  · simp only [Option.bind_eq_some_iff] at h
    obtain ⟨⟨object, member⟩, hmember, ⟨framework, group⟩, hgroup, method, -, h⟩ := h
    obtain rfl := Option.some.inj h
    exact ⟨object, member, hmember, hgroup⟩
  · cases h

/-- The group that a call registers on is that of the object of the call. -/
theorem exists_receiver_of_callSite? {call : Node} {site : Site}
    (h : callSite? s groups call = some site) :
    ∃ object member, calledMember? site.call = some (object, member) ∧
      groupOf? s groups object = some (site.framework, site.group) := by
  simp only [callSite?, Option.bind_eq_bind, Option.bind_eq_some_iff] at h
  obtain ⟨⟨object, member⟩, hmember, layout, -, ⟨framework, group⟩, hgroup, h⟩ := h
  obtain rfl := Option.some.inj h
  exact ⟨object, member, hmember, hgroup⟩

theorem exists_receiver_of_mem_sitesAt {n : Node} {site : Site}
    (h : site ∈ sitesAt s groups n) : ∃ object member,
      calledMember? site.call = some (object, member) ∧
      groupOf? s groups object = some (site.framework, site.group) := by
  obtain ⟨definition, decorator, hsite⟩ | hsite := exists_site?_of_mem_sitesAt h
  · exact exists_receiver_of_decoratorSite? hsite
  · exact exists_receiver_of_callSite? hsite

/-- An include goes from the object of the call, to what its target argument points at. -/
theorem exists_receiver_of_include? {call : Node} {i : GroupInclude}
    (h : include? s groups call = some i) : ∃ object framework,
      calledMember? call = some (object, i.method) ∧
      groupOf? s groups object = some (framework, some i.parent) ∧
      ∀ key, i.target = .local key → ∃ layout target framework,
        Catalog.includeCall? i.method = some layout ∧
        (Arguments.ofCall call).get? layout.targetIndex layout.targetKeyword = some target ∧
        groupOf? s groups target = some (framework, some key) := by
  simp only [include?, Option.bind_eq_bind, Option.bind_eq_some_iff] at h
  obtain ⟨⟨object, method⟩, hmember, layout, hlayout, ⟨framework, parent?⟩, hgroup, parent,
    hparent, h⟩ := h
  obtain rfl := Option.some.inj h
  obtain rfl : parent? = some parent := hparent
  refine ⟨object, framework, hmember, hgroup, fun key hkey => ?_⟩
  dsimp only at hkey
  cases htarget : (Arguments.ofCall call).get? layout.targetIndex layout.targetKeyword with
  | none => simp [htarget] at hkey
  | some target =>
    rw [htarget] at hkey
    refine ⟨layout, target, ?_⟩
    simp only [includeTarget] at hkey
    split at hkey
    · next framework' key' hfound =>
      obtain rfl := IncludeTarget.local.inj hkey
      exact ⟨framework', hlayout, htarget, hfound⟩
    · split at hkey
      · split at hkey
        · split at hkey <;> cases hkey
        · cases hkey
      · cases hkey

/-! ### The listing -/

/-- The key is that of a group, which the value was constructed as. -/
structure IsKeyOf (s : Source) (groups : List RouteGroup) (v : Value) (key : GroupKey) : Prop where
  ofGroup : ∃ g ∈ groups, g.key = key
  constructs : Constructs s v.origin key

/-- The groups of a listing stand for the calls that construct them, and routes and includes keep to
their keys. -/
structure Listing.IsGrouped (s : Source) (l : Listing) : Prop where
  /-- No two groups have one key. -/
  keysDistinct : (l.groups.map (·.key)).Nodup
  /-- A call that some name is bound to has one group, however many names there are. -/
  groupOfCall : ∀ X name, BindsGroup s name X → ∃! g, g ∈ l.groups ∧ Constructs s X g.key
  /-- A group belongs to one call of the tree, which it has one of the names of. -/
  callOfGroup : ∀ g ∈ l.groups,
    ∃! X, X ∈ s.tree.nodes ∧ X.kind = "call" ∧ Constructs s X g.key
  /-- Routes are registered at sites. -/
  routes_eq : l.routes = (sites s).map (routeAt s)
  /-- A route whose receiver is bound to a value has the key of the group of the value. -/
  routeKeys : ∀ site ∈ sites s, ∃ object member,
    calledMember? site.call = some (object, member) ∧
    ∀ v, ThroughValue s object v →
      ∃ key, (routeAt s site).group = some key ∧ IsKeyOf s l.groups v key
  /-- Includes are made by calls. -/
  includes_eq : l.includes = s.tree.nodes.flatMap (includesAt s (constructedGroups s))
  /-- The parent of an include, and its target when that is local, have such keys as well. -/
  includeKeys : ∀ call ∈ s.tree.nodes, ∀ i ∈ includesAt s (constructedGroups s) call, ∃ object,
    calledMember? call = some (object, i.method) ∧
    (∀ v, ThroughValue s object v → IsKeyOf s l.groups v i.parent) ∧
    ∀ key, i.target = .local key → ∃ layout target,
      Catalog.includeCall? i.method = some layout ∧
      (Arguments.ofCall call).get? layout.targetIndex layout.targetKeyword = some target ∧
      ∀ v, ThroughValue s target v → IsKeyOf s l.groups v key
  /-- The members of a group are the places of the routes with its key, in their order. -/
  members : ∀ g ∈ l.groups,
    g.members = (l.routes.filter fun r => r.group = some g.key).map (·.span)

/-- Groups with their routes have the keys that they were constructed with. -/
theorem groups_listing (hs : s.HasPlacedCalls) : (listing s).groups
    = ((constructedGroups s).map (·.group)).map (withOwn (listing s).routes) := by
  refine withMembers_eq_map _ ?_
  rw [List.map_map]
  exact hs.hasCallsApart.nodup_keys

theorem isKeyOf_of_groupOf? (hs : s.HasPlacedCalls) {found : Framework × Option GroupKey}
    (h : groupOf? s (constructedGroups s) object = some found) (hv : ThroughValue s object v) :
    ∃ key, found.2 = some key ∧ IsKeyOf s (listing s).groups v key := by
  obtain ⟨hmem, hkey⟩ := groupOf?_of_throughValue h hv
  obtain ⟨g, hg, hkeyOf, hconstructs⟩ := hs.exists_keyOf?_eq hmem
  refine ⟨g.group.key, hkey.trans hkeyOf, ⟨withOwn (listing s).routes g.group, ?_, rfl⟩,
    hconstructs⟩
  rw [groups_listing hs, List.map_map]
  exact List.mem_map_of_mem hg

/-- The key that an expression points at is the one its value was constructed with. -/
theorem isKeyOf_of_groupOf?_of_some (hs : s.HasPlacedCalls) {framework : Framework}
    {key : GroupKey} (h : groupOf? s (constructedGroups s) object = some (framework, some key))
    (hv : ThroughValue s object v) : IsKeyOf s (listing s).groups v key := by
  obtain ⟨key', hkey, hof⟩ := isKeyOf_of_groupOf? hs h hv
  obtain rfl : key = key' := Option.some.inj hkey
  exact hof

/-- **Groups of a file.** Keys tell groups apart, there is one group for each call that some name is
bound to as a route group, and routes and includes carry the keys of the groups that their receivers
were constructed as. The members of a group are its routes. -/
theorem isGrouped_listing (hs : s.HasPlacedCalls) : (listing s).IsGrouped s := by
  have hgroups := groups_listing hs
  have hmem : ∀ {k}, k ∈ (listing s).groups ↔
      ∃ g ∈ constructedGroups s, withOwn (listing s).routes g.group = k := by
    intro k
    rw [hgroups, List.map_map, List.mem_map]
    rfl
  refine ⟨?_, fun X name hX => ?_, fun k hk => ?_, ?_, fun site hsite => ?_, rfl,
    fun call hcall i hi => ?_, fun k hk => ?_⟩
  · rw [hgroups, List.map_map, List.map_map]
    exact hs.hasCallsApart.nodup_keys
  · -- the place in the key leaves one group for the call
    obtain ⟨v, hv, -, rfl⟩ := bindsGroup_iff.mp hX
    obtain ⟨g, hg, -, hkey⟩ := hs.exists_keyOf?_eq hv
    refine ⟨withOwn (listing s).routes g.group, ⟨hmem.mpr ⟨g, hg, rfl⟩, hkey⟩, ?_⟩
    rintro k ⟨hk, hkkey⟩
    obtain ⟨g', hg', rfl⟩ := hmem.mp hk
    rw [hs.eq_of_offset_eq hg' hg (hkkey.offset.trans hkey.offset.symm)]
  · obtain ⟨g, hg, rfl⟩ := hmem.mp hk
    obtain ⟨v, hv, -, hkey⟩ := exists_mem_groupBindings hg
    obtain ⟨hnode, hcall⟩ := hs.mem_nodes_of_bindsGroup hkey.bindsGroup
    exact ⟨v.origin, ⟨hnode, hcall.1, hkey⟩, fun Y ⟨_, _, hY⟩ => hs.eq_of_constructs hY hkey⟩
  · exact routes_facts s none
  · -- a site takes its group from the object it is registered on
    obtain ⟨n, -, hsite⟩ := List.mem_flatMap.mp hsite
    obtain ⟨object, member, hmember, hgroup⟩ := exists_receiver_of_mem_sitesAt hsite
    exact ⟨object, member, hmember, fun v hv => isKeyOf_of_groupOf? hs hgroup hv⟩
  · rw [includesAt] at hi
    split at hi
    · obtain ⟨object, framework, hmember, hparent, htarget⟩ :=
        exists_receiver_of_include? (Option.mem_toList.mp hi)
      refine ⟨object, hmember, fun v hv => isKeyOf_of_groupOf?_of_some hs hparent hv,
        fun key hkey => ?_⟩
      obtain ⟨layout, target, framework', hlayout, harg, hgroup⟩ := htarget key hkey
      exact ⟨layout, target, hlayout, harg,
        fun v hv => isKeyOf_of_groupOf?_of_some hs hgroup hv⟩
    · cases hi
  · obtain ⟨g, hg, rfl⟩ := hmem.mp hk
    rfl

/-- Whether the binding is that of a route group with the name, which the node of the number
constructs. -/
def namesGroup (name : String) (id : Nat) (e : Binding.Entry) : Bool :=
  match e.bound with
  | .value v => v.variableName == name && v.origin.id == id && v.role.any (·.isRouteGroup)
  | _ => false

/-- By their numbers the bindings of a call are found in the table. -/
theorem bindsGroup_of_namesGroup (hs : s.HasPlacedCalls) {name : String} {X : Node}
    (hX : X ∈ s.tree.nodes) (h : ∃ scope ∈ s.table.scopes.toList, ∃ e ∈ scope.entries,
      namesGroup name X.id e = true) : BindsGroup s name X := by
  obtain ⟨scope, hscope, e, he, hnames⟩ := h
  obtain ⟨i, hi⟩ := List.getElem?_of_mem hscope
  have hhas : s.table.Has e := ⟨i, scope, by simpa using hi, he⟩
  rw [namesGroup] at hnames
  split at hnames
  · next v hbound =>
    simp only [Bool.and_eq_true, beq_iff_eq] at hnames
    obtain ⟨⟨hname, hid⟩, hgroup⟩ := hnames
    have hv : BindsGroup s name v.origin := ⟨e, v, hhas, hbound, hname, rfl, hgroup⟩
    exact hs.numbered.eq_of_id_eq (hs.mem_nodes_of_bindsGroup hv).1 hX hid ▸ hv
  · cases hnames

section Aliased

open ApiSurface.Syntax.ParseTree

/-- A router with two names, and a route that is registered through the second one. -/
def aliasedTree : Syntax.Tree := Syntax.Tree.lower
    ("from fastapi import APIRouter\nrouter = APIRouter()\nalias = router\n" ++
      "@alias.get(\"/x\")\ndef x(): pass") <|
  rule "module" none 0 96 [
    rule "import_from_statement" none 0 29 [
      token "from" 0 4,
      rule "dotted_name" "module_name" 5 12 [rule "identifier" none 5 12 []],
      token "import" 13 19,
      rule "dotted_name" "name" 20 29 [rule "identifier" none 20 29 []]],
    rule "expression_statement" none 30 50 [
      rule "assignment" none 30 50 [
        rule "identifier" "left" 30 36 [],
        token "=" 37 38,
        rule "call" "right" 39 50 [
          rule "identifier" "function" 39 48 [],
          rule "argument_list" "arguments" 48 50 [token "(" 48 49, token ")" 49 50]]]],
    rule "expression_statement" none 51 65 [
      rule "assignment" none 51 65 [
        rule "identifier" "left" 51 56 [],
        token "=" 57 58,
        rule "identifier" "right" 59 65 []]],
    rule "decorated_definition" none 66 96 [
      rule "decorator" none 66 82 [
        token "@" 66 67,
        rule "call" none 67 82 [
          rule "attribute" "function" 67 76 [
            rule "identifier" "object" 67 72 [],
            token "." 72 73,
            rule "identifier" "attribute" 73 76 []],
          rule "argument_list" "arguments" 76 82 [
            token "(" 76 77,
            rule "string" none 77 81 [
              rule "string_start" none 77 78 [],
              rule "string_content" none 78 80 [],
              rule "string_end" none 80 81 []],
            token ")" 81 82]]],
      rule "function_definition" "definition" 83 96 [
        token "def" 83 86,
        rule "identifier" "name" 87 88 [],
        rule "parameters" "parameters" 88 90 [token "(" 88 89, token ")" 89 90],
        token ":" 90 91,
        rule "block" "body" 92 96 [
          rule "pass_statement" none 92 96 [token "pass" 92 96]]]]]

def aliased : Source := .read (fun _ => aliasedTree) .builtin "aliased.py" ""

def aliasedNode (i : Nat) : Node := (aliasedTree.node? i).getD default

theorem hasPlacedCalls_aliased : aliased.HasPlacedCalls :=
  ⟨rfl, Syntax.Tree.isNumbered_lower _ _, by decide +kernel⟩

/-- The theorem applies to a router with two names, for which there is one group. -/
theorem isGrouped_listing_aliased : aliased.HasPlacedCalls ∧
    BindsGroup aliased "router" (aliasedNode 12) ∧ BindsGroup aliased "alias" (aliasedNode 12) ∧
    ((listing aliased).groups.map (·.key)).Nodup ∧
    ∃! g, g ∈ (listing aliased).groups ∧ Constructs aliased (aliasedNode 12) g.key := by
  have hnode : aliasedNode 12 ∈ aliased.tree.nodes := List.mem_of_getElem? (i := 12) (by rfl)
  have hrouter : BindsGroup aliased "router" (aliasedNode 12) :=
    bindsGroup_of_namesGroup hasPlacedCalls_aliased hnode (by decide +kernel)
  have halias : BindsGroup aliased "alias" (aliasedNode 12) :=
    bindsGroup_of_namesGroup hasPlacedCalls_aliased hnode (by decide +kernel)
  have hgrouped := isGrouped_listing hasPlacedCalls_aliased
  exact ⟨hasPlacedCalls_aliased, hrouter, halias, hgrouped.keysDistinct,
    hgrouped.groupOfCall _ _ halias⟩

end Aliased

end Routing

end ApiSurface
