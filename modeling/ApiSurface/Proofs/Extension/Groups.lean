import ApiSurface.Proofs.Extension.Calls

/-!
# Groups with a larger catalog

A group is constructed by a call of a name, and goes by the first of the bindings of its object. The
bindings of a smaller catalog are those of a larger one whose callees it knows, and all bindings of
one object have one callee; so they are taken or left together, in runs, since they are sorted by
the places of the calls (`Source.HasCallsApart.pairwise_groupBindings`).

So the groups of the smaller catalog are found again with the larger one, under the same keys
(`Source.Extends.groups_sublist`), and an expression points at one of them with one catalog exactly
when it does with the other (`Source.Extends.groupOf?_of_some`, `Source.Extends.groupOf?_of_known`).
-/

namespace ApiSurface

open ApiSurface.Syntax (Node)
open ApiSurface.Binding (Value Table knows)
open ApiSurface.Binding.Table (knowsValue)
open ApiSurface.Project (IsSortable)

namespace Routing

variable {v w : Value} {l : List Value} {groups : List Constructed} {g : Constructed} {X : Node}

/-! ### Sorting -/

instance : Std.TransCmp NamingKey.compare :=
  inferInstanceAs <| Std.TransCmp <| compareLex (compareOn NamingKey.constructedAt) <|
    compareLex (compareOn fun k => k.isAlias.toNat) <|
    compareLex (compareOn NamingKey.introducedAt) (compareOn NamingKey.name)

/-- Bindings of groups are sorted by their keys. -/
theorem isSortable_namingKey :
    IsSortable fun a b : NamingKey × Value => NamingKey.compare a.1 b.1 != .gt :=
  (IsSortable.of_compare NamingKey.compare).comp Prod.fst

theorem constructedAt_le {a b : NamingKey} (h : NamingKey.compare a b != .gt) :
    a.constructedAt ≤ b.constructedAt := by
  refine Nat.le_of_not_lt fun hlt => ?_
  have hgt : compare a.constructedAt b.constructedAt = .gt := Nat.compare_eq_gt.mpr hlt
  simp [NamingKey.compare, hgt] at h

/-! ### Runs -/

/-- The values come from one node, or from nodes that start one behind the other. -/
def IsLined (v w : Value) : Prop :=
  v.origin.startByte ≤ w.origin.startByte ∧
    (v.origin.startByte = w.origin.startByte ↔ v.origin.id = w.origin.id)

theorem sublist_dropRepeats (l : List Value) : (dropRepeats l).Sublist l := by
  fun_induction dropRepeats l with
  | case1 => exact .slnil
  | case2 v => exact .refl _
  | case3 v w r hsame ih => exact ih.trans (((List.Sublist.refl r).cons w).cons_cons v)
  | case4 v w r hne ih => exact ih.cons_cons v

theorem dropRepeats_cons_of_ne (h : ∀ w ∈ l, v.origin.id ≠ w.origin.id) :
    dropRepeats (v :: l) = v :: dropRepeats l := by
  cases l with
  | nil => simp only [dropRepeats]
  | cons w r => rw [dropRepeats, if_neg (h w List.mem_cons_self)]

/-- Behind the last value of a run there are none of the run. -/
theorem startByte_lt_of_ne {r : List Value} (h : (v :: w :: r).Pairwise IsLined)
    (hne : v.origin.id ≠ w.origin.id) :
    ∀ u ∈ w :: r, v.origin.startByte < u.origin.startByte ∧ v.origin.id ≠ u.origin.id := by
  obtain ⟨hv, hr⟩ := List.pairwise_cons.mp h
  have hw : v.origin.startByte < w.origin.startByte := by
    obtain ⟨hle, hiff⟩ := hv w List.mem_cons_self
    exact Nat.lt_of_le_of_ne hle fun heq => hne (hiff.mp heq)
  intro u hu
  have hlt : v.origin.startByte < u.origin.startByte := by
    rcases List.mem_cons.mp hu with rfl | hu
    · exact hw
    · exact Nat.lt_of_lt_of_le hw ((List.pairwise_cons.mp hr).1 u hu).1
  exact ⟨hlt, fun hid => Nat.ne_of_lt hlt ((hv u hu).2.mpr hid)⟩

/-- Of each run one value is left. -/
theorem pairwise_dropRepeats (h : l.Pairwise IsLined) :
    (dropRepeats l).Pairwise fun v w =>
      v.origin.startByte < w.origin.startByte ∧ v.origin.id ≠ w.origin.id := by
  fun_induction dropRepeats l with
  | case1 => exact .nil
  | case2 v => exact List.pairwise_singleton _ v
  | case3 v w r hsame ih => exact ih (h.sublist (((List.Sublist.refl r).cons w).cons_cons v))
  | case4 v w r hne ih =>
    exact List.pairwise_cons.mpr ⟨fun u hu =>
      startByte_lt_of_ne h hne u ((sublist_dropRepeats _).subset hu),
      ih (List.pairwise_cons.mp h).2⟩

/-- Whole runs may be left out before or after. -/
theorem filter_dropRepeats {K : Value → Bool} (h : l.Pairwise IsLined)
    (hK : ∀ v ∈ l, ∀ w ∈ l, v.origin.id = w.origin.id → K v = K w) :
    (dropRepeats l).filter K = dropRepeats (l.filter K) := by
  fun_induction dropRepeats l with
  | case1 => simp [dropRepeats]
  | case2 v => by_cases hv : K v <;> simp [hv, dropRepeats]
  | case3 v w r hsame ih =>
    have hsub : (v :: r).Sublist (v :: w :: r) := ((List.Sublist.refl r).cons w).cons_cons v
    rw [ih (h.sublist hsub) fun v hv w hw => hK v (hsub.subset hv) w (hsub.subset hw)]
    -- `v` and `w` are of one run, so both are kept or none
    have hvw : K v = K w := hK v List.mem_cons_self w (by simp) hsame
    by_cases hv : K v
    · rw [List.filter_cons_of_pos hv, List.filter_cons_of_pos hv,
        List.filter_cons_of_pos (hvw ▸ hv), dropRepeats, if_pos hsame]
    · rw [List.filter_cons_of_neg hv, List.filter_cons_of_neg hv,
        List.filter_cons_of_neg (hvw ▸ hv)]
  | case4 v w r hne ih =>
    have hrest := ih (List.pairwise_cons.mp h).2 fun v hv w hw =>
      hK v (List.mem_cons_of_mem _ hv) w (List.mem_cons_of_mem _ hw)
    by_cases hv : K v
    · -- when values behind `v` are left out, its run does not meet another value of its node
      have hbehind : ∀ u ∈ (w :: r).filter K, v.origin.id ≠ u.origin.id := fun u hu =>
        (startByte_lt_of_ne h hne u (List.mem_filter.mp hu).1).2
      rw [List.filter_cons_of_pos hv, List.filter_cons_of_pos hv, dropRepeats_cons_of_ne hbehind,
        hrest]
    · rw [List.filter_cons_of_neg hv, List.filter_cons_of_neg hv, hrest]

/-! ### Keys -/

theorem eq_of_ofBinding? {path : String} (h : ofBinding? path v = some g) :
    g.origin = v.origin.id ∧ g.group.key.offset = v.origin.startByte := by
  rw [ofBinding?] at h
  split at h
  · obtain rfl := Option.some.inj h
    exact ⟨rfl, rfl⟩
  · cases h

/-- The key that a node constructs is that of a group. -/
theorem keyOf?_eq_some_iff {key : GroupKey} (h : (groups.map (·.origin)).Nodup) :
    keyOf? groups X = some key ↔ ∃ g ∈ groups, g.origin = X.id ∧ g.group.key = key := by
  have hfound : ∀ {g}, groups.reverse.find? (fun g => g.origin == X.id) = some g →
      g ∈ groups ∧ g.origin = X.id := fun hg =>
    ⟨List.mem_reverse.mp (List.mem_of_find?_eq_some hg), by simpa using List.find?_some hg⟩
  rw [keyOf?, Option.map_eq_some_iff]
  constructor
  · rintro ⟨g, hg, hkey⟩
    exact ⟨g, (hfound hg).1, (hfound hg).2, hkey⟩
  · rintro ⟨g, hg, horigin, hkey⟩
    refine ⟨g, ?_, hkey⟩
    have hsome : (groups.reverse.find? fun g => g.origin == X.id).isSome :=
      List.find?_isSome.mpr ⟨g, List.mem_reverse.mpr hg, by simp [horigin]⟩
    obtain ⟨g', hg'⟩ := Option.isSome_iff_exists.mp hsome
    obtain ⟨hmem, horigin'⟩ := hfound hg'
    rw [hg', List.inj_on_of_nodup_map h hmem hg (horigin'.trans horigin.symm)]

/-- A group with the routes that are registered on it. -/
def withOwn (routes : List Route) (g : RouteGroup) : RouteGroup :=
  { g with members := (routes.filter fun r => r.group = some g.key).map (·.span) }

/-- Groups with different keys take the routes that are registered on them. -/
theorem withMembers_eq_map (routes : List Route) {groups : List RouteGroup}
    (h : (groups.map (·.key)).Nodup) : withMembers routes groups = groups.map (withOwn routes) := by
  induction groups with
  | nil => rfl
  | cons g r ih =>
    obtain ⟨hg, hr⟩ := List.nodup_cons.mp h
    have hfirst : (r.any fun k => k.key = g.key) = false := by
      rw [List.any_eq_false]
      intro k hk hkey
      exact hg (List.mem_map.mpr ⟨k, hk, of_decide_eq_true hkey⟩)
    rw [withMembers, ih hr, List.map_cons]
    simp only [hfirst, Bool.false_eq_true, if_false, withOwn]

end Routing

namespace Source

open Routing

variable {s s' : Source} {v w : Value} {g : Constructed} {object X : Node}

/-! ### Bindings of groups -/

theorem mem_groupBindings (hv : v ∈ groupBindings s) : v ∈ s.table.roleValues := by
  simp only [groupBindings, List.mem_map, List.mem_mergeSort] at hv
  obtain ⟨_, ⟨u, hu, rfl⟩, rfl⟩ := hv
  exact (List.mem_filter.mp hu).1

/-- Values with roles that start at one place come from one node. -/
def HasCallsApart (s : Source) : Prop :=
  ∀ v ∈ s.table.roleValues, ∀ w ∈ s.table.roleValues,
    (v.origin.startByte = w.origin.startByte ↔ v.origin.id = w.origin.id)

namespace HasCallsApart

/-- The bindings of groups are sorted by the calls that construct them. -/
theorem pairwise_groupBindings (hs : s.HasCallsApart) : (groupBindings s).Pairwise IsLined := by
  have hmem : ∀ v ∈ groupBindings s, v ∈ s.table.roleValues := fun v => mem_groupBindings
  rw [groupBindings] at hmem ⊢
  rw [List.pairwise_map]
  refine (isSortable_namingKey.pairwise_mergeSort _).imp_of_mem fun {a b} ha hb hab => ?_
  have hkey : ∀ {a}, a ∈ ((s.table.roleValues.filter fun v => v.role.any (·.isRouteGroup)).map
      fun v => (NamingKey.of s.tree v, v)).mergeSort
        (fun a b => NamingKey.compare a.1 b.1 != .gt) → a.1 = NamingKey.of s.tree a.2 :=
    fun ha => by
      obtain ⟨v, -, rfl⟩ := List.mem_map.mp (List.mem_mergeSort.mp ha)
      rfl
  have hle := constructedAt_le hab
  rw [hkey ha, hkey hb] at hle
  exact ⟨hle, hs _ (hmem _ (List.mem_map_of_mem ha)) _
    (hmem _ (List.mem_map_of_mem hb))⟩

theorem pairwise_constructedGroups (hs : s.HasCallsApart) :
    (constructedGroups s).Pairwise fun g k => g.origin ≠ k.origin ∧ g.group.key ≠ k.group.key := by
  rw [constructedGroups, List.pairwise_filterMap]
  -- a key has the place of the call, and the calls stand one behind the other
  refine (pairwise_dropRepeats hs.pairwise_groupBindings).imp fun {v w} hvw g hg k hk => ?_
  obtain ⟨hgo, hgk⟩ := eq_of_ofBinding? hg
  obtain ⟨hko, hkk⟩ := eq_of_ofBinding? hk
  refine ⟨hgo ▸ hko ▸ hvw.2, fun hkey => Nat.ne_of_lt hvw.1 ?_⟩
  rw [← hgk, ← hkk, hkey]

/-- No two groups are constructed by one node. -/
theorem nodup_origins (hs : s.HasCallsApart) : ((constructedGroups s).map (·.origin)).Nodup :=
  List.pairwise_map.mpr (hs.pairwise_constructedGroups.imp fun h => h.1)

/-- No two groups have one key. -/
theorem nodup_keys (hs : s.HasCallsApart) : ((constructedGroups s).map (·.group.key)).Nodup :=
  List.pairwise_map.mpr (hs.pairwise_constructedGroups.imp fun h => h.2)

end HasCallsApart

namespace IsWellPlaced

theorem isOfCall (hs : s.IsWellPlaced) (hv : v ∈ s.table.roleValues) :
    v.IsOfCall s.tree s.catalog :=
  hs.tree.toHasPlainCalls.isOfCall (hs.table_eq ▸ hv)

/-- A value with a role has a callee, which is that of the call it comes from. -/
theorem exists_callee (hs : s.IsWellPlaced) (hv : v ∈ s.table.roleValues) :
    ∃ path, v.callee = some path ∧ s.table.callee? v.origin = some path := by
  obtain ⟨e, he, hbound, hrole⟩ := Binding.exists_has_of_mem_roleValues hv
  rw [Binding.role_of_has (hs.table_eq ▸ he) hbound] at hrole
  have hcallee := (hs.isOfCall hv).callee_eq
  rw [← hs.table_eq] at hcallee
  cases hpath : v.callee with
  | none => simp [hpath] at hrole
  | some path => exact ⟨path, rfl, hcallee.symm.trans hpath⟩

/-- Calls that start at one place and construct groups are one call. -/
theorem startByte_eq_iff (hs : s.IsWellPlaced) (hv : v ∈ s.table.roleValues)
    (hw : w ∈ s.table.roleValues) :
    v.origin.startByte = w.origin.startByte ↔ v.origin.id = w.origin.id := by
  have hv' := hs.isOfCall hv
  have hw' := hs.isOfCall hw
  constructor
  · intro hstart
    obtain ⟨_, -, hvc⟩ := hs.exists_callee hv
    obtain ⟨_, -, hwc⟩ := hs.exists_callee hw
    exact hs.tree.callsApart _ hv'.mem_nodes (Binding.isNamedCall_of_callee? hv'.isCall hvc) _
      hw'.mem_nodes (Binding.isNamedCall_of_callee? hw'.isCall hwc) hstart
  · intro hid
    rw [hs.tree.toHasPlainCalls.numbered.eq_of_id_eq hv'.mem_nodes hw'.mem_nodes hid]

theorem hasCallsApart (hs : s.IsWellPlaced) : s.HasCallsApart :=
  fun _ hv _ hw => hs.startByte_eq_iff hv hw

end IsWellPlaced

/-- Bindings of groups of the smaller catalog are those of the larger one whose callees the smaller
one knows. -/
theorem Extends.groupBindings_eq_filter (h : s.Extends s') :
    groupBindings s = (groupBindings s').filter (knowsValue s.catalog) := by
  have hcomm : ∀ l : List Value,
      (l.filter (knowsValue s.catalog)).filter (fun v => v.role.any (·.isRouteGroup))
        = (l.filter fun v => v.role.any (·.isRouteGroup)).filter (knowsValue s.catalog) :=
    fun l => by simp only [List.filter_filter, Bool.and_comm]
  rw [groupBindings, groupBindings, h.tree_eq, h.table.roleValues_eq_filter h.catalog, hcomm,
    List.filter_map, isSortable_namingKey.filter_mergeSort, List.filter_map]
  rfl

/-- Whether the smaller catalog knows the callee of a value depends on the call alone. -/
theorem IsWellPlaced.knowsValue_eq (hs : s.IsWellPlaced) (c : Catalog)
    (hv : v ∈ s.table.roleValues) (hX : X ∈ s.tree.nodes) (hid : v.origin.id = X.id) :
    v.origin = X ∧ knowsValue c v = (s.table.callee? X).any (knows c) := by
  obtain ⟨path, hpath, hcallee⟩ := hs.exists_callee hv
  have horigin : v.origin = X :=
    hs.tree.toHasPlainCalls.numbered.eq_of_id_eq (hs.isOfCall hv).mem_nodes hX hid
  exact ⟨horigin, by rw [knowsValue, hpath, ← horigin, hcallee]⟩

theorem Extends.dropRepeats_groupBindings (h : s.Extends s') (hs' : s'.IsWellPlaced) :
    dropRepeats (groupBindings s)
      = (dropRepeats (groupBindings s')).filter (knowsValue s.catalog) := by
  rw [h.groupBindings_eq_filter]
  refine (filter_dropRepeats hs'.hasCallsApart.pairwise_groupBindings fun v hv w hw hid => ?_).symm
  have hw' := (hs'.isOfCall (mem_groupBindings hw)).mem_nodes
  rw [(hs'.knowsValue_eq s.catalog (mem_groupBindings hv) hw' hid).2,
    (hs'.knowsValue_eq s.catalog (mem_groupBindings hw) hw' rfl).2]

/-! ### Groups -/

namespace Extends

theorem constructedGroups_sublist (h : s.Extends s') (hs' : s'.IsWellPlaced) :
    (constructedGroups s).Sublist (constructedGroups s') := by
  rw [constructedGroups, constructedGroups, h.dropRepeats_groupBindings hs', h.path_eq]
  exact List.filter_sublist.filterMap _

/-- A group of the larger catalog is one of the smaller catalog when that one knows what its call
calls. -/
theorem mem_constructedGroups_iff (h : s.Extends s') (hs' : s'.IsWellPlaced)
    (hX : X ∈ s'.tree.nodes) (hg : g.origin = X.id) : g ∈ constructedGroups s ↔
      g ∈ constructedGroups s' ∧ (s'.table.callee? X).any (knows s.catalog) := by
  rw [constructedGroups, constructedGroups, h.dropRepeats_groupBindings hs', h.path_eq]
  simp only [List.mem_filterMap, List.mem_filter]
  have hknows : ∀ v ∈ dropRepeats (groupBindings s'), ofBinding? s'.path v = some g →
      knowsValue s.catalog v = (s'.table.callee? X).any (knows s.catalog) := fun v hv hgv =>
    (hs'.knowsValue_eq s.catalog (mem_groupBindings ((sublist_dropRepeats _).subset hv)) hX
      ((eq_of_ofBinding? hgv).1.symm.trans hg)).2
  constructor
  · rintro ⟨v, ⟨hv, hk⟩, hgv⟩
    exact ⟨⟨v, hv, hgv⟩, hknows v hv hgv ▸ hk⟩
  · rintro ⟨⟨v, hv, hgv⟩, hk⟩
    exact ⟨v, ⟨hv, (hknows v hv hgv).symm ▸ hk⟩, hgv⟩

theorem callee?_eq (h : s.Extends s') (X : Node) : s.table.callee? X = s'.table.callee? X := by
  simp only [Table.callee?, h.table.qualifyAt_eq, h.table.scopeOf_eq]

/-- A call that the smaller catalog knows constructs a group of one key. -/
theorem keyOf?_eq (h : s.Extends s') (hs : s.IsWellPlaced) (hs' : s'.IsWellPlaced)
    (hX : X ∈ s'.tree.nodes) (hknows : (s'.table.callee? X).any (knows s.catalog)) :
    keyOf? (constructedGroups s) X = keyOf? (constructedGroups s') X := by
  refine Option.ext fun key => ?_
  rw [keyOf?_eq_some_iff hs.hasCallsApart.nodup_origins,
    keyOf?_eq_some_iff hs'.hasCallsApart.nodup_origins]
  refine exists_congr fun g => ?_
  constructor
  · rintro ⟨hg, horigin, hkey⟩
    exact ⟨((h.mem_constructedGroups_iff hs' hX horigin).mp hg).1, horigin, hkey⟩
  · rintro ⟨hg, horigin, hkey⟩
    exact ⟨(h.mem_constructedGroups_iff hs' hX horigin).mpr ⟨hg, hknows⟩, horigin, hkey⟩

/-! ### Objects -/

/-- The constructor of an object is what its call calls. -/
theorem callee?_of_resolve? {i : Binding.Instance} (hs : s.IsWellPlaced)
    (hobject : object ∈ s.tree.nodes) (hi : s.resolve? object = some i) (hX : i.origin = some X) :
    X ∈ s.tree.nodes ∧ s.table.callee? X = some i.constructor := by
  rw [resolve?, hs.table_eq] at hi
  obtain ⟨hmem, -, hcallee⟩ := hs.tree.toHasPlainCalls.callee?_of_resolve? hobject hi hX
  exact ⟨hmem, hs.table_eq ▸ hcallee⟩

/-- **A group object** of the smaller catalog is one of the larger catalog. -/
theorem groupOf?_of_some (h : s.Extends s') (hs : s.IsWellPlaced) (hs' : s'.IsWellPlaced)
    (hobject : object ∈ s.tree.nodes) {found : Framework × Option GroupKey}
    (hfound : groupOf? s (constructedGroups s) object = some found) :
    groupOf? s' (constructedGroups s') object = some found := by
  simp only [groupOf?, Option.bind_eq_bind, Option.bind_eq_some_iff] at hfound ⊢
  obtain ⟨i, hi, hfound⟩ := hfound
  obtain ⟨hi', hknows⟩ := h.resolve?_of_some hi
  refine ⟨i, hi', ?_⟩
  split at hfound
  · rw [← hfound]
    cases hX : i.origin with
    | none => rfl
    | some X =>
      obtain ⟨hmem, hcallee⟩ := callee?_of_resolve? hs hobject hi hX
      rw [Option.bind_some, Option.bind_some, h.keyOf?_eq hs hs' (h.tree_eq ▸ hmem)
        (by simpa [← h.callee?_eq, hcallee] using hknows)]
  · cases hfound

/-- **A group object** of the larger catalog is one of the smaller catalog when its group is. -/
theorem groupOf?_of_known (h : s.Extends s') (hs : s.IsWellPlaced) (hs' : s'.IsWellPlaced)
    (hobject : object ∈ s'.tree.nodes) {found : Framework × Option GroupKey}
    (hfound : groupOf? s' (constructedGroups s') object = some found)
    (hknown : ∃ g ∈ constructedGroups s, found.2 = some g.group.key) :
    groupOf? s (constructedGroups s) object = some found := by
  simp only [groupOf?, Option.bind_eq_bind, Option.bind_eq_some_iff] at hfound ⊢
  obtain ⟨i, hi, hfound⟩ := hfound
  obtain ⟨g, hg, hkey⟩ := hknown
  split at hfound
  · next hrole =>
    obtain rfl := Option.some.inj hfound
    obtain ⟨X, hX, hkeyOf⟩ := Option.bind_eq_some_iff.mp hkey
    obtain ⟨hmem, hcallee⟩ := callee?_of_resolve? hs' hobject hi hX
    obtain ⟨g', hg', horigin, hkey'⟩ :=
      (keyOf?_eq_some_iff hs'.hasCallsApart.nodup_origins).mp hkeyOf
    -- two groups of one key are one group
    obtain rfl : g' = g := List.inj_on_of_nodup_map hs'.hasCallsApart.nodup_keys hg'
      ((h.constructedGroups_sublist hs').subset hg) hkey'
    have hknows := ((h.mem_constructedGroups_iff hs' hmem horigin).mp hg).2
    refine ⟨i, h.resolve?_of_knows hi (by simpa [hcallee] using hknows), ?_⟩
    rw [hrole, hX, Option.bind_some, Option.bind_some, h.keyOf?_eq hs hs' hmem hknows]
    rfl
  · cases hfound

/-- **Groups** are found again, in their order, if the routes that are registered on them are the
same. -/
theorem groups_sublist (h : s.Extends s') (hs : s.IsWellPlaced) (hs' : s'.IsWellPlaced)
    {routes routes' : List Route}
    (hroutes : ∀ g ∈ constructedGroups s,
      routes.filter (fun r => r.group = some g.group.key)
        = routes'.filter fun r => r.group = some g.group.key) :
    (withMembers routes ((constructedGroups s).map (·.group))).Sublist
      (withMembers routes' ((constructedGroups s').map (·.group))) := by
  have hkeys : ∀ {s : Source}, s.IsWellPlaced →
      (((constructedGroups s).map (·.group)).map (·.key)).Nodup := fun hs => by
    rw [List.map_map]
    exact hs.hasCallsApart.nodup_keys
  have hsame : ((constructedGroups s).map (·.group)).map (withOwn routes)
      = ((constructedGroups s).map (·.group)).map (withOwn routes') := by
    rw [List.map_map, List.map_map]
    refine List.map_congr_left fun g hg => ?_
    simp only [Function.comp_apply, withOwn, hroutes g hg]
  rw [withMembers_eq_map _ (hkeys hs), withMembers_eq_map _ (hkeys hs'), hsame]
  exact ((h.constructedGroups_sublist hs').map _).map _

end Extends

end Source

end ApiSurface
