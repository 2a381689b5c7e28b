import ApiSurface.Extract

/-!
# Facts name their file

What is extracted from a file names the path of that file (`Source.isOwn_facts`), so the facts of a
unit with one file name come from the files of that name.
-/

namespace ApiSurface

/-- Every fact of the file names the file. -/
structure FileFacts.IsOwn (f : FileFacts) : Prop where
  httpCalls : ∀ c ∈ f.httpCalls, c.file = f.path
  routes : ∀ r ∈ f.routes, r.file = f.path
  groups : ∀ g ∈ f.groups, g.key.file = f.path
  includes : ∀ i ∈ f.includes, i.file = f.path
  tools : ∀ t ∈ f.tools, t.file = f.path

variable {s : Source} {n : Syntax.Node}

theorem Http.file_of_mem_calls {c : HttpCall} (h : c ∈ Http.calls s) : c.file = s.path := by
  obtain ⟨call, target, rfl⟩ := exists_factOf_of_mem_calls h
  rw [factOf]

namespace Routing

variable {groups : List Constructed}

theorem file_of_mem_routesAt {r : Route} (h : r ∈ routesAt s groups n) : r.file = s.path := by
  have hsite : ∃ site, routeAt s site = r := by
    rw [routesAt] at h
    split at h
    · obtain ⟨site, -, rfl⟩ := List.mem_map.mp h
      exact ⟨site, rfl⟩
    · split at h
      · obtain ⟨site, -, rfl⟩ := List.mem_map.mp h
        exact ⟨site, rfl⟩
      · cases h
  obtain ⟨site, rfl⟩ := hsite
  rw [routeAt]

theorem file_of_mem_includesAt {i : GroupInclude} (h : i ∈ includesAt s groups n) :
    i.file = s.path := by
  rw [includesAt] at h
  split at h
  · have hi := Option.mem_toList.mp h
    obtain ⟨_, -, hi⟩ := Option.bind_eq_some_iff.mp hi
    obtain ⟨_, -, hi⟩ := Option.bind_eq_some_iff.mp hi
    obtain ⟨_, -, hi⟩ := Option.bind_eq_some_iff.mp hi
    obtain ⟨_, -, hi⟩ := Option.bind_eq_some_iff.mp hi
    rw [← Option.some.inj hi]
  · cases h

/-- A group is listed under the key that it is constructed with. -/
theorem map_key_withMembers (routes : List Route) (l : List RouteGroup) :
    (withMembers routes l).map (·.key) = l.map (·.key) := by
  induction l with
  | nil => rfl
  | cons g r ih => rw [withMembers, List.map_cons, List.map_cons, ih]

theorem file_of_mem_constructedGroups {c : Constructed} (h : c ∈ constructedGroups s) :
    c.group.key.file = s.path := by
  obtain ⟨v, -, hv⟩ := List.mem_filterMap.mp h
  rw [ofBinding?] at hv
  split at hv
  · rw [← Option.some.inj hv]
  · cases hv

theorem file_of_mem_groups {g : RouteGroup} (h : g ∈ (listing s).groups) :
    g.key.file = s.path := by
  have hkey : g.key ∈ ((constructedGroups s).map (·.group)).map (·.key) :=
    map_key_withMembers _ _ ▸ List.mem_map_of_mem h
  obtain ⟨_, hg, hkey⟩ := List.mem_map.mp hkey
  obtain ⟨c, hc, rfl⟩ := List.mem_map.mp hg
  exact hkey ▸ file_of_mem_constructedGroups hc

end Routing

theorem Tool.file_of_mem_all {t : Tool} (h : t ∈ Tool.all s) : t.file = s.path := by
  obtain ⟨decorated, -, ht⟩ := List.mem_flatMap.mp h
  rw [ofDecorated] at ht
  split at ht
  case h_2 => cases ht
  case h_1 function _ =>
    split at ht
    case h_2 => cases ht
    case h_1 d _ =>
      obtain ⟨decorator, -, ht⟩ := List.mem_filterMap.mp ht
      obtain ⟨_, -, ht⟩ := Option.bind_eq_some_iff.mp ht
      obtain ⟨_, -, ht⟩ := Option.bind_eq_some_iff.mp ht
      obtain ⟨_, -, ht⟩ := Option.bind_eq_some_iff.mp ht
      split at ht
      case isFalse => cases ht
      case isTrue =>
        obtain ⟨_, -, ht⟩ := Option.bind_eq_some_iff.mp ht
        rw [← Option.some.inj ht]

/-- What is extracted from a file names the file. -/
theorem Source.isOwn_facts (s : Source) (module : Option String) : (s.facts module).IsOwn where
  httpCalls _ := Http.file_of_mem_calls
  routes _ h :=
    have ⟨_, _, hr⟩ := List.mem_flatMap.mp h
    Routing.file_of_mem_routesAt hr
  groups _ := Routing.file_of_mem_groups
  includes _ h :=
    have ⟨_, _, hi⟩ := List.mem_flatMap.mp h
    Routing.file_of_mem_includesAt hi
  tools _ := Tool.file_of_mem_all

end ApiSurface
