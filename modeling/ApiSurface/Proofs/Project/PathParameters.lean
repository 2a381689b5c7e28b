import ApiSurface.Proofs.Project.Conservation
import ApiSurface.Proofs.Project.EffectivePath
import ApiSurface.Proofs.Routing.JoinedPlaceholders
import ApiSurface.Proofs.Routing.Parameters
import ApiSurface.Proofs.Syntax.Layout

/-!
# Path parameters of a project

The parameters of a route are settled when its file is read, from the raw path alone. The path that
is reported is made later, and the prefixes of groups stand in front of the raw path then, which may
hold placeholders as well (`IsUnder`). Nothing goes back to the parameters. So a placeholder of a
prefix is accounted for only by chance, when the raw path has one of the same name or the handler
marks the parameter; `accounts_placeholders_iff` says that this is exact, and
`not_accounts_nested` is a handler that takes the placeholder of a prefix and is said to take it from
the query.
-/

namespace ApiSurface.Project

open ApiSurface.Routing

variable {files : List FileFacts} {route : Route} {fragments : List String}

/-! ### Fragments in front of a route -/

theorem lastIndex?_map {α β : Type} (f : α → β) (p : β → Bool) (l : List α) :
    lastIndex? p (l.map f) = lastIndex? (fun a => p (f a)) l := by
  induction l with
  | nil => rfl
  | cons a l ih => rw [List.map_cons, lastIndex?, lastIndex?, ih]

/-- Placing the groups does not change where a key is found. -/
theorem indexOf?_build (files : List FileFacts) (key : GroupKey) :
    indexOf? (GroupIndex.build files).groups key = indexOf? (sortedGroups files) key := by
  have hkeys : ∀ groups : List RouteGroup, indexOf? groups key
      = lastIndex? (fun k => k = key) (groups.map (·.key)) := fun groups =>
    (lastIndex?_map RouteGroup.key (fun k => k = key) groups).symm
  rw [hkeys, hkeys, map_key_groups_build]

/-- What the groups of a route put in front of its raw path: nothing without a known group, the
fragments of the lineage of the group, or the declared prefix of a group without one. -/
inductive IsUnder (files : List FileFacts) (route : Route) : List String → Prop where
  | free (h : route.group.bind (indexOf? (GroupIndex.build files).groups) = none) :
    IsUnder files route []
  | below {i root : Nat} {es : List Edge}
    (h : route.group.bind (indexOf? (GroupIndex.build files).groups) = some i)
    (hl : (GroupIndex.graph files).Lineage root es i) :
    IsUnder files route ((GroupIndex.graph files).fragments root es)
  | adrift {i : Nat} (h : route.group.bind (indexOf? (GroupIndex.build files).groups) = some i)
    (hg : ¬ (GroupIndex.graph files).Grounded i) :
    IsUnder files route ((GroupIndex.graph files).declared? i).toList

theorem exists_isUnder (files : List FileFacts) (route : Route) :
    ∃ fragments, IsUnder files route fragments := by
  cases h : route.group.bind (indexOf? (GroupIndex.build files).groups) with
  | none => exact ⟨_, .free h⟩
  | some i =>
    by_cases hg : (GroupIndex.graph files).Grounded i
    · obtain ⟨root, es, hl⟩ := hg
      exact ⟨_, .below h hl⟩
    · exact ⟨_, .adrift h hg⟩

/-- **The effective path** joins the fragments in front of the raw path with it. -/
theorem IsUnder.effectivePath? (h : IsUnder files route fragments) :
    (GroupIndex.build files).effectivePath? route
      = route.rawPath.map fun raw => joinPaths (fragments ++ [raw]) := by
  cases hraw : route.rawPath with
  | none => rw [GroupIndex.effectivePath?, hraw]; rfl
  | some raw =>
    cases h with
    | free h =>
      have hnone : (GroupIndex.build files).groupOf? route = none := by
        rw [GroupIndex.groupOf?]
        cases hkey : route.group with
        | none => rfl
        | some key =>
          rw [hkey, Option.bind_some] at h
          rw [Option.bind_some, GroupIndex.find?, h, Option.bind_none]
      rw [GroupIndex.effectivePath?, hraw, hnone]
      rfl
    | below h hl =>
      obtain ⟨key, hkey, hi⟩ := Option.bind_eq_some_iff.mp h
      exact GroupIndex.effectivePath?_of_lineage hraw hkey hi hl
    | adrift h hg =>
      obtain ⟨key, hkey, hi⟩ := Option.bind_eq_some_iff.mp h
      exact GroupIndex.effectivePath?_of_not_grounded hraw hkey hi hg

/-! ### Routes of a project -/

/-- The routes of a project are those of the sites of its files, each with its place. -/
theorem mem_routes_resolve_iff {units : List (Source × Option String)} {r : Route} :
    r ∈ (resolve (units.map fun u => u.1.facts u.2)).routes ↔ ∃ u ∈ units, ∃ site ∈ sites u.1,
      r = (GroupIndex.build (byPath (units.map fun u => u.1.facts u.2))).resolve
        (routeAt u.1 site) := by
  rw [(GroupIndex.routes_resolve_perm _).mem_iff]
  constructor
  · intro h
    obtain ⟨declared, hdeclared, rfl⟩ := List.mem_map.mp h
    obtain ⟨f, hf, hfacts⟩ := List.mem_flatMap.mp hdeclared
    obtain ⟨u, hu, rfl⟩ := List.mem_map.mp hf
    rw [routes_facts] at hfacts
    obtain ⟨site, hsite, rfl⟩ := List.mem_map.mp hfacts
    exact ⟨u, hu, site, hsite, rfl⟩
  · rintro ⟨u, hu, site, hsite, rfl⟩
    refine List.mem_map_of_mem (List.mem_flatMap.mpr ⟨_, List.mem_map_of_mem hu, ?_⟩)
    rw [routes_facts]
    exact List.mem_map_of_mem hsite

/-- **Path parameters are those of the raw path.** Each route of a project has the parameters of a
site of one of its files, and a placeholder is accounted for by them exactly when it is known at that
site. The effective path joins what the groups put in front with the raw path; where the fragments in
front close their angles, its placeholders are theirs and those of the raw path, so all of them are
accounted for exactly when those of the fragments are known at the site. -/
theorem accounts_placeholders_iff (units : List (Source × Option String)) {r : Route}
    (hr : r ∈ (resolve (units.map fun u => u.1.facts u.2)).routes) :
    let files := byPath (units.map fun u => u.1.facts u.2)
    ∃ u ∈ units, ∃ site ∈ sites u.1, r = (GroupIndex.build files).resolve (routeAt u.1 site) ∧
      (∀ p, Accounts u.1 site r.parameters p ↔ IsKnownAt u.1 site p) ∧
      (∃ fragments, IsUnder files (routeAt u.1 site) fragments) ∧
      ∀ fragments, IsUnder files (routeAt u.1 site) fragments →
        r.effectivePath = r.rawPath.map (fun raw => joinPaths (fragments ++ [raw])) ∧
        ((∀ f ∈ fragments, ClosesAngles f.toList) → ∀ path, r.effectivePath = some path →
          placeholders path = fragments.flatMap placeholders ++ site.placeholders ∧
          ((∀ p ∈ placeholders path, Accounts u.1 site r.parameters p) ↔
            ∀ p ∈ fragments.flatMap placeholders, IsKnownAt u.1 site p)) := by
  intro files
  obtain ⟨u, hu, site, hsite, rfl⟩ := mem_routes_resolve_iff.mp hr
  have haccounts : ∀ p, Accounts u.1 site
      ((GroupIndex.build files).resolve (routeAt u.1 site)).parameters p
        ↔ IsKnownAt u.1 site p := fun p => accounts_iff
  refine ⟨u, hu, site, hsite, rfl, haccounts, exists_isUnder files _, fun fragments hunder => ?_⟩
  have heffective : ((GroupIndex.build files).resolve (routeAt u.1 site)).effectivePath
      = site.rawPath?.map fun raw => joinPaths (fragments ++ [raw]) := hunder.effectivePath?
  refine ⟨heffective, fun hclosed path hpath => ?_⟩
  rw [heffective] at hpath
  obtain ⟨raw, hraw, rfl⟩ := Option.map_eq_some_iff.mp hpath
  have hsplit : placeholders (joinPaths (fragments ++ [raw]))
      = fragments.flatMap placeholders ++ site.placeholders := by
    rw [placeholders_joinPaths fragments raw hclosed, Site.placeholders, hraw]
  refine ⟨hsplit, ?_⟩
  rw [hsplit]
  refine ⟨fun h p hp => (haccounts p).mp (h p (List.mem_append_left _ hp)),
    fun h p hp => (haccounts p).mpr ?_⟩
  rcases List.mem_append.mp hp with hp | hp
  · exact h p hp
  · exact .inl ⟨p, hp, rfl⟩

section Nested

open ApiSurface.Syntax (Tree)
open ApiSurface.Syntax.ParseTree

/-- A router whose prefix holds a placeholder, and a handler that takes it together with the one of
its own path. -/
def nestedTree : Tree := Tree.lower
    ("from fastapi import APIRouter\nr = APIRouter(prefix=\"/users/\x7buser_id\x7d\")\n" ++
      "@r.get(\"/items/\x7bid\x7d\")\ndef item(user_id, id): pass") <|
  rule "module" none 0 120 [
    rule "import_from_statement" none 0 29 [
      token "from" 0 4,
      rule "dotted_name" "module_name" 5 12 [rule "identifier" none 5 12 []],
      token "import" 13 19,
      rule "dotted_name" "name" 20 29 [rule "identifier" none 20 29 []]],
    rule "expression_statement" none 30 70 [
      rule "assignment" none 30 70 [
        rule "identifier" "left" 30 31 [],
        token "=" 32 33,
        rule "call" "right" 34 70 [
          rule "identifier" "function" 34 43 [],
          rule "argument_list" "arguments" 43 70 [
            token "(" 43 44,
            rule "keyword_argument" none 44 69 [
              rule "identifier" "name" 44 50 [],
              token "=" 50 51,
              rule "string" "value" 51 69 [
                rule "string_start" none 51 52 [],
                rule "string_content" none 52 68 [],
                rule "string_end" none 68 69 []]],
            token ")" 69 70]]]],
    rule "decorated_definition" none 71 120 [
      rule "decorator" none 71 92 [
        token "@" 71 72,
        rule "call" none 72 92 [
          rule "attribute" "function" 72 77 [
            rule "identifier" "object" 72 73 [],
            token "." 73 74,
            rule "identifier" "attribute" 74 77 []],
          rule "argument_list" "arguments" 77 92 [
            token "(" 77 78,
            rule "string" none 78 91 [
              rule "string_start" none 78 79 [],
              rule "string_content" none 79 90 [],
              rule "string_end" none 90 91 []],
            token ")" 91 92]]],
      rule "function_definition" "definition" 93 120 [
        token "def" 93 96,
        rule "identifier" "name" 97 101 [],
        rule "parameters" "parameters" 101 114 [
          token "(" 101 102,
          rule "identifier" none 102 109 [],
          token "," 109 110,
          rule "identifier" none 111 113 [],
          token ")" 113 114],
        token ":" 114 115,
        rule "block" "body" 116 120 [rule "pass_statement" none 116 120 [token "pass" 116 120]]]]]

/-- The program as a file. -/
def nested : Source := Source.read (fun _ => nestedTree) .builtin "app.py" ""

/-- The project that holds this file only. -/
def nestedUnit : List (Source × Option String) := [(nested, some "app")]

/-- The facts of this file. -/
def nestedFacts : FileFacts := nested.facts (some "app")

/-- The groups of the file, read off the only binding that names one. -/
def nestedGroups : List Constructed :=
  (nested.table.roleValues.filter fun v => v.role.any (·.isRouteGroup)).filterMap
    (ofBinding? nested.path)

theorem constructedGroups_nested : constructedGroups nested = nestedGroups := by
  have hlength : (nested.table.roleValues.filter fun v => v.role.any (·.isRouteGroup)).length
      = 1 := by decide +kernel
  obtain ⟨v, hv⟩ := List.length_eq_one_iff.mp hlength
  rw [constructedGroups, groupBindings, nestedGroups, hv, List.map_singleton,
    List.mergeSort_singleton, List.map_singleton, dropRepeats]

theorem groups_nested : ∃ g, nestedFacts.groups = [g] ∧ g.key = ⟨"app.py", "r", 34⟩ ∧
    g.declaredPrefix = some "/users/\x7buser_id\x7d" := by
  have hconstructed : nestedGroups.map (fun c => (c.group.key, c.group.declaredPrefix))
      = [(⟨"app.py", "r", 34⟩, some "/users/\x7buser_id\x7d")] := by decide +kernel
  obtain ⟨c, hc, hkey⟩ := List.map_eq_singleton_iff.mp hconstructed
  have hgroups : nestedFacts.groups
      = withMembers (listing nested).routes (nestedGroups.map (·.group)) := by
    rw [← constructedGroups_nested]
    rfl
  obtain ⟨hkey, hprefix⟩ := Prod.ext_iff.mp hkey
  rw [hgroups, hc]
  exact ⟨_, rfl, hkey, hprefix⟩

/-- The handler marks no parameter, and the raw path names only one of the two. -/
theorem sites_nested : (sites nested).length = 1 ∧ ∀ site ∈ sites nested,
    site.rawPath? = some "/items/\x7bid\x7d" ∧ site.group = some ⟨"app.py", "r", 34⟩ ∧
      (∀ param ∈ site.signature, (markerOf? nested param).isNone) ∧
      (routeAt nested site).parameters.map (fun q => (q.name, q.source))
        = [("user_id", .query), ("id", .path)] := by
  rw [sites, constructedGroups_nested]
  decide +kernel

theorem not_isMarked_nested {site : Site} (hsite : site ∈ sites nested) (q : RouteParameter) :
    ¬ IsMarked nested site q := by
  rintro ⟨param, hparam, hmarked, -⟩
  have hnone := (sites_nested.2 site hsite).2.2.1 param hparam
  rw [Option.isNone_iff_eq_none.mp hnone] at hmarked
  cases hmarked

theorem isUnder_nested {site : Site} (hsite : site ∈ sites nested) :
    IsUnder (byPath [nestedFacts]) (routeAt nested site) ["/users/\x7buser_id\x7d"] := by
  obtain ⟨g, hg, hkey, hprefix⟩ := groups_nested
  have hfiles : byPath [nestedFacts] = [nestedFacts] := List.mergeSort_singleton _
  have hgroups : sortedGroups [nestedFacts] = [g] := by
    rw [sortedGroups, List.flatMap_singleton, hg, List.mergeSort_singleton]
  have hincludes : sortedIncludes [nestedFacts] = [] := by
    have hnone : nestedFacts.includes = [] := by decide +kernel
    rw [sortedIncludes, List.flatMap_singleton, hnone, List.mergeSort_nil]
  have hroot : (GroupIndex.graph [nestedFacts]).kept? 0 = none := by
    simp [Graph.kept?, GroupIndex.graph, hincludes]
  have hdeclared : (GroupIndex.graph [nestedFacts]).declared? 0
      = some "/users/\x7buser_id\x7d" := by
    simp [Graph.declared?, GroupIndex.graph, hgroups, hprefix]
  have hindex : (routeAt nested site).group.bind
      (indexOf? (GroupIndex.build [nestedFacts]).groups) = some 0 := by
    have hgroup : (routeAt nested site).group = some ⟨"app.py", "r", 34⟩ :=
      (sites_nested.2 site hsite).2.1
    rw [hgroup, Option.bind_some, indexOf?_build, hgroups]
    simp [indexOf?, lastIndex?, hkey]
  have hunder := IsUnder.below hindex (.root hroot)
  rw [Graph.fragments_nil, hdeclared] at hunder
  rw [hfiles]
  exact hunder

theorem exists_route_nested :
    ∃ r, r ∈ (resolve (nestedUnit.map fun u => u.1.facts u.2)).routes := by
  obtain ⟨site, hsite⟩ := List.length_eq_one_iff.mp sites_nested.1
  have hsite : site ∈ sites nested := hsite ▸ List.mem_singleton_self site
  have hmem : (nested, some "app") ∈ nestedUnit := List.mem_singleton_self _
  exact ⟨_, mem_routes_resolve_iff.mpr ⟨_, hmem, site, hsite, rfl⟩⟩

theorem joinPaths_nested :
    joinPaths (["/users/\x7buser_id\x7d"] ++ ["/items/\x7bid\x7d"])
      = "/users/\x7buser_id\x7d/items/\x7bid\x7d" := by decide

/-- The route of the file has a path with two placeholders. One of them is accounted for. -/
theorem accounts_placeholders_nested :
    ∃ r ∈ (resolve (nestedUnit.map fun u => u.1.facts u.2)).routes, ∃ site ∈ sites nested,
      r.effectivePath = some "/users/\x7buser_id\x7d/items/\x7bid\x7d" ∧
      (∀ p ∈ site.placeholders, Accounts nested site r.parameters p) ∧
      ¬ ∀ p ∈ placeholders "/users/\x7buser_id\x7d/items/\x7bid\x7d",
        Accounts nested site r.parameters p := by
  obtain ⟨r, hr⟩ := exists_route_nested
  obtain ⟨u, hu, site, hsite, heq, haccounts, -, hfragments⟩ :=
    accounts_placeholders_iff nestedUnit hr
  obtain rfl := List.mem_singleton.mp hu
  have hraw := (sites_nested.2 site hsite).1
  obtain ⟨heffective, hclosed⟩ := hfragments _ (isUnder_nested hsite)
  have hpath : r.effectivePath = some "/users/\x7buser_id\x7d/items/\x7bid\x7d" := by
    have hrawPath : r.rawPath = some "/items/\x7bid\x7d" := by
      rw [heq]
      exact hraw
    rw [heffective, hrawPath, Option.map_some, joinPaths_nested]
  obtain ⟨-, hiff⟩ := hclosed (by decide) _ hpath
  refine ⟨_, hr, site, hsite, hpath, fun p hp => (haccounts p).mpr (.inl ⟨p, hp, rfl⟩),
    fun hall => ?_⟩
  rcases hiff.mp hall ⟨"user_id", none⟩ (by decide) with ⟨p, hp, hname⟩ | ⟨⟨q, hq, hname⟩, hmarked⟩
  · have hnames : ∀ p ∈ placeholders "/items/\x7bid\x7d", p.name ≠ "user_id" := by decide
    rw [Site.placeholders, hraw] at hp
    exact hnames p hp hname
  · exact not_isMarked_nested hsite q (hmarked q hq hname)

/-- **The placeholder of a prefix is taken for a query parameter.** -/
theorem not_accounts_nested :
    ∃ r ∈ (resolve (nestedUnit.map fun u => u.1.facts u.2)).routes, ∃ path,
      r.effectivePath = some path ∧ ∃ p ∈ placeholders path, ∃ q ∈ r.parameters,
        q.name = p.name ∧ q.source = .query ∧ ∀ site ∈ sites nested, ¬ IsMarked nested site q := by
  obtain ⟨site, hsite⟩ := List.length_eq_one_iff.mp sites_nested.1
  have hsite : site ∈ sites nested := hsite ▸ List.mem_singleton_self site
  have hmem : (nested, some "app") ∈ nestedUnit := List.mem_singleton_self _
  obtain ⟨hraw, -, -, hparameters⟩ := sites_nested.2 site hsite
  refine ⟨_, mem_routes_resolve_iff.mpr ⟨_, hmem, site, hsite, rfl⟩,
    "/users/\x7buser_id\x7d/items/\x7bid\x7d", ?_, ⟨"user_id", none⟩, by decide, ?_⟩
  · have hrawPath : (routeAt nested site).rawPath = some "/items/\x7bid\x7d" := hraw
    refine (isUnder_nested hsite).effectivePath?.trans ?_
    rw [hrawPath, Option.map_some, joinPaths_nested]
  · have hquery : ("user_id", ParameterSource.query)
        ∈ (routeAt nested site).parameters.map fun q => (q.name, q.source) := by
      rw [hparameters]
      exact List.mem_cons_self
    obtain ⟨q, hq, heq⟩ := List.mem_map.mp hquery
    obtain ⟨hname, hsource⟩ := Prod.ext_iff.mp heq
    exact ⟨q, hq, hname, hsource, fun _ hsite => not_isMarked_nested hsite q⟩

end Nested

end ApiSurface.Project
