import Mathlib.Data.List.Basic
import ApiSurface.Extract

/-!
# Parameters of routes

The parameters of a route come from two places: the signature of the handler, and the placeholders of
the raw path that the signature does not name (`mem_parameters_routeAt_iff`). A parameter of the
signature has the source of its marker. Without a marker it comes from the path exactly when the raw
path names it, since the raw path is all that is known of the path when a file is read
(`source_eq_path_iff`). So a placeholder that is put in front of the raw path later is accounted for
only by a marker, or by a placeholder of the raw path with the same name (`accounts_iff`).
-/

namespace ApiSurface.Routing

open ApiSurface.Syntax (Node)
open ApiSurface.Expr (Arguments)

variable {s : Source} {site : Site} {framework : Framework} {path : List Placeholder}
  {ps : List RouteParameter} {param : Node} {q : RouteParameter}

/-! ### Sites -/

/-- The places where a node registers routes. -/
def sitesAt (s : Source) (groups : List Constructed) (n : Node) : List Site :=
  if n.kind = "decorated_definition" then decoratorSites s groups n
  else if n.kind = "call" then (callSite? s groups n).toList
  else []

/-- The places where a file registers routes, in source order. -/
def sites (s : Source) : List Site :=
  s.tree.nodes.flatMap (sitesAt s (constructedGroups s))

/-- A site is that of a decorator or of a call. -/
theorem exists_site?_of_mem_sitesAt {groups : List Constructed} {n : Node}
    (h : site ∈ sitesAt s groups n) :
    (∃ definition decorator, decoratorSite? s groups n definition decorator = some site) ∨
      callSite? s groups n = some site := by
  rw [sitesAt] at h
  split at h
  · rw [decoratorSites] at h
    split at h
    · next definition _ =>
      split at h
      · obtain ⟨decorator, -, hsite⟩ := List.mem_filterMap.mp h
        exact .inl ⟨definition, decorator, hsite⟩
      · cases h
    · cases h
  · split at h
    · exact .inr (Option.mem_toList.mp h)
    · cases h

theorem routesAt_eq_map_sitesAt (s : Source) (groups : List Constructed) (n : Node) :
    routesAt s groups n = (sitesAt s groups n).map (routeAt s) := by
  unfold routesAt sitesAt
  split
  · rfl
  · split <;> rfl

/-- Each site of a file gives one route. -/
theorem routes_facts (s : Source) (module : Option String) :
    (s.facts module).routes = (sites s).map (routeAt s) := by
  have hroutes : (s.facts module).routes
      = s.tree.nodes.flatMap (routesAt s (constructedGroups s)) := rfl
  rw [hroutes, sites, List.map_flatMap]
  exact List.flatMap_congr fun n _ => routesAt_eq_map_sitesAt s _ n

namespace Site

/-- The path that is written at the registration, if it can be read. -/
def rawPath? (site : Site) : Option String :=
  ((Arguments.ofCall site.call).get? 0 site.pathKeyword).bind Expr.stringLiteral?

/-- The placeholders of the path that is written at the registration. -/
def placeholders (site : Site) : List Placeholder :=
  match site.rawPath? with
  | some p => Routing.placeholders p
  | none => []

/-- The parameters in the signature of the handler. -/
def signature (site : Site) : List Node :=
  match site.handler.bind fun h => h.childByField? "parameters" with
  | some list => list.namedChildren
  | none => []

end Site

/-- What the signature of the handler says about the parameters of the route. -/
def fromSignature (s : Source) (site : Site) : List RouteParameter :=
  site.signature.filterMap (handlerParameter? s site.framework site.placeholders)

theorem handlerParameters_eq_fromSignature (s : Source) (site : Site) :
    (match site.handler with
      | some h => handlerParameters s site.framework site.placeholders h
      | none => []) = fromSignature s site := by
  unfold fromSignature Site.signature
  cases site.handler with
  | none => rfl
  | some h =>
    simp only [Option.bind_some, handlerParameters]
    cases h.childByField? "parameters" <;> rfl

theorem parameters_routeAt (s : Source) (site : Site) :
    (routeAt s site).parameters = addMissing (fromSignature s site) site.placeholders := by
  rw [← handlerParameters_eq_fromSignature]
  rfl

/-! ### Placeholders that the signature does not name -/

theorem addMissing_cons (ps : List RouteParameter) (p : Placeholder) (path : List Placeholder) :
    addMissing ps (p :: path)
      = if ∃ q ∈ ps, q.name = p.name then addMissing ps path
        else addMissing (ps ++ [pathParameter p]) path := by
  have hany : ps.any (fun q => q.name == p.name) ↔ ∃ q ∈ ps, q.name = p.name := by
    simp only [List.any_eq_true, beq_iff_eq]
  rw [addMissing, List.foldl_cons]
  by_cases h : ∃ q ∈ ps, q.name = p.name
  · rw [if_pos (hany.mpr h), if_pos h]
    rfl
  · rw [if_neg (mt hany.mp h), if_neg h]
    rfl

/-- The first placeholder of each name that no parameter has is added. -/
theorem mem_addMissing_iff :
    q ∈ addMissing ps path ↔ q ∈ ps ∨ ∃ p, path.find? (fun p' => p'.name == p.name) = some p ∧
      (∀ q' ∈ ps, q'.name ≠ p.name) ∧ q = pathParameter p := by
  induction path generalizing ps with
  | nil => simp [addMissing]
  | cons p path ih =>
    rw [addMissing_cons]
    split
    · next hp =>
      obtain ⟨q', hq', hname⟩ := hp
      rw [ih]
      refine or_congr_right (exists_congr fun p' => and_congr_left fun ⟨hnew, _⟩ => ?_)
      -- the name of `p` is taken, so `p` is not the placeholder that is added
      have hne : p.name ≠ p'.name := hname ▸ hnew q' hq'
      rw [List.find?_cons_of_neg (by simpa using hne)]
    · next hp =>
      have hp' : ∀ q' ∈ ps, q'.name ≠ p.name := fun q' hq' h => hp ⟨q', hq', h⟩
      rw [ih, List.mem_append, List.mem_singleton, or_assoc]
      refine or_congr_right ⟨?_, ?_⟩
      · rintro (rfl | ⟨p', hfind, hnew, rfl⟩)
        · exact ⟨p, List.find?_cons_of_pos (by simp), hp', rfl⟩
        · have hne : p.name ≠ p'.name :=
            hnew (pathParameter p) (List.mem_append_right _ (List.mem_singleton_self _))
          refine ⟨p', ?_, fun q' hq' => hnew q' (List.mem_append_left _ hq'), rfl⟩
          rwa [List.find?_cons_of_neg (by simpa using hne)]
      · rintro ⟨p', hfind, hnew, rfl⟩
        by_cases hname : p.name = p'.name
        · rw [List.find?_cons_of_pos (by simpa using hname)] at hfind
          exact .inl (Option.some.inj hfind ▸ rfl)
        · rw [List.find?_cons_of_neg (by simpa using hname)] at hfind
          refine .inr ⟨p', hfind, fun q' hq' => ?_, rfl⟩
          rcases List.mem_append.mp hq' with hq' | hq'
          · exact hnew q' hq'
          · exact List.mem_singleton.mp hq' ▸ hname

/-- **Where parameters come from.** -/
theorem mem_parameters_routeAt_iff :
    q ∈ (routeAt s site).parameters ↔ q ∈ fromSignature s site ∨
      ∃ p, site.placeholders.find? (fun p' => p'.name == p.name) = some p ∧
        (∀ q' ∈ fromSignature s site, q'.name ≠ p.name) ∧ q = pathParameter p := by
  rw [parameters_routeAt, mem_addMissing_iff]

/-- Each placeholder of the raw path is a parameter. -/
theorem exists_parameter_of_mem_placeholders {p : Placeholder} (hp : p ∈ site.placeholders) :
    ∃ q ∈ (routeAt s site).parameters, q.name = p.name := by
  by_cases hnamed : ∃ q ∈ fromSignature s site, q.name = p.name
  · obtain ⟨q, hq, hname⟩ := hnamed
    exact ⟨q, mem_parameters_routeAt_iff.mpr (.inl hq), hname⟩
  · obtain ⟨p', hfind⟩ : ∃ p', site.placeholders.find? (fun p' => p'.name == p.name) = some p' :=
      Option.isSome_iff_exists.mp (List.find?_isSome.mpr ⟨p, hp, beq_self_eq_true p.name⟩)
    have hname : p'.name = p.name := by simpa using List.find?_some hfind
    refine ⟨pathParameter p', mem_parameters_routeAt_iff.mpr (.inr ⟨p', hname ▸ hfind, ?_, rfl⟩),
      hname⟩
    exact fun q' hq' h => hnamed ⟨q', hq', h.trans hname⟩

/-- A converter gives a type. -/
theorem isUnknown_converterType (converter : String) :
    (converterType converter).descriptor.isUnknown = false := by
  unfold converterType
  split <;> rfl

/-- Only the angle form gives a type to a placeholder that the signature does not name. -/
theorem isUnknown_pathParameter (p : Placeholder) :
    (pathParameter p).type.descriptor.isUnknown ↔ p.converter = none := by
  rw [pathParameter]
  cases p.converter with
  | none => exact iff_of_true rfl rfl
  | some converter => simp [isUnknown_converterType]

/-! ### Parameters of the signature -/

/-- The marker of a parameter in the signature. -/
def markerOf? (s : Source) (param : Node) : Option Marker :=
  (Binding.parameterParts? param).bind fun parts =>
    marker? s (param.childByField? "value") parts.2

/-- The parameter is one of the signature that has a marker. -/
def IsMarked (s : Source) (site : Site) (q : RouteParameter) : Prop :=
  ∃ param ∈ site.signature, (markerOf? s param).isSome ∧
    handlerParameter? s site.framework site.placeholders param = some q

theorem source_of_handlerParameter? (h : handlerParameter? s framework path param = some q) :
    q.source = chooseSource (markerOf? s param) framework
      (path.find? fun p => p.name == q.name).isSome q.type.descriptor := by
  simp only [handlerParameter?, Option.bind_eq_bind, Option.bind_eq_some_iff] at h
  obtain ⟨parts, hparts, h⟩ := h
  split at h
  · cases h
  · cases h
    rw [markerOf?, hparts, Option.bind_some]

theorem chooseSource_none_eq_path_iff (inPath : Bool) (type : Descriptor) :
    chooseSource none framework inPath type = .path ↔ inPath := by
  unfold chooseSource
  cases inPath with
  | true => simp
  | false =>
    simp only [Bool.false_eq_true, if_false, iff_false]
    split <;> nofun

/-- **The path of one file decides.** A parameter without a marker comes from the path exactly when
the raw path names it. -/
theorem source_eq_path_iff (hq : q ∈ (routeAt s site).parameters) (hmarked : ¬ IsMarked s site q) :
    q.source = .path ↔ ∃ p ∈ site.placeholders, p.name = q.name := by
  rcases mem_parameters_routeAt_iff.mp hq with hq | ⟨p, hfind, -, rfl⟩
  · obtain ⟨param, hparam, h⟩ := List.mem_filterMap.mp hq
    have hnone : markerOf? s param = none :=
      Option.not_isSome_iff_eq_none.mp fun hsome => hmarked ⟨param, hparam, hsome, h⟩
    rw [source_of_handlerParameter? h, hnone, chooseSource_none_eq_path_iff, List.find?_isSome]
    simp only [beq_iff_eq]
  · exact iff_of_true rfl ⟨p, List.mem_of_find?_eq_some hfind, rfl⟩

/-! ### Placeholders that are accounted for -/

/-- The parameters with the name of a placeholder account for it: there is one, and each of them
comes from the path, unless the handler marks it. -/
structure Accounts (s : Source) (site : Site) (parameters : List RouteParameter)
    (p : Placeholder) : Prop where
  exists_parameter : ∃ q ∈ parameters, q.name = p.name
  source : ∀ q ∈ parameters, q.name = p.name → q.source = .path ∨ IsMarked s site q

/-- What the file itself says is enough: the raw path names the placeholder, or the handler marks
its parameters of the name. -/
def IsKnownAt (s : Source) (site : Site) (p : Placeholder) : Prop :=
  (∃ p' ∈ site.placeholders, p'.name = p.name) ∨
    (∃ q ∈ fromSignature s site, q.name = p.name) ∧
      ∀ q ∈ fromSignature s site, q.name = p.name → IsMarked s site q

/-- **The file decides.** A placeholder of any path is accounted for exactly when it is known at the
site. -/
theorem accounts_iff {p : Placeholder} :
    Accounts s site (routeAt s site).parameters p ↔ IsKnownAt s site p := by
  constructor
  · rintro ⟨⟨q, hq, hname⟩, hsource⟩
    refine or_iff_not_imp_left.mpr fun hraw => ⟨?_, fun q' hq' hname' => ?_⟩
    · rcases mem_parameters_routeAt_iff.mp hq with hq | ⟨p', hfind, -, rfl⟩
      · exact ⟨q, hq, hname⟩
      · exact absurd ⟨p', List.mem_of_find?_eq_some hfind, hname⟩ hraw
    · -- from the path it could come only if the raw path named it
      have hmem := mem_parameters_routeAt_iff.mpr (.inl hq')
      by_contra hmarked
      obtain ⟨p', hp', h⟩ := (source_eq_path_iff hmem hmarked).mp
        ((hsource q' hmem hname').resolve_right hmarked)
      exact hraw ⟨p', hp', h.trans hname'⟩
  · rintro (⟨p', hp', hname⟩ | ⟨⟨q, hq, hname⟩, hmarked⟩)
    · obtain ⟨q, hq, hq'⟩ := exists_parameter_of_mem_placeholders (s := s) hp'
      refine ⟨⟨q, hq, hq'.trans hname⟩, fun q hq hname' => or_iff_not_imp_right.mpr fun h => ?_⟩
      exact (source_eq_path_iff hq h).mpr ⟨p', hp', hname.trans hname'.symm⟩
    · refine ⟨⟨q, mem_parameters_routeAt_iff.mpr (.inl hq), hname⟩, fun q hq hname' => ?_⟩
      rcases mem_parameters_routeAt_iff.mp hq with hq | ⟨p', -, -, rfl⟩
      · exact .inr (hmarked q hq hname')
      · exact .inl rfl

end ApiSurface.Routing
