import ApiSurface.Proofs.Extension.Decorators
import ApiSurface.Proofs.Extension.Groups

/-!
# Routes with a larger catalog

A site registers a route when its object is a route group. With a larger catalog more objects are,
and the sites of the groups that the smaller catalog knows stay as they are. So all routes are
found again, and no further ones are registered on those groups (`Source.Extends.routes_retained`);
that is why the groups have the same routes.
-/

namespace ApiSurface

open ApiSurface.Syntax (Node)
open ApiSurface.Expr (stripParens stripKind_mem_descendants)

/-- The second list has the elements of the first one in their order, and no further elements of
some kind. -/
structure Retains {α : Type} (p : α → Bool) (l l' : List α) : Prop where
  sublist : l.Sublist l'
  filter_eq : l.filter p = l'.filter p

namespace Retains

variable {α β : Type} {p : β → Bool}

theorem flatMap {f g : α → List β} (l : List α) (h : ∀ a ∈ l, Retains p (f a) (g a)) :
    Retains p (l.flatMap f) (l.flatMap g) where
  sublist := List.Sublist.flatMap_right l fun a ha => (h a ha).sublist
  filter_eq := by
    rw [List.filter_flatMap, List.filter_flatMap]
    exact List.flatMap_congr fun a ha => (h a ha).filter_eq

theorem toList {o o' : Option β} (h : ∀ b, o = some b → o' = some b)
    (h' : ∀ b, o' = some b → p b → o = some b) : Retains p o.toList o'.toList := by
  cases o with
  | some b =>
    rw [h b rfl]
    exact ⟨.refl _, rfl⟩
  | none =>
    cases o' with
    | none => exact ⟨.refl _, rfl⟩
    | some b =>
      have hno : p b = false := Bool.eq_false_iff.mpr fun hp => nomatch h' b rfl hp
      exact ⟨List.nil_sublist _, by simp [hno]⟩

theorem filterMap {f g : α → Option β} (l : List α)
    (hfg : ∀ a ∈ l, ∀ b, f a = some b → g a = some b)
    (hgf : ∀ a ∈ l, ∀ b, g a = some b → p b → f a = some b) :
    Retains p (l.filterMap f) (l.filterMap g) := by
  rw [List.filterMap_eq_flatMap_toList, List.filterMap_eq_flatMap_toList]
  exact flatMap l fun a ha => toList (hfg a ha) (hgf a ha)

theorem map {l l' : List α} {f : α → β} (h : Retains (p ∘ f) l l') :
    Retains p (l.map f) (l'.map f) where
  sublist := h.sublist.map f
  filter_eq := by rw [List.filter_map, List.filter_map, h.filter_eq]

end Retains

namespace Routing

/-- Whether the key is that of one of the groups. -/
def isKeyOf (groups : List Constructed) (key : Option GroupKey) : Bool :=
  groups.any fun g => key = some g.group.key

theorem exists_of_isKeyOf {groups : List Constructed} {key : Option GroupKey}
    (h : isKeyOf groups key) : ∃ g ∈ groups, key = some g.group.key := by
  obtain ⟨g, hg, hkey⟩ := List.any_eq_true.mp h
  exact ⟨g, hg, of_decide_eq_true hkey⟩

theorem calledMember?_mem_descendants {call object : Node} {name : String}
    (h : calledMember? call = some (object, name)) : object ∈ call.descendants := by
  simp only [calledMember?, Option.bind_eq_bind, Option.bind_eq_some_iff] at h
  obtain ⟨member, hmember, h⟩ := h
  obtain ⟨function, hfunction, rfl⟩ := Option.map_eq_some_iff.mp hmember
  split at h
  · simp only [Option.bind_eq_some_iff] at h
    obtain ⟨_, -, o, ho, h⟩ := h
    cases h
    exact Node.mem_descendants_trans (Node.childByField?_mem_descendants hfunction)
      (Node.mem_descendants_trans (stripKind_mem_descendants _ function)
        (Node.childByField?_mem_descendants ho))
  · cases h

end Routing

namespace Source.Extends

open Routing

variable {s s' : Source} {groups groups' : List Constructed} {call decorated function d : Node}
  {site : Site}

/-! ### Sites -/

/-- Where the object of a call belongs to a group with the one catalog as with the other, the call is
the same site. -/
theorem callSite?_of_groupOf? (hhandler : handlerDefinition? s = handlerDefinition? s')
    (hgroup : ∀ object ∈ call.descendants, ∀ framework,
      groupOf? s groups object = some (framework, site.group) →
        groupOf? s' groups' object = some (framework, site.group))
    (hsite : callSite? s groups call = some site) : callSite? s' groups' call = some site := by
  simp only [callSite?, Option.bind_eq_bind, Option.bind_eq_some_iff] at hsite ⊢
  obtain ⟨⟨object, member⟩, hmember, layout, hlayout, ⟨framework, group⟩, hfound, hsite⟩ := hsite
  have hsame : site.group = group := by
    obtain rfl := Option.some.inj hsite
    rfl
  rw [← hhandler]
  exact ⟨_, hmember, layout, hlayout, _, hsame ▸ hgroup object
    (calledMember?_mem_descendants hmember) framework (hsame.symm ▸ hfound), hsite⟩

/-- Where the object of a decorator belongs to a group with the one catalog as with the other, the
decorator is the same site. -/
theorem decoratorSite?_of_groupOf?
    (hgroup : ∀ object ∈ d.descendants, ∀ framework,
      groupOf? s groups object = some (framework, site.group) →
        groupOf? s' groups' object = some (framework, site.group))
    (hsite : decoratorSite? s groups decorated function d = some site) :
    decoratorSite? s' groups' decorated function d = some site := by
  simp only [decoratorSite?, Option.bind_eq_bind, Option.bind_eq_some_iff] at hsite ⊢
  obtain ⟨call, hcall, hsite⟩ := hsite
  refine ⟨call, hcall, ?_⟩
  split at hsite
  · next hk =>
    rw [if_pos hk]
    simp only [Option.bind_eq_some_iff] at hsite ⊢
    obtain ⟨⟨object, name⟩, hmember, ⟨framework, group⟩, hfound, method, hmethod, hsite⟩ := hsite
    have hsame : site.group = group := by
      obtain rfl := Option.some.inj hsite
      rfl
    have hobject := Binding.receiver?_mem_descendants (receiver?_of_calledMember? hcall hk hmember)
    exact ⟨_, hmember, _, hsame ▸ hgroup object hobject framework (hsame.symm ▸ hfound), method,
      hmethod, hsite⟩
  · cases hsite

section

variable (h : s.Extends s') (hs : s.IsWellPlaced) (hs' : s'.IsWellPlaced)

include h hs hs'

theorem callSite?_of_some (hcall : call ∈ s.tree.nodes)
    (hsite : callSite? s (constructedGroups s) call = some site) :
    callSite? s' (constructedGroups s') call = some site :=
  callSite?_of_groupOf? (funext h.handlerDefinition?_eq) (fun _ hobject _ =>
    h.groupOf?_of_some hs hs' (Node.mem_descendants_trans hcall hobject)) hsite

theorem callSite?_of_known (hcall : call ∈ s'.tree.nodes)
    (hsite : callSite? s' (constructedGroups s') call = some site)
    (hknown : isKeyOf (constructedGroups s) site.group) :
    callSite? s (constructedGroups s) call = some site :=
  callSite?_of_groupOf? (funext h.handlerDefinition?_eq).symm (fun _ hobject _ hfound =>
    h.groupOf?_of_known hs hs' (Node.mem_descendants_trans hcall hobject) hfound
      (exists_of_isKeyOf hknown)) hsite

theorem decoratorSite?_of_some (hd : d ∈ s.tree.nodes)
    (hsite : decoratorSite? s (constructedGroups s) decorated function d = some site) :
    decoratorSite? s' (constructedGroups s') decorated function d = some site :=
  decoratorSite?_of_groupOf? (fun _ hobject _ =>
    h.groupOf?_of_some hs hs' (Node.mem_descendants_trans hd hobject)) hsite

theorem decoratorSite?_of_known (hd : d ∈ s'.tree.nodes)
    (hsite : decoratorSite? s' (constructedGroups s') decorated function d = some site)
    (hknown : isKeyOf (constructedGroups s) site.group) :
    decoratorSite? s (constructedGroups s) decorated function d = some site :=
  decoratorSite?_of_groupOf? (fun _ hobject _ hfound =>
    h.groupOf?_of_known hs hs' (Node.mem_descendants_trans hd hobject) hfound
      (exists_of_isKeyOf hknown)) hsite

/-! ### Routes -/

/-- A node registers its routes with both catalogs, and no further ones on the groups of the smaller
one. -/
theorem routesAt_retained {n : Node} (hn : n ∈ s.tree.nodes) :
    Retains (fun r => isKeyOf (constructedGroups s) r.group)
      (routesAt s (constructedGroups s) n) (routesAt s' (constructedGroups s') n) := by
  have hn' : n ∈ s'.tree.nodes := h.tree_eq ▸ hn
  have hroute : routeAt s' = routeAt s := funext fun site => (h.routeAt_eq site).symm
  rw [routesAt, routesAt, hroute]
  split
  · next hk =>
    -- the decorators that are kept differ, but both catalogs may read all of them
    rw [hs.decoratorSites_eq hn hk, hs'.decoratorSites_eq hn' hk]
    refine Retains.map (Retains.flatMap _ fun function _ => Retains.filterMap _ ?_ ?_)
    · intro d hd site hsite
      have hmem := Node.child_mem_descendants (List.mem_filter.mp hd).1
      exact h.decoratorSite?_of_some hs hs' (Node.mem_descendants_trans hn hmem) hsite
    · intro d hd site hsite hknown
      have hmem := Node.child_mem_descendants (List.mem_filter.mp hd).1
      exact h.decoratorSite?_of_known hs hs' (Node.mem_descendants_trans hn' hmem) hsite hknown
  · split
    · exact Retains.map (Retains.toList (fun _ => h.callSite?_of_some hs hs' hn)
        fun _ => h.callSite?_of_known hs hs' hn')
    · exact ⟨.refl _, rfl⟩

/-- **Routes** are found again, and no further ones on the groups of the smaller catalog. -/
theorem routes_retained : Retains (fun r => isKeyOf (constructedGroups s) r.group)
    (listing s).routes (listing s').routes := by
  simp only [listing, ← h.tree_eq]
  exact Retains.flatMap _ fun n hn => h.routesAt_retained hs hs' hn

/-- **Groups** are found again, in their order and with the same routes. -/
theorem listing_groups_sublist : (listing s).groups.Sublist (listing s').groups := by
  have hroutes := h.routes_retained hs hs'
  refine h.groups_sublist hs hs' fun g hg => ?_
  have hfilter : ∀ l : List Route, l.filter (fun r => r.group = some g.group.key)
      = (l.filter fun r => isKeyOf (constructedGroups s) r.group).filter
        fun r => r.group = some g.group.key := fun l => by
    rw [List.filter_filter]
    refine List.filter_congr fun r _ => ?_
    by_cases hr : r.group = some g.group.key
    · have hkey : isKeyOf (constructedGroups s) r.group :=
        List.any_eq_true.mpr ⟨g, hg, decide_eq_true hr⟩
      simp [hr, hr ▸ hkey]
    · simp [hr]
  exact (hfilter _).trans ((congrArg _ hroutes.filter_eq).trans (hfilter _).symm)

end

end Source.Extends

end ApiSurface
