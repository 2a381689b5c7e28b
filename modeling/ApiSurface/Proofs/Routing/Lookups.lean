import ApiSurface.Proofs.Expr.Positions
import ApiSurface.Proofs.Routing.Parameters

/-!
# Arguments that facts are read from

URL and method of a request, path and handler of a route and target of an include are looked up
among the arguments of a call, by a keyword or else at a position. The argument at a position is the
one that the call is sure to pass there, unless it stands behind a `*` (`isCertain_iff`): then it is
taken nevertheless, and so is what the fact says.
-/

namespace ApiSurface

open ApiSurface.Syntax (Node)
open ApiSurface.Expr (Arguments stringLiteral?)
open ApiSurface.Expr.Arguments (IsBoundAt beforeSplat afterSplat)

/-- Where an argument is looked up: the call, and there the keyword or else the position. -/
structure Lookup where
  call : Node
  index : Nat
  keyword : String

namespace Lookup

variable {l : Lookup}

/-- The argument that has the keyword. -/
def named? (l : Lookup) : Option Node := (Arguments.ofCall l.call).keyword? l.keyword

/-- The argument that is taken. -/
def taken? (l : Lookup) : Option Node := (Arguments.ofCall l.call).get? l.index l.keyword

/-- The argument that is taken has the keyword, or else the call is sure to pass it at the
position. -/
def IsCertain (l : Lookup) : Prop := ∀ a, l.taken? = some a → l.named? = some a ∨
  IsBoundAt l.call l.index a

/-- The position falls on an argument behind a `*`. -/
def IsDoubtful (l : Lookup) : Prop :=
  (beforeSplat l.call).length ≤ l.index ∧
    l.index < (beforeSplat l.call).length + (afterSplat l.call).length

instance (l : Lookup) : Decidable l.IsDoubtful := inferInstanceAs (Decidable (_ ∧ _))

/-! ### Positions that are certain -/

/-- What is taken for a position is sure to be passed there, unless it stands behind a `*`. -/
theorem forall_position?_isBoundAt_iff :
    (∀ a, (Arguments.ofCall l.call).position? l.index = some a → IsBoundAt l.call l.index a) ↔
      ¬ l.IsDoubtful := by
  simp only [Arguments.position?, Arguments.positional_ofCall, Arguments.isBoundAt_iff, IsDoubtful]
  rcases Nat.lt_or_ge l.index (beforeSplat l.call).length with hlt | hge
  · -- in front of the `*` the two lists agree
    rw [List.getElem?_append_left hlt]
    exact iff_of_true (fun _ h => h) fun h => absurd hlt (Nat.not_lt.mpr h.1)
  · rw [List.getElem?_eq_none hge]
    constructor
    · rintro hnone ⟨-, hlt⟩
      rw [← List.length_append] at hlt
      exact Option.some_ne_none _ (hnone _ (List.getElem?_eq_getElem hlt)).symm
    · intro hlt a ha
      have := (List.getElem?_eq_some_iff.mp ha).1
      exact absurd ⟨hge, List.length_append ▸ this⟩ hlt

theorem taken?_of_named? {a : Node} (h : l.named? = some a) : l.taken? = some a := by
  rw [named?] at h
  rw [taken?, Arguments.get?, h]
  rfl

theorem taken?_of_named?_eq_none (h : l.named? = none) :
    l.taken? = (Arguments.ofCall l.call).position? l.index := by
  rw [named?] at h
  rw [taken?, Arguments.get?, h]
  rfl

/-- **Which lookups are certain.** -/
theorem isCertain_iff : l.IsCertain ↔ l.named?.isSome ∨ ¬ l.IsDoubtful := by
  cases hnamed : l.named? with
  | some a =>
    refine iff_of_true (fun b hb => .inl ?_) (.inl rfl)
    rw [hnamed, ← hb, taken?_of_named? hnamed]
  | none =>
    rw [← forall_position?_isBoundAt_iff]
    simp [IsCertain, hnamed, taken?_of_named?_eq_none hnamed]

/-- All lookups in a call are certain where nothing is passed by position behind a `*`. -/
theorem forall_isBoundAt_iff (call : Node) :
    (∀ i a, (Arguments.ofCall call).position? i = some a → IsBoundAt call i a) ↔
      afterSplat call = [] := by
  have hcall (i : Nat) := forall_position?_isBoundAt_iff (l := ⟨call, i, ""⟩)
  simp only [hcall, IsDoubtful]
  constructor
  · intro h
    -- the first argument behind the `*` would be taken for the next position
    have := h (beforeSplat call).length
    exact List.length_eq_zero_iff.mp (by omega)
  · intro h i
    rw [h, List.length_nil]
    omega

end Lookup

/-! ### What is looked up -/

namespace Http

/-- Where a call of a function of the name has its URL. -/
def urlLookup (call : Node) (methodName : String) : Lookup where
  call
  index := if Catalog.isGenericRequest methodName then 1 else 0
  keyword := "url"

/-- Where a call has its method, if the name of the function does not say it. -/
def methodLookup (call : Node) : Lookup := ⟨call, 0, "method"⟩

/-- What is known about the URL from its argument. -/
def urlOf (taken : Option Node) : UrlExpression := (taken.map urlExpression).getD (.unknown "")

/-- What is known about the method from the name of the function, or else from its argument. -/
def methodOf (methodName : String) (taken : Option Node) : Option HttpMethod :=
  if Catalog.isGenericRequest methodName then (taken.bind stringLiteral?).bind HttpMethod.ofName?
  else Catalog.methodForName? methodName

theorem methodAndUrl_ofCall (methodName : String) (call : Node) :
    methodAndUrl methodName (Arguments.ofCall call)
      = (methodOf methodName (methodLookup call).taken?, (urlLookup call methodName).taken?) := by
  unfold methodAndUrl methodOf urlLookup Lookup.taken?
  split <;> rfl

theorem factOf_url (s : Source) (call : Node) (target : Target) :
    (factOf s call target).url = urlOf (urlLookup call target.methodName).taken? := by
  simp only [factOf, methodAndUrl_ofCall, urlOf]
  split <;> next h => rw [h]; rfl

theorem factOf_method (s : Source) (call : Node) (target : Target) :
    (factOf s call target).method = methodOf target.methodName (methodLookup call).taken? := by
  simp only [factOf, methodAndUrl_ofCall]

/-- URL and method are those of the arguments that are looked up. -/
def IsLookedUp (s : Source) (c : HttpCall) : Prop := ∃ call target, c = factOf s call target ∧
  c.url = urlOf (urlLookup call target.methodName).taken? ∧
  c.method = methodOf target.methodName (methodLookup call).taken?

theorem isLookedUp_of_mem_calls {s : Source} {c : HttpCall} (h : c ∈ calls s) : IsLookedUp s c := by
  obtain ⟨call, target, rfl⟩ := exists_factOf_of_mem_calls h
  exact ⟨call, target, rfl, factOf_url s call target, factOf_method s call target⟩

end Http

namespace Routing

variable {s : Source} {groups : List Constructed} {n call : Node} {site : Site}

/-- Where a registration has its path. -/
def Site.pathLookup (site : Site) : Lookup := ⟨site.call, 0, site.pathKeyword⟩

/-- Where a call that registers a route has its handler. -/
def handlerLookup (call : Node) (layout : Catalog.RegistrationCall) : Lookup :=
  ⟨call, layout.handlerIndex, layout.handlerKeyword⟩

/-- The name of the handler, of which the definition is found or not. -/
def nameOfHandler (definition taken : Option Node) : String :=
  (definition.map definitionName <|> taken.map Node.text).getD ""

/-- The handler of a site is that of the argument that is looked up, if the site is a call. -/
def Site.IsHandlerLookedUp (s : Source) (site : Site) : Prop :=
  site.style = .call → ∃ object member layout,
    calledMember? site.call = some (object, member) ∧
    Catalog.registrationCall? member = some layout ∧
    site.handler = (handlerLookup site.call layout).taken?.bind (handlerDefinition? s) ∧
    site.handlerName = nameOfHandler site.handler (handlerLookup site.call layout).taken?

theorem isHandlerLookedUp_of_callSite? (h : callSite? s groups call = some site) :
    site.IsHandlerLookedUp s := by
  simp only [callSite?, Option.bind_eq_bind, Option.bind_eq_some_iff] at h
  obtain ⟨⟨object, member⟩, hmember, layout, hlayout, ⟨framework, group⟩, -, h⟩ := h
  obtain rfl := Option.some.inj h
  refine fun _ => ⟨object, member, layout, hmember, hlayout, rfl, ?_⟩
  dsimp only [nameOfHandler, handlerLookup, Lookup.taken?]
  split
  · next h => rw [h]; rfl
  · next h h' => rw [h, h']; rfl
  · next h h' => rw [h, h']; rfl

theorem style_of_decoratorSite? {decorated definition decorator : Node}
    (h : decoratorSite? s groups decorated definition decorator = some site) :
    site.style = .decorator := by
  simp only [decoratorSite?, Option.bind_eq_bind, Option.bind_eq_some_iff] at h
  obtain ⟨call, -, h⟩ := h
  split at h
  · simp only [Option.bind_eq_some_iff] at h
    obtain ⟨⟨object, member⟩, -, ⟨framework, group⟩, -, method, -, h⟩ := h
    exact Option.some.inj h ▸ rfl
  · cases h

theorem isHandlerLookedUp_of_mem_sitesAt (h : site ∈ sitesAt s groups n) :
    site.IsHandlerLookedUp s := by
  obtain ⟨definition, decorator, hsite⟩ | hsite := exists_site?_of_mem_sitesAt h
  · exact fun hcall => absurd (style_of_decoratorSite? hsite) (by simp [hcall])
  · exact isHandlerLookedUp_of_callSite? hsite

/-- Path and handler are those of the arguments that are looked up. -/
def IsLookedUp (s : Source) (r : Route) : Prop := ∃ site ∈ sites s, r = routeAt s site ∧
  r.rawPath = site.pathLookup.taken?.bind stringLiteral? ∧ site.IsHandlerLookedUp s

theorem isLookedUp_of_mem_routes {module : Option String} {r : Route}
    (h : r ∈ (s.facts module).routes) : IsLookedUp s r := by
  rw [routes_facts] at h
  obtain ⟨site, hsite, rfl⟩ := List.mem_map.mp h
  obtain ⟨n, -, hn⟩ := List.mem_flatMap.mp hsite
  exact ⟨site, hsite, rfl, rfl, isHandlerLookedUp_of_mem_sitesAt hn⟩

/-- Where a call that includes a group has the group. -/
def targetLookup (call : Node) (layout : Catalog.IncludeCall) : Lookup :=
  ⟨call, layout.targetIndex, layout.targetKeyword⟩

/-- What is known about the target of an include from its argument. -/
def targetOf (s : Source) (taken : Option Node) : IncludeTarget :=
  (taken.map (includeTarget s (constructedGroups s))).getD (.unknown "")

/-- The target is that of the argument that is looked up. -/
def IsTargetLookedUp (s : Source) (i : GroupInclude) : Prop := ∃ call object layout,
  call ∈ s.tree.nodes ∧ calledMember? call = some (object, i.method) ∧
    Catalog.includeCall? i.method = some layout ∧
    i.target = targetOf s (targetLookup call layout).taken?

theorem isTargetLookedUp_of_mem_includes {module : Option String} {i : GroupInclude}
    (h : i ∈ (s.facts module).includes) : IsTargetLookedUp s i := by
  obtain ⟨call, hcall, h⟩ := List.mem_flatMap.mp
    (show i ∈ s.tree.nodes.flatMap (includesAt s (constructedGroups s)) from h)
  rw [includesAt] at h
  split at h
  · have h := Option.mem_toList.mp h
    simp only [include?, Option.bind_eq_bind, Option.bind_eq_some_iff] at h
    obtain ⟨⟨object, method⟩, hmember, layout, hlayout, ⟨framework, parent?⟩, -, parent, -, h⟩ := h
    obtain rfl := Option.some.inj h
    refine ⟨call, object, layout, hcall, hmember, hlayout, ?_⟩
    dsimp only [targetOf, targetLookup, Lookup.taken?]
    split <;> next h => rw [h]; rfl
  · cases h

end Routing

/-! ### All facts of a file -/

/-- **What is taken behind a `*`.** In the arguments of a call all that is taken for a position is
sure to be passed there exactly when nothing is passed by position behind a `*`. URL and method of
each request, path and handler of each route and target of each include of a file are what the
lookups take; and a lookup is certain exactly when the argument has the keyword, or the position
does not fall on an argument behind a `*`. -/
theorem facts_lookedUp (s : Source) (module : Option String) :
    (∀ call, (∀ i a, (Arguments.ofCall call).position? i = some a → IsBoundAt call i a) ↔
      afterSplat call = []) ∧
    (∀ l : Lookup, l.IsCertain ↔ l.named?.isSome ∨ ¬ l.IsDoubtful) ∧
    (∀ c ∈ (s.facts module).httpCalls, Http.IsLookedUp s c) ∧
    (∀ r ∈ (s.facts module).routes, Routing.IsLookedUp s r) ∧
    (∀ i ∈ (s.facts module).includes, Routing.IsTargetLookedUp s i) :=
  ⟨Lookup.forall_isBoundAt_iff, fun _ => Lookup.isCertain_iff,
    fun _ => Http.isLookedUp_of_mem_calls, fun _ => Routing.isLookedUp_of_mem_routes,
    fun _ => Routing.isTargetLookedUp_of_mem_includes⟩

section Unpacked

open ApiSurface.Syntax (Tree)
open ApiSurface.Syntax.ParseTree

/-- The tree of `get(*rest, "/users")`. -/
def unpackedTree : Tree := Tree.lower "get(*rest, \"/users\")" <|
  rule "call" none 0 20 [
    rule "identifier" "function" 0 3 [],
    rule "argument_list" "arguments" 3 20 [
      token "(" 3 4,
      rule "list_splat" none 4 9 [token "*" 4 5, rule "identifier" none 5 9 []],
      token "," 9 10,
      rule "string" none 11 19 [
        rule "string_start" none 11 12 [],
        rule "string_content" none 12 18 [],
        rule "string_end" none 18 19 []],
      token ")" 19 20]]

/-- The text behind the `*` is taken for the URL, although nobody knows its position. -/
theorem not_isCertain_unpacked :
    ¬ (Http.urlLookup unpackedTree.root "get").IsCertain ∧
    Http.urlOf (Http.urlLookup unpackedTree.root "get").taken? = .literal "/users" ∧
    ∃ a, (Arguments.ofCall unpackedTree.root).position? 0 = some a ∧
      ∀ i, ¬ IsBoundAt unpackedTree.root i a := by
  have hbefore : beforeSplat unpackedTree.root = [] := by with_unfolding_all rfl
  refine ⟨?_, by decide +kernel, _, (by with_unfolding_all rfl), fun i h => ?_⟩
  · rw [Lookup.isCertain_iff]
    decide +kernel
  · rw [Arguments.isBoundAt_iff, hbefore] at h
    cases h

end Unpacked

end ApiSurface
