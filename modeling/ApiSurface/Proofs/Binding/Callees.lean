import ApiSurface.Proofs.Binding.CatalogExtension
import ApiSurface.Proofs.Binding.Expressions

/-!
# Callees

A value that comes from a call has the callee of that call. The pass looks it up when it binds the
value, in the table so far, and copies carry it on; yet it is what the finished table says about the
call itself (`callee_of_has`). So all names of one object agree about its constructor, and so does
the call when it stands for the object on its own (`Table.callee?_of_resolve?`).

This needs calls to be expressions, as they are in the grammar (`HasPlainCalls`): what a call calls
is looked up at the start of the call, and the name in front of a member at the name.
-/

namespace ApiSurface.Binding

open ApiSurface.Syntax (Node Tree)
open ApiSurface.Expr (stripAwait stripAwait_mem_descendants)

variable {tree : Tree} {t : Table} {catalog : Catalog} {parent : Option Node} {e : Entry}
  {n m m' f : Node} {name : String} {scope : Nat} {w : Visit}

/-- A tree in which calls are expressions, and end behind what they call. -/
structure HasPlainCalls (tree : Tree) : Prop where
  regular : IsRegular tree.root
  numbered : tree.IsNumbered
  isExpression : ∀ n ∈ tree.nodes, n.kind = "call" → IsExpression n
  endsBehind : ∀ n ∈ tree.nodes, n.kind = "call" → ∀ f ∈ n.childByField? "function",
    f.endByte < n.endByte

instance (tree : Tree) : Decidable (HasPlainCalls tree) :=
  decidable_of_iff
    (IsRegular tree.root ∧ tree.IsNumbered ∧
      (∀ n ∈ tree.nodes, n.kind = "call" → IsExpression n) ∧
      ∀ n ∈ tree.nodes, n.kind = "call" → ∀ f ∈ n.childByField? "function",
        f.endByte < n.endByte)
    ⟨fun ⟨h₁, h₂, h₃, h₄⟩ => ⟨h₁, h₂, h₃, h₄⟩,
      fun h => ⟨h.regular, h.numbered, h.isExpression, h.endsBehind⟩⟩

/-- The canonical path of what a call calls. -/
def Table.callee? (t : Table) (call : Node) : Option String :=
  (call.childByField? "function").bind fun f => t.qualifyAt f (t.scopeOf call) call.startByte

namespace HasPlainCalls

/-! ### Look-ups in calls -/

/-- What a call calls stands in front of the end of the call. -/
theorem covers (h : HasPlainCalls tree) (hn : n ∈ tree.nodes) (hk : n.kind = "call")
    (hf : n.childByField? "function" = some f) (hm : m ∈ f.descendants) :
    Covers n m.startByte := by
  have hreg := h.regular.below hn
  have hfn := Node.childByField?_mem_descendants hf
  have hmn := Node.mem_descendants_trans hfn hm
  have hin := (hreg.below hfn).encloses hm
  have hout := hreg.encloses hmn
  have hforwards := (hreg.below hmn).laidOut.forwards
  -- the call ends behind its function, and so behind everything in the function
  have hend := h.endsBehind n hn hk f hf
  exact ⟨hout.1, by omega⟩

theorem covers_self (h : HasPlainCalls tree) (hn : n ∈ tree.nodes) (hk : n.kind = "call")
    (hf : n.childByField? "function" = some f) : Covers n n.startByte := by
  have hcovers := h.covers hn hk hf f.self_mem_descendants
  exact ⟨Nat.le_refl _, Nat.lt_of_le_of_lt hcovers.1 hcovers.2⟩

/-- A name is looked up alike at all places in what a call calls. -/
theorem lookup_eq (h : HasPlainCalls tree) (hn : n ∈ tree.nodes) (hk : n.kind = "call")
    (hf : n.childByField? "function" = some f) (hm : m ∈ f.descendants) (hm' : m' ∈ f.descendants)
    (name : String) : (Table.build tree catalog).lookup name m
      = (Table.build tree catalog).lookup name m' := by
  have hexpr := h.isExpression n hn hk
  have hfn := Node.childByField?_mem_descendants hf
  have hscope : ∀ k ∈ f.descendants,
      (Table.build tree catalog).scopeOf k = (Table.build tree catalog).scopeOf n := fun k hk =>
    hexpr.scopeOf_eq h.regular h.numbered hn (Node.mem_descendants_trans hfn hk)
  rw [Table.lookup, Table.lookup, hscope m hm, hscope m' hm']
  exact hexpr.lookupAt_eq h.regular h.numbered hn (h.covers hn hk hf hm) (h.covers hn hk hf hm') _ _

/-- What a call calls has one path at its own place and at that of the call. -/
theorem qualify_function (h : HasPlainCalls tree) (hn : n ∈ tree.nodes) (hk : n.kind = "call")
    (hf : n.childByField? "function" = some f) :
    (Table.build tree catalog).qualify f = (Table.build tree catalog).callee? n := by
  have hexpr := h.isExpression n hn hk
  have hscope : (Table.build tree catalog).scopeOf f = (Table.build tree catalog).scopeOf n :=
    hexpr.scopeOf_eq h.regular h.numbered hn (Node.childByField?_mem_descendants hf)
  have hlookup : ∀ name scope, (Table.build tree catalog).lookupAt name scope f.startByte
      = (Table.build tree catalog).lookupAt name scope n.startByte := fun name scope =>
    hexpr.lookupAt_eq h.regular h.numbered hn (h.covers hn hk hf f.self_mem_descendants)
      (h.covers_self hn hk hf) name scope
  rw [Table.callee?, hf, Option.bind_some, Table.qualify, hscope]
  simp only [Table.qualifyAt, Table.headPath?, hlookup]

end HasPlainCalls

/-! ### Values that come from calls -/

/-- If the binding holds a value with a callee, the node that the value comes from and the callee
are related. -/
def Bound.HasOrigin (R : Node → Option String → Prop) (b : Bound) : Prop :=
  ∀ v, b = .value v → v.callee.isSome → R v.origin v.callee

section Origins

variable {R : Node → Option String → Prop}

theorem hasOrigin_of_ne {b : Bound} (h : ∀ v, b ≠ .value v) : b.HasOrigin R :=
  fun v hv => absurd hv (h v)

theorem hasOrigin_plainValue (name : String) (value statement : Node) :
    (Table.plainValue name value statement).HasOrigin R := by
  rintro v hv hcallee
  obtain rfl := Bound.value.inj hv
  simp at hcallee

theorem Bound.HasOrigin.asScoped {b : Bound} (h : b.HasOrigin R) :
    (Table.asScoped b).HasOrigin R := by
  cases b with
  | value v =>
    rintro v' hv hcallee
    obtain rfl := Bound.value.inj hv
    exact h v rfl hcallee
  | imported | parameter | typeAlias | definition =>
    exact hasOrigin_of_ne (by simp [Table.asScoped])

namespace Table

/-- What is bound to the result of a call. -/
theorem hasOrigin_boundToCall {call statement : Node}
    (h : ∀ f path, call.childByField? "function" = some f →
      t.qualifyAt f scope call.startByte = some path → R call (some path)) :
    (t.boundToCall catalog name call statement scope).HasOrigin R := by
  have hvalue : ∀ role, Bound.HasOrigin R (.value ⟨name,
      (call.childByField? "function").bind fun f => t.qualifyAt f scope call.startByte,
      role, call, statement, false⟩) := by
    rintro role v hv hsome
    obtain rfl := Bound.value.inj hv
    obtain ⟨path, hpath⟩ := Option.isSome_iff_exists.mp hsome
    obtain ⟨f, hf, hq⟩ := Option.bind_eq_some_iff.mp hpath
    exact hpath ▸ h f path hf hq
  rw [boundToCall]
  split
  · split
    · split
      · exact hasOrigin_of_ne (by simp)
      · exact hvalue _
    · exact hvalue _
  · exact hvalue _

/-- What is bound to an assigned value: the result of a call, or what another name is bound to. -/
theorem hasOrigin_boundToValue {value statement : Node}
    (hcall : value.kind = "call" →
      (t.boundToCall catalog name value statement scope).HasOrigin R)
    (ht : ∀ e, t.Has e → e.bound.HasOrigin R) :
    (t.boundToValue catalog name value statement scope).HasOrigin R := by
  have hplain : (plainValue name value statement).HasOrigin R :=
    hasOrigin_plainValue name value statement
  rw [boundToValue]
  split
  · next hk => exact hcall hk
  · split
    · next v hv =>
      obtain ⟨e, he, -, hbound⟩ := exists_has_of_findFrom hv
      rintro v' hv' hcallee
      obtain rfl := Bound.value.inj hv'
      exact ht e he v hbound hcallee
    · exact hasOrigin_of_ne (by simp)
    · exact hasOrigin_of_ne (by simp)
    · exact hplain
  · split
    · exact hasOrigin_of_ne (by simp)
    · exact hplain
  · split
    · exact hasOrigin_of_ne (by simp)
    · exact hplain
  · split
    · exact hasOrigin_of_ne (by simp)
    · exact hplain
  · exact hplain

/-! ### Recording -/

/-- Steps that are taken one after the other, each with the steps before it. -/
theorem Adds.foldl_prefix {α : Type} {P : Entry → Prop} {step : Table → α → Table} {l : List α}
    (h : ∀ before x after, l = before ++ x :: after →
      (before.foldl step t).Adds scope P (step (before.foldl step t) x)) :
    t.Adds scope P (l.foldl step t) := by
  induction l using List.reverseRecOn with
  | nil => exact .refl
  | append_singleton l x ih =>
    rw [List.foldl_append, List.foldl_cons, List.foldl_nil]
    refine (ih fun before y after hl => h before y (after ++ [x]) (by simp [hl])).trans ?_
    exact h l x [] rfl

/-- Values with callees are recorded by assignments and by items of `with` statements only. -/
theorem adds_record_hasOrigin
    (hassigned : n.kind = "assignment" → ∀ name right, assignedValue? n = some right →
      (t.boundToValue catalog name (stripAwait right) n scope).HasOrigin R)
    (hitem : n.kind = "with_statement" → ∀ before item after,
      withItemsAll n.children = before ++ item :: after → ∀ expr target,
      withParts? item = some (expr, target) → (stripAwait expr).kind = "call" →
      ((before.foldl (recordItem catalog n scope) t).boundToCall catalog target.text
        (stripAwait expr) item scope).HasOrigin R) :
    t.Adds scope (fun e => e.bound.HasOrigin R) (t.record catalog parent n scope) := by
  have hplain : ∀ name value statement,
      (plainValue name value statement).HasOrigin R := hasOrigin_plainValue
  have htargets : ∀ target pos, t.Adds scope (fun e => e.bound.HasOrigin R)
      (t.shadowTargets target scope pos) := fun target pos =>
    .foldl fun _ _ _ => adds_bind (hplain _ _ _)
  rw [record]
  split
  · refine .foldl fun item _ u => ?_
    split
    · exact adds_bind (hasOrigin_of_ne (by simp))
    · split
      · exact adds_bind (hasOrigin_of_ne (by simp))
      · exact .refl
    · exact .refl
  · rw [recordImportFrom]
    split
    · exact .refl
    · refine .foldl fun item _ u => ?_
      split
      · exact adds_bind (hasOrigin_of_ne (by simp))
      · exact .refl
  · next hk =>
    rw [recordAssignment]
    split
    · exact .refl
    · split
      · split
        · exact .refl
        · next right hright =>
          refine adds_bind ?_
          dsimp only
          split
          · exact hasOrigin_of_ne (by simp)
          · exact hassigned hk _ right hright
      · split
        · exact .refl
        · exact htargets _ _
  · next hk =>
    refine Adds.foldl_prefix fun before item after hsplit => ?_
    split
    · exact .refl
    · next expr target hparts =>
      split
      · refine adds_bind ?_
        dsimp only
        split
        · next hcall => exact (hitem hk before item after hsplit expr target hparts hcall).asScoped
        · exact hplain _ _ _
      · exact .refl
  · split
    · exact htargets _ _
    · exact .refl
  · rw [recordTypeStatement]
    split
    · exact adds_bind (hasOrigin_of_ne (by simp))
    · exact .refl
  · rw [recordDefinition]
    split
    · exact adds_bind (hasOrigin_of_ne (by simp))
    · exact .refl
  · rw [recordDefinition]
    split
    · exact adds_bind (hasOrigin_of_ne (by simp))
    · exact .refl
  · exact .refl

end Table

end Origins

/-! ### Callees of values -/

/-- The value comes from a call of the tree, and has the callee that the finished table gives the
call. -/
structure Value.IsOfCall (tree : Tree) (catalog : Catalog) (v : Value) : Prop where
  mem_nodes : v.origin ∈ tree.nodes
  isCall : v.origin.kind = "call"
  callee_eq : v.callee = (Table.build tree catalog).callee? v.origin

/-- If the binding holds a value with a callee, the value comes from a call. -/
def Bound.HasCallee (tree : Tree) (catalog : Catalog) (b : Bound) : Prop :=
  ∀ v, b = .value v → v.callee.isSome → v.IsOfCall tree catalog

/-- The node is a call of the tree, and the callee is that of the call. -/
def IsCalleeOf (tree : Tree) (catalog : Catalog) (call : Node) (callee : Option String) : Prop :=
  call ∈ tree.nodes ∧ call.kind = "call" ∧ callee = (Table.build tree catalog).callee? call

theorem hasCallee_iff {b : Bound} :
    b.HasCallee tree catalog ↔ b.HasOrigin (IsCalleeOf tree catalog) :=
  ⟨fun h v hv hcallee => ⟨(h v hv hcallee).mem_nodes, (h v hv hcallee).isCall,
    (h v hv hcallee).callee_eq⟩, fun h v hv hcallee =>
      ⟨(h v hv hcallee).1, (h v hv hcallee).2.1, (h v hv hcallee).2.2⟩⟩

/-- What is bound to the result of a call, where the callee is that of the finished table. -/
theorem Table.hasCallee_boundToCall {call statement : Node} (hmem : call ∈ tree.nodes)
    (hk : call.kind = "call")
    (hcallee : ∀ f, call.childByField? "function" = some f →
      t.qualifyAt f scope call.startByte = (build tree catalog).callee? call) :
    (t.boundToCall catalog name call statement scope).HasCallee tree catalog :=
  hasCallee_iff.mpr <| hasOrigin_boundToCall fun f _ hf hq =>
    ⟨hmem, hk, hq.symm.trans (hcallee f hf)⟩

/-! ### The finished table -/

/-- Items of `with` statements that are not empty stand in the header, so all of them belongs to the
scope of the statement. -/
theorem Visit.scopeOf_of_item {item : Node} (hreg : IsRegular tree.root) (hnum : tree.IsNumbered)
    (hw : Visit.Within catalog (Visit.start tree) w) (hk : w.node.kind = "with_statement")
    (hitem : item ∈ withItemsAll w.node.children) (hne : item.startByte < item.endByte)
    (hm : m ∈ item.descendants) : (Table.build tree catalog).scopeOf m = w.scope := by
  have hsound := hw.isSound (Visit.isSound_start hreg hnum)
  have hcompound : compoundKinds.contains w.node.kind = true := by simp [compoundKinds, hk]
  have hopens : Table.opens? w.node = none := by simp [Table.opens?, hk]
  have hitem' := hitem
  rw [withItemsAll_eq_flatMap] at hitem'
  obtain ⟨c, hc, hin⟩ := List.mem_flatMap.mp hitem'
  have hbelow := mem_descendants_of_mem_withItems hin
  -- a body starts behind all items, so an item in a body would be empty
  have hbody : isBody w.node c = false := by
    refine Bool.eq_false_iff.mpr fun hbody => ?_
    have hfirst := hsound.regular.keepsStatements.headerFirst hcompound item
      (by simpa only [bindingParts, hk] using hitem) c hc hbody
    have hstart := ((hsound.regular.child hc).encloses hbelow).1
    omega
  have hnothing := hsound.regular.keepsStatements.ofHeader hcompound c hc hbody
  obtain ⟨before, after, hsplit⟩ := List.append_of_mem hc
  obtain ⟨v, hv, rfl⟩ := Visit.Within.exists_of_mem_descendants catalog (w.child catalog before c)
    (Node.mem_descendants_trans hbelow hm)
  have hinner : w.inner = w.scope := by rw [Visit.inner, hopens]
  have hscope : (w.child catalog before c).scope = w.scope := by
    rw [Visit.child, hinner, ite_self]
  rw [Visit.scopeOf_eq hreg hnum ((hw.tail ⟨before, c, after, hsplit, rfl⟩).trans hv),
    hv.scope_eq hnothing, hscope]

namespace HasPlainCalls

/-- Where a table answers like the finished one, a call gets the callee that it has there. -/
theorem qualifyAt_eq_callee? {lo : Nat} {call : Node} (h : HasPlainCalls tree)
    (hmem : call ∈ tree.nodes) (hk : call.kind = "call")
    (hf : call.childByField? "function" = some f)
    (hlater : t.Later lo (Table.build tree catalog)) (hscope : scope < t.scopes.size)
    (hlo : call.endByte ≤ lo) (heq : (Table.build tree catalog).scopeOf call = scope) :
    t.qualifyAt f scope call.startByte = (Table.build tree catalog).callee? call := by
  -- the look-up takes place in front of `lo`, from where on the tables may differ
  have hpos := Nat.lt_of_lt_of_le (h.covers_self hmem hk hf).2 hlo
  rw [Table.callee?, hf, Option.bind_some, heq, Table.qualifyAt_congr (hlater.agrees hscope hpos)]

/-- What an assigned call gives a variable. -/
theorem hasCallee_of_assignment {right : Node} (h : HasPlainCalls tree)
    (hw : Visit.Within catalog (Visit.start tree) w) (hk : w.node.kind = "assignment")
    (hright : assignedValue? w.node = some right)
    (ht : ∀ e, w.table.Has e → e.bound.HasCallee tree catalog) :
    (w.placed.boundToValue catalog name (stripAwait right) w.node w.scope).HasCallee tree
      catalog := by
  have hin := Node.mem_descendants_trans (isBelow_of_assignedValue? hright).mem_descendants
    (stripAwait_mem_descendants right)
  have hnode := hw.node_mem_descendants
  have hmem := Node.mem_descendants_trans hnode hin
  have hend := ((h.regular.below hnode).encloses hin).2
  refine hasCallee_iff.mpr <| Table.hasOrigin_boundToValue (fun hcall => hasCallee_iff.mp ?_)
    fun e he => hasCallee_iff.mp (ht e he)
  exact Table.hasCallee_boundToCall hmem hcall fun f hf =>
    h.qualifyAt_eq_callee? hmem hcall hf (Visit.later_of_assignment h.regular h.numbered hw hk)
      (hw.isSound (Visit.isSound_start h.regular h.numbered)).scope_lt hend
      (Visit.scopeOf_of_assignment h.regular h.numbered hw hk hin)

/-- What a call in an item of a `with` statement gives the target of the item. -/
theorem hasCallee_of_item {before after : List Node} {item expr target : Node}
    (h : HasPlainCalls tree) (hw : Visit.Within catalog (Visit.start tree) w)
    (hk : w.node.kind = "with_statement")
    (hsplit : withItemsAll w.node.children = before ++ item :: after)
    (hparts : Table.withParts? item = some (expr, target))
    (hcall : (stripAwait expr).kind = "call") :
    ((w.behindItems catalog before).boundToCall catalog target.text (stripAwait expr) item
      w.scope).HasCallee tree catalog := by
  have hall : item ∈ withItemsAll w.node.children := by simp [hsplit]
  have hitem := Node.mem_descendants_trans hw.node_mem_descendants
    (isBelow_of_mem_withItemsAll hall).mem_descendants
  have hin := Node.mem_descendants_trans (mem_descendants_of_withParts? hparts)
    (stripAwait_mem_descendants expr)
  have hmem := Node.mem_descendants_trans hitem hin
  have hencl := (h.regular.below hitem).encloses hin
  refine Table.hasCallee_boundToCall hmem hcall fun f hf => ?_
  have hcovers := h.covers_self hmem hcall hf
  -- a call is not empty, and neither is the item around it
  have hne : item.startByte < item.endByte :=
    Nat.lt_of_le_of_lt hencl.1 (Nat.lt_of_lt_of_le hcovers.2 hencl.2)
  exact h.qualifyAt_eq_callee? hmem hcall hf (Visit.later_of_item h.regular h.numbered hw hk hsplit)
    (Visit.lt_behindItems catalog before (hw.isSound (Visit.isSound_start h.regular h.numbered)))
    hencl.2 (Visit.scopeOf_of_item h.regular h.numbered hw hk hall hne hin)

/-- **Values that come from calls** have the callees of the calls. -/
theorem callee_of_has (h : HasPlainCalls tree) (he : (Table.build tree catalog).Has e) :
    e.bound.HasCallee tree catalog := by
  suffices hall : ∀ e, ((Visit.start tree).result catalog).Has e → e.bound.HasCallee tree catalog
    from hall e he
  clear he
  -- along the visits: when a node is entered, all values so far have the callees of their calls
  refine (Visit.start tree).forall_has_result (fun e he => absurd he (Visit.not_has_start tree e))
    fun w hw ht e he => ?_
  have hadds : w.placed.Adds w.scope (fun e => e.bound.HasOrigin (IsCalleeOf tree catalog))
      (w.recorded catalog) :=
    Table.adds_record_hasOrigin
      (fun hk _ _ hright => hasCallee_iff.mp (h.hasCallee_of_assignment hw hk hright ht))
      fun hk _ _ _ hsplit _ _ hparts hcall =>
        hasCallee_iff.mp (h.hasCallee_of_item hw hk hsplit hparts hcall)
  have hrecorded : (w.recorded catalog).Has e → e.bound.HasCallee tree catalog := fun he =>
    (hadds.has he).elim (ht e) hasCallee_iff.mpr
  rcases w.entered_cases catalog with ⟨-, heq⟩ | ⟨kind, -, hparams⟩
  · exact hrecorded (heq ▸ he)
  · rcases hparams.has he with he | ⟨-, -, -, p, hp⟩
    · exact hrecorded (Table.has_of_openScope he)
    · exact fun v hv => nomatch hp.symm.trans hv

/-! ### Objects -/

/-- **An object that is constructed** comes from a call of the tree, whose callee is the constructor
of the object. -/
theorem callee?_of_resolve? {object X : Node} {i : Instance} (h : HasPlainCalls tree)
    (hobject : object ∈ tree.nodes)
    (hi : (Table.build tree catalog).resolve? catalog object = some i) (hX : i.origin = some X) :
    X ∈ tree.nodes ∧ X.kind = "call" ∧
      (Table.build tree catalog).callee? X = some i.constructor := by
  have hstrip := Node.mem_descendants_trans hobject (stripAwait_mem_descendants object)
  by_cases hk : (stripAwait object).kind = "call"
  · rw [Table.resolve?_of_call _ _ hk, made, Option.bind_eq_some_iff] at hi
    obtain ⟨callee, hcallee, hi⟩ := hi
    obtain ⟨role, -, rfl⟩ := Option.map_eq_some_iff.mp hi
    obtain rfl := Option.some.inj hX
    obtain ⟨function, hfunction, hcallee⟩ := Option.bind_eq_some_iff.mp hcallee
    exact ⟨hstrip, hk, (h.qualify_function hstrip hk hfunction).symm.trans hcallee⟩
  · rw [Table.resolve?, if_neg hk] at hi
    split at hi
    · split at hi
      · next v hv =>
        obtain ⟨e, he, -, hbound⟩ := Table.exists_has_of_findFrom hv
        simp only [Table.instanceOfValue?, Option.bind_eq_bind, Option.bind_eq_some_iff] at hi
        obtain ⟨role, -, callee, hcallee, hi⟩ := hi
        cases hi
        obtain rfl := Option.some.inj hX
        obtain ⟨hmem, hcall, heq⟩ := h.callee_of_has he v hbound (by simp [hcallee])
        exact ⟨hmem, hcall, heq.symm.trans hcallee⟩
      · next p hp =>
        simp only [Table.instanceOfParameter?, Option.bind_eq_bind, Option.bind_eq_some_iff] at hi
        obtain ⟨role, -, path, -, hi⟩ := hi
        cases hi
        cases hX
      · cases hi
    · cases hi

end HasPlainCalls

/-! ### Bindings with roles -/

/-- A value has the role of its callee. -/
theorem role_of_has {v : Value} (he : (Table.build tree catalog).Has e) (hv : e.bound = .value v) :
    v.role = v.callee.bind catalog.constructorRole? := by
  obtain ⟨i, s, hs, hmem⟩ := he
  have hrel := (Table.matches_build tree catalog catalog).scopes i
  rw [hs] at hrel
  cases hrel with
  | some hscope =>
    have hbound := (List.forall₂_same.mp hscope.entries e hmem).bound
    generalize hb : e.bound = b at hbound
    cases hbound with
    | value u => cases hb.symm.trans hv; rfl
    | imported | parameter | typeAlias | definition => nomatch hb.symm.trans hv

theorem exists_has_of_mem_roleValues {v : Value} (hv : v ∈ t.roleValues) :
    ∃ e, t.Has e ∧ e.bound = .value v ∧ v.role.isSome := by
  obtain ⟨s, hs, hv⟩ := List.mem_flatMap.mp hv
  obtain ⟨found, hfound, rfl⟩ := List.mem_map.mp hv
  obtain ⟨e, he, hrole⟩ := List.mem_filterMap.mp (List.mem_mergeSort.mp hfound)
  obtain ⟨i, hi⟩ := List.getElem?_of_mem hs
  refine ⟨e, ⟨i, s, by simpa using hi, List.mem_reverse.mp he⟩, ?_⟩
  rw [Table.roleValue?] at hrole
  split at hrole
  · next u hu =>
    split at hrole
    · next hsome => exact Option.some.inj hrole ▸ ⟨hu, hsome⟩
    · cases hrole
  · cases hrole

/-- **A value with a role** comes from a call of the tree. -/
theorem HasPlainCalls.isOfCall {v : Value} (h : HasPlainCalls tree)
    (hv : v ∈ (Table.build tree catalog).roleValues) : v.IsOfCall tree catalog := by
  obtain ⟨e, he, hbound, hrole⟩ := exists_has_of_mem_roleValues hv
  refine h.callee_of_has he v hbound ?_
  rw [role_of_has he hbound] at hrole
  cases hcallee : v.callee with
  | none => simp [hcallee] at hrole
  | some callee => rfl

/-! ### Well-placed trees -/

/-- A call of a name, or of a member of something that has a name. -/
def IsNamedCall (n : Node) : Prop :=
  n.kind = "call" ∧ (n.childByField? "function").any fun f => (Table.chain? f).isSome

instance (n : Node) : Decidable (IsNamedCall n) := inferInstanceAs (Decidable (_ ∧ _))

theorem isNamedCall_of_callee? {path : String} (hk : n.kind = "call")
    (h : t.callee? n = some path) : IsNamedCall n := by
  obtain ⟨f, hf, h⟩ := Option.bind_eq_some_iff.mp h
  simp only [Table.qualifyAt, Option.bind_eq_bind, Option.bind_eq_some_iff] at h
  obtain ⟨found, hchain, -⟩ := h
  exact ⟨hk, by simp [hf, hchain]⟩

/-- A tree in which calls are plain, decorators stand before what they decorate, and calls of names
start at different places. -/
structure IsWellPlaced (tree : Tree) : Prop
    extends HasPlainCalls tree, HasDecoratorsFirst tree where
  callsApart : ∀ n ∈ tree.nodes, IsNamedCall n → ∀ m ∈ tree.nodes, IsNamedCall m →
    n.startByte = m.startByte → n.id = m.id

instance (tree : Tree) : Decidable (IsWellPlaced tree) :=
  decidable_of_iff
    (HasPlainCalls tree ∧ HasDecoratorsFirst tree ∧
      ∀ n ∈ tree.nodes, IsNamedCall n → ∀ m ∈ tree.nodes, IsNamedCall m →
        n.startByte = m.startByte → n.id = m.id)
    ⟨fun ⟨h₁, h₂, h₃⟩ => ⟨h₁, h₂.nonempty, h₂.inOrder, h₃⟩,
      fun h => ⟨h.toHasPlainCalls, h.toHasDecoratorsFirst, h.callsApart⟩⟩

end ApiSurface.Binding
