import Mathlib.Data.List.Induction
import Mathlib.Logic.Relation
import ApiSurface.Proofs.Binding.Additions
import ApiSurface.Proofs.Binding.Chronology
import ApiSurface.Proofs.Syntax.Numbering

/-!
# Visits

The pass visits a node by visiting its children, one after the other (`Visit.Calls`). What the
finished table says about a node is what the visit of the node began and ended with:

* the node has the scope that it is visited in (`Visit.Within.nodeScope_eq`);
* what is bound after the visit becomes visible behind the node only (`Visit.Within.later`);
* what is bound before the visit stems from nodes that end before it or lie around it
  (`Visit.Within.has_table`).
-/

namespace ApiSurface.Binding

open ApiSurface.Syntax (Node Tree)

namespace Table

variable {t t' t'' : Table} {catalog : Catalog} {parent : Option Node} {n : Node} {e : Entry}
  {P : Entry → Prop} {scope inner lo lo' hi : Nat}

/-! ### Tables that come later -/

/-- The second table has the scopes of the first one with further bindings, which are visible from
`lo` or from behind it, and maybe further scopes. -/
structure Later (t : Table) (lo : Nat) (t' : Table) : Prop where
  size_le : t.scopes.size ≤ t'.scopes.size
  scopes : ∀ (i : Nat) (s : Scope), t.scopes[i]? = some s →
    ∃ added, t'.scopes[i]? = some { s with entries := added ++ s.entries } ∧
      ∀ e ∈ added, lo ≤ e.visibleFrom

theorem Later.refl : t.Later lo t := ⟨Nat.le_refl _, fun _ _ h => ⟨[], h, by simp⟩⟩

theorem Later.mono (h : t.Later lo t') (hle : lo' ≤ lo) : t.Later lo' t' :=
  ⟨h.size_le, fun i s hs => by
    obtain ⟨added, hs', hadded⟩ := h.scopes i s hs
    exact ⟨added, hs', fun e he => Nat.le_trans hle (hadded e he)⟩⟩

theorem Later.trans (h : t.Later lo t') (h' : t'.Later lo t'') : t.Later lo t'' := by
  refine ⟨Nat.le_trans h.size_le h'.size_le, fun i s hs => ?_⟩
  obtain ⟨old, hs', hold⟩ := h.scopes i s hs
  obtain ⟨new, hs'', hnew⟩ := h'.scopes i _ hs'
  exact ⟨new ++ old, by simpa using hs'', fun e he =>
    (List.mem_append.mp he).elim (hnew e) (hold e)⟩

theorem Grows.later (h : t.Grows scope lo hi t') : t.Later lo t' := by
  refine ⟨h.size_le, fun i s hs => ?_⟩
  by_cases hi : i = scope
  · subst hi
    obtain ⟨s', added, hs', hown, -, hin⟩ := h.own
    obtain rfl := Option.some.inj (hs.symm.trans hs')
    exact ⟨added, hown, fun e he => (hin e he).1⟩
  · have hlt := (Array.getElem?_eq_some_iff.mp hs).1
    exact ⟨[], by rw [h.others i hlt hi, hs]; rfl, by simp⟩

/-- What holds of a table and is kept by visits of the nodes holds when all are visited. -/
theorem visitAll_induction {motive : Table → Prop} {l : List Node} (start : motive t)
    (step : ∀ c ∈ l, ∀ (scope : Nat) (u : Table), motive u →
      motive (visit catalog parent scope u c)) :
    motive (visitAll catalog parent scope inner t l) := by
  rw [visitAll_eq_foldl]
  exact List.foldlRecOn _ _ start fun u hu c hc => step c hc _ u hu

theorem later_of_scopes_eq (h : t'.scopes = t.scopes) : t.Later lo t' :=
  ⟨h ▸ Nat.le_refl _, fun i s hs => ⟨[], by simpa [h] using hs, by simp⟩⟩

/-- Visiting nodes that start at or behind a position, or bind nothing. -/
theorem later_visitAll {l : List Node} (hreg : ∀ c ∈ l, IsRegular c)
    (hlo : ∀ c ∈ l, BindsNothing c ∨ lo ≤ c.startByte) (hscope : scope < t.scopes.size)
    (hinner : inner < t.scopes.size) :
    t.Later lo (visitAll catalog parent scope inner t l) := by
  induction l generalizing t with
  | nil => exact .refl
  | cons c l ih =>
    rw [visitAll]
    have hlt : (if isInner c then inner else scope) < t.scopes.size := by split <;> assumption
    have hc : t.Later lo (visit catalog parent (if isInner c then inner else scope) t c) := by
      rcases hlo c List.mem_cons_self with hnothing | hle
      · exact later_of_scopes_eq (scopes_visit_of_bindsNothing hnothing)
      · exact (grows_visit (hreg c List.mem_cons_self) hlt).later.mono hle
    exact hc.trans (ih (fun d hd => hreg d (List.mem_cons_of_mem c hd))
      (fun d hd => hlo d (List.mem_cons_of_mem c hd)) (Nat.lt_of_lt_of_le hscope hc.size_le)
      (Nat.lt_of_lt_of_le hinner hc.size_le))

/-- What stands in a new scope makes no difference to the scopes from before. -/
theorem later_of_adds_openScope {kind : ScopeKind}
    (h : (t.openScope kind scope n).Adds t.scopes.size P t') : t.Later lo t' := by
  obtain ⟨added, rfl, -⟩ := h
  refine ⟨?_, fun i s hs => ⟨[], ?_, by simp⟩⟩
  · simp [push, openScope]
  · have hi : i < t.scopes.size := (Array.getElem?_eq_some_iff.mp hs).1
    simp [push, openScope, Array.getElem?_modify, Array.getElem?_push, hs, (Nat.ne_of_lt hi).symm,
      Nat.ne_of_lt hi]

/-! ### Entries of tables -/

/-- The binding stands in some scope. -/
def Has (t : Table) (e : Entry) : Prop :=
  ∃ (i : Nat) (s : Scope), t.scopes[i]? = some s ∧ e ∈ s.entries

theorem Adds.has (h : t.Adds scope P t') (he : t'.Has e) : t.Has e ∨ P e := by
  obtain ⟨added, rfl, hadded⟩ := h
  obtain ⟨i, s, hs, he⟩ := he
  rw [push, Array.getElem?_modify] at hs
  split at hs
  · obtain ⟨s', hs', rfl⟩ := Option.map_eq_some_iff.mp hs
    rcases List.mem_append.mp he with he | he
    · exact .inr (hadded e he)
    · exact .inl ⟨i, s', hs', he⟩
  · exact .inl ⟨i, s, hs, he⟩

theorem has_of_openScope {kind : ScopeKind} (he : (t.openScope kind scope n).Has e) : t.Has e := by
  obtain ⟨i, s, hs, he⟩ := he
  rw [openScope, Array.getElem?_push] at hs
  split at hs
  · obtain rfl := Option.some.inj hs
    simp at he
  · exact ⟨i, s, hs, he⟩

end Table

open Table (Has Later)

/-! ### Visits -/

/-- What the pass has when it comes to a node: the node above, the scope that the node belongs to
and the table so far. -/
structure Visit where
  parent : Option Node
  scope : Nat
  table : Table
  node : Node

namespace Visit

variable {catalog : Catalog} {v w : Visit} {c m : Node} {e : Entry} {before after : List Node}

/-- The table after the visit. -/
def result (catalog : Catalog) (v : Visit) : Table :=
  Table.visit catalog v.parent v.scope v.table v.node

/-- The table when the node belongs to its scope. -/
def placed (v : Visit) : Table := v.table.place v.node v.scope

/-- The table when the node itself is recorded. -/
def recorded (catalog : Catalog) (v : Visit) : Table :=
  (v.table.place v.node v.scope).record catalog v.parent v.node v.scope

/-- The scope of the children inside a definition. -/
def inner (v : Visit) : Nat :=
  match Table.opens? v.node with
  | some _ => v.table.scopes.size
  | none => v.scope

/-- The table when the children are visited. -/
def entered (catalog : Catalog) (v : Visit) : Table :=
  match Table.opens? v.node with
  | some kind => (v.recorded catalog).enter catalog kind v.scope v.node
  | none => v.recorded catalog

/-- The visit of a child behind other children. -/
def child (catalog : Catalog) (v : Visit) (before : List Node) (c : Node) : Visit :=
  ⟨some v.node, if Table.isInner c then v.inner else v.scope,
    Table.visitAll catalog (some v.node) v.scope v.inner (v.entered catalog) before, c⟩

/-- The first visit begins the second one. -/
def Calls (catalog : Catalog) (v w : Visit) : Prop :=
  ∃ before c after, v.node.children = before ++ c :: after ∧ w = v.child catalog before c

/-- The second visit is the first one, or takes place during it. -/
def Within (catalog : Catalog) : Visit → Visit → Prop := Relation.ReflTransGen (Calls catalog)

theorem recorded_adds (v : Visit) :
    v.placed.Adds v.scope (v.placed.Recorded catalog v.parent v.node v.scope)
      (v.recorded catalog) :=
  Table.adds_record

theorem size_recorded (catalog : Catalog) (v : Visit) :
    (v.recorded catalog).scopes.size = v.table.scopes.size :=
  v.recorded_adds.size_eq

theorem inner_eq (catalog : Catalog) {kind : ScopeKind} (h : Table.opens? v.node = some kind) :
    v.inner = (v.recorded catalog).scopes.size := by
  rw [inner, h, size_recorded]

theorem result_eq (v : Visit) : v.result catalog = Table.visitAll catalog (some v.node) v.scope
    v.inner (v.entered catalog) v.node.children := by
  cases h : Table.opens? v.node with
  | none => simp only [result, Table.visit_of_opens?_eq_none h, inner, entered, h, recorded]
  | some kind =>
    rw [entered, h, inner_eq catalog h, result, Table.visit_of_opens? h]
    rfl

/-- What stands in the table when the children are visited, besides what the node adds: the
bindings from before, in the same scopes. -/
theorem entered_cases (catalog : Catalog) (v : Visit) :
    (Table.opens? v.node = none ∧ v.entered catalog = v.recorded catalog) ∨
    ∃ kind, Table.opens? v.node = some kind ∧
      ((v.recorded catalog).openScope kind v.scope v.node).Adds v.inner
        (fun e => kind = .function ∧ Table.IsParameterEntry v.node e) (v.entered catalog) := by
  cases h : Table.opens? v.node with
  | none => exact .inl ⟨rfl, by rw [entered, h]⟩
  | some kind =>
    refine .inr ⟨kind, rfl, ?_⟩
    rw [entered, h, inner_eq catalog h]
    cases kind with
    | function => exact Table.adds_bindParameters.mono fun e he => ⟨rfl, he⟩
    | classBody => exact .refl
    | module => exact .refl

theorem nodeScope_entered (v : Visit) :
    (v.entered catalog).nodeScope = v.table.nodeScope.setIfInBounds v.node.id v.scope := by
  have hrecorded : (v.recorded catalog).nodeScope
      = v.table.nodeScope.setIfInBounds v.node.id v.scope := v.recorded_adds.nodeScope_eq
  rcases v.entered_cases catalog with ⟨-, h⟩ | ⟨kind, -, h⟩
  · rw [h, hrecorded]
  · exact h.nodeScope_eq.trans hrecorded

theorem size_le_entered (catalog : Catalog) (v : Visit) :
    v.table.scopes.size ≤ (v.entered catalog).scopes.size := by
  rcases v.entered_cases catalog with ⟨-, h⟩ | ⟨kind, -, h⟩
  · exact Nat.le_of_eq (by rw [h, size_recorded])
  · rw [h.size_eq, Table.openScope, Array.size_push, size_recorded]
    exact Nat.le_succ _

theorem inner_lt_entered (catalog : Catalog) (h : v.scope < v.table.scopes.size) :
    v.inner < (v.entered catalog).scopes.size := by
  rcases v.entered_cases catalog with ⟨hopens, heq⟩ | ⟨kind, hopens, hadds⟩
  · rw [inner, hopens, heq, size_recorded]
    exact h
  · rw [inner, hopens, hadds.size_eq, Table.openScope, Array.size_push, size_recorded]
    exact Nat.lt_succ_self _

/-- The children are visited with bindings from before, or bindings that stem from the node. -/
theorem has_entered (hreg : IsRegular v.node) (he : (v.entered catalog).Has e) :
    v.table.Has e ∨ e.StemsFrom v.node := by
  have hrecorded : (v.recorded catalog).Has e → v.table.Has e ∨ e.StemsFrom v.node :=
    fun he => (v.recorded_adds.has he).imp_right Table.Recorded.stemsFrom
  rcases v.entered_cases catalog with ⟨-, h⟩ | ⟨kind, hopens, hadds⟩
  · exact hrecorded (h ▸ he)
  · rcases hadds.has he with he | ⟨rfl, ⟨list, hlist, hfrom⟩, huntil, -⟩
    · exact hrecorded (Table.has_of_openScope he)
    · refine .inr fun b hb => ?_
      have hk := Table.kind_of_opens?_function hopens
      refine .inr ⟨list, by simp [bindingParts, hk, hlist], ?_⟩
      rcases hb with rfl | hb
      · rw [hfrom]
        exact (hreg.child (List.mem_of_find?_eq_some hlist)).laidOut.forwards
      · simp [huntil] at hb

/-! ### What a visit leaves behind -/

theorem size_nodeScope_result (v : Visit) :
    (v.result catalog).nodeScope.size = v.table.nodeScope.size := by
  obtain ⟨parent, scope, t, n⟩ := v
  induction n using Node.rec_children generalizing parent scope t with
  | step n ih =>
    rw [result_eq]
    refine Table.visitAll_induction (motive := fun u => u.nodeScope.size = t.nodeScope.size) ?_
      fun c hc _ u hu => (ih c hc _ _ u).trans hu
    rw [nodeScope_entered, Array.size_setIfInBounds]

/-- A visit gives scopes to the nodes at and below its node only. -/
theorem nodeScope_result_of_ne {i : Nat} (h : ∀ m ∈ v.node.descendants, m.id ≠ i) :
    (v.result catalog).nodeScope[i]? = v.table.nodeScope[i]? := by
  obtain ⟨parent, scope, t, n⟩ := v
  induction n using Node.rec_children generalizing parent scope t with
  | step n ih =>
    rw [result_eq]
    refine Table.visitAll_induction (motive := fun u => u.nodeScope[i]? = t.nodeScope[i]?) ?_
      fun c hc _ u hu => ?_
    · rw [nodeScope_entered, Array.getElem?_setIfInBounds_ne (h n n.self_mem_descendants)]
    · exact (ih c hc _ _ u fun m hm => h m (Node.mem_descendants_of_mem_children hc hm)).trans hu

/-- A visit leaves bindings from before, and bindings that stem from the nodes at and below its
node. -/
theorem has_result (hreg : IsRegular v.node) (he : (v.result catalog).Has e) :
    v.table.Has e ∨ ∃ m ∈ v.node.descendants, e.StemsFrom m := by
  obtain ⟨parent, scope, t, n⟩ := v
  induction n using Node.rec_children generalizing parent scope t with
  | step n ih =>
    rw [result_eq] at he
    revert he
    refine Table.visitAll_induction (motive := fun u => u.Has e →
      t.Has e ∨ ∃ m ∈ n.descendants, e.StemsFrom m) (fun he => ?_) fun c hc scope u hu he => ?_
    · exact (has_entered hreg he).imp_right fun h => ⟨n, n.self_mem_descendants, h⟩
    · rcases ih c hc (some n) scope u (hreg.child hc) he with he | ⟨m, hm, hstems⟩
      · exact hu he
      · exact .inr ⟨m, Node.mem_descendants_of_mem_children hc hm, hstems⟩

/-! ### Sound visits -/

/-- The node is regular, its scope is there, and the table has room for it and all nodes below it,
which are told apart by their numbers. -/
structure IsSound (v : Visit) : Prop where
  regular : IsRegular v.node
  distinct : v.node.HasDistinctIds
  scope_lt : v.scope < v.table.scopes.size
  id_lt : ∀ m ∈ v.node.descendants, m.id < v.table.nodeScope.size

theorem IsSound.grows_result (catalog : Catalog) (h : v.IsSound) :
    v.table.Grows v.scope v.node.startByte v.node.endByte (v.result catalog) :=
  Table.grows_visit h.regular h.scope_lt

/-- What a node binds is there after its visit. -/
theorem IsSound.later_recorded (catalog : Catalog) (h : v.IsSound) :
    (v.recorded catalog).Later v.node.startByte (v.result catalog) := by
  have hentered : (v.recorded catalog).Later v.node.startByte (v.entered catalog) := by
    rcases v.entered_cases catalog with ⟨-, heq⟩ | ⟨kind, hopens, hadds⟩
    · rw [heq]
      exact .refl
    · rw [inner_eq catalog hopens] at hadds
      exact Table.later_of_adds_openScope hadds
  rw [result_eq]
  exact hentered.trans (Table.later_visitAll (fun c hc => h.regular.child hc)
    (fun c hc => .inr (h.regular.laidOut.inside c hc).1)
    (Nat.lt_of_lt_of_le h.scope_lt (v.size_le_entered catalog))
    (inner_lt_entered catalog h.scope_lt))

/-! ### Going down -/

theorem result_eq_visitAll (hsplit : v.node.children = before ++ c :: after) :
    v.result catalog = Table.visitAll catalog (some v.node) v.scope v.inner
      ((v.child catalog before c).result catalog) after := by
  rw [result_eq, hsplit]
  simp only [Table.visitAll_eq_foldl, List.foldl_append, List.foldl_cons, result, child]

theorem size_nodeScope_child (before : List Node) (c : Node) :
    (v.child catalog before c).table.nodeScope.size = v.table.nodeScope.size := by
  refine Table.visitAll_induction (motive := fun u => u.nodeScope.size = v.table.nodeScope.size) ?_
    fun d _ scope u hu => (size_nodeScope_result ⟨some v.node, scope, u, d⟩).trans hu
  rw [nodeScope_entered, Array.size_setIfInBounds]

/-- Both scopes that children are visited in are there. -/
theorem IsSound.lt_child (catalog : Catalog) (h : v.IsSound)
    (hsplit : v.node.children = before ++ c :: after) :
    v.scope < (v.child catalog before c).table.scopes.size ∧
      v.inner < (v.child catalog before c).table.scopes.size := by
  have hmem : ∀ d ∈ before, d ∈ v.node.children := fun d hd => by simp [hsplit, hd]
  have hscope := Nat.lt_of_lt_of_le h.scope_lt (v.size_le_entered catalog)
  have hinner := inner_lt_entered catalog h.scope_lt
  have hlater : (v.entered catalog).Later v.node.startByte (v.child catalog before c).table :=
    Table.later_visitAll (fun d hd => h.regular.child (hmem d hd))
      (fun d hd => .inr (h.regular.laidOut.inside d (hmem d hd)).1) hscope hinner
  exact ⟨Nat.lt_of_lt_of_le hscope hlater.size_le, Nat.lt_of_lt_of_le hinner hlater.size_le⟩

theorem IsSound.child (h : v.IsSound) (hsplit : v.node.children = before ++ c :: after) :
    (v.child catalog before c).IsSound := by
  have hc : c ∈ v.node.children := by simp [hsplit]
  have hlt := h.lt_child catalog hsplit
  refine ⟨h.regular.child hc, h.distinct.child hc, ?_, fun m hm => ?_⟩
  · show (if Table.isInner c then v.inner else v.scope) < _
    split
    · exact hlt.2
    · exact hlt.1
  · rw [size_nodeScope_child]
    exact h.id_lt m (Node.mem_descendants_of_mem_children hc hm)

/-- The children behind one hold other numbers, so their visits leave the nodes below it alone. -/
theorem nodeScope_visitAll_of_behind {d : Node} {l : List Node} {scope inner : Nat} {u : Table}
    (hv : v.IsSound) (hsplit : v.node.children = before ++ d :: after) (hl : ∀ c ∈ l, c ∈ after)
    (hm : m ∈ d.descendants) :
    (Table.visitAll catalog (some v.node) scope inner u l).nodeScope[m.id]?
      = u.nodeScope[m.id]? := by
  refine Table.visitAll_induction (motive := fun t => t.nodeScope[m.id]? = u.nodeScope[m.id]?) rfl
    fun c hc scope t ht => ?_
  refine (nodeScope_result_of_ne (v := ⟨some v.node, scope, t, c⟩) fun k hk => ?_).trans ht
  exact (hv.distinct.ne_of_split hsplit (hl c hc) hm hk).symm

/-- The first node lies before the second one, or around it. -/
def Precedes (m n : Node) : Prop :=
  m.endByte ≤ n.startByte ∨ ∃ c ∈ m.children, n ∈ c.descendants

namespace Calls

theorem isSound (h : Calls catalog v w) (hv : v.IsSound) : w.IsSound := by
  obtain ⟨before, c, after, hsplit, rfl⟩ := h
  exact hv.child hsplit

theorem node_mem_children (h : Calls catalog v w) : w.node ∈ v.node.children := by
  obtain ⟨before, c, after, hsplit, rfl⟩ := h
  simp [hsplit, child]

/-- What is bound after a visit becomes visible behind its node only. -/
theorem later (h : Calls catalog v w) (hv : v.IsSound) :
    (w.result catalog).Later w.node.endByte (v.result catalog) := by
  have hw := h.isSound hv
  obtain ⟨before, c, after, hsplit, rfl⟩ := h
  have hmem : ∀ d ∈ after, d ∈ v.node.children := fun d hd => by simp [hsplit, hd]
  have hord := hv.regular.laidOut.inOrder
  rw [hsplit] at hord
  have hbehind := (List.pairwise_cons.mp (List.pairwise_append.mp hord).2.1).1
  have hlt := hv.lt_child catalog hsplit
  have hle := (hw.grows_result catalog).size_le
  rw [result_eq_visitAll hsplit]
  exact Table.later_visitAll (fun d hd => hv.regular.child (hmem d hd))
    (fun d hd => .inr (hbehind d hd))
    (Nat.lt_of_lt_of_le hlt.1 hle) (Nat.lt_of_lt_of_le hlt.2 hle)

/-- The visits behind one leave the nodes at and below its node alone. -/
theorem nodeScope_eq (h : Calls catalog v w) (hv : v.IsSound) (hm : m ∈ w.node.descendants) :
    (v.result catalog).nodeScope[m.id]? = (w.result catalog).nodeScope[m.id]? := by
  obtain ⟨before, c, after, hsplit, rfl⟩ := h
  rw [result_eq_visitAll hsplit]
  exact nodeScope_visitAll_of_behind hv hsplit (fun _ hc => hc) hm

/-- What is bound before a visit of a child was bound before the visit of its parent, or stems from
a node that precedes the child. -/
theorem has_table (h : Calls catalog v w) (hv : v.IsSound) (he : w.table.Has e) :
    v.table.Has e ∨ ∃ m ∈ v.node.descendants, e.StemsFrom m ∧ Precedes m w.node := by
  obtain ⟨before, c, after, hsplit, rfl⟩ := h
  have hmem : ∀ d ∈ before, d ∈ v.node.children := fun d hd => by simp [hsplit, hd]
  have hc : c ∈ v.node.children := by simp [hsplit]
  have hord := hv.regular.laidOut.inOrder
  rw [hsplit] at hord
  revert he
  refine Table.visitAll_induction (motive := fun u => u.Has e → v.table.Has e ∨
    ∃ m ∈ v.node.descendants, e.StemsFrom m ∧ Precedes m c) (fun he => ?_)
    fun d hd scope u hu he => ?_
  · refine (has_entered hv.regular he).imp_right fun h => ?_
    exact ⟨v.node, v.node.self_mem_descendants, h, .inr ⟨c, hc, c.self_mem_descendants⟩⟩
  · rcases has_result (v := ⟨some v.node, scope, u, d⟩) (hv.regular.child (hmem d hd)) he with
      he | ⟨m, hm, hstems⟩
    · exact hu he
    · refine .inr ⟨m, Node.mem_descendants_of_mem_children (hmem d hd) hm, hstems, .inl ?_⟩
      have hbefore := (List.pairwise_append.mp hord).2.2 d hd c List.mem_cons_self
      have hin := (hv.regular.child (hmem d hd)).encloses hm
      exact Nat.le_trans hin.2 hbefore

end Calls

namespace Within

theorem exists_of_mem_descendants (catalog : Catalog) (v : Visit) (hm : m ∈ v.node.descendants) :
    ∃ w, Within catalog v w ∧ w.node = m := by
  obtain ⟨parent, scope, t, n⟩ := v
  induction n using Node.rec_children generalizing parent scope t with
  | step n ih =>
    rcases Node.mem_descendants_iff.mp hm with rfl | ⟨c, hc, hm⟩
    · exact ⟨_, .refl, rfl⟩
    · obtain ⟨before, after, hsplit⟩ := List.append_of_mem hc
      let u := (Visit.mk parent scope t n).child catalog before c
      obtain ⟨w, hw, rfl⟩ := ih c hc u.parent u.scope u.table hm
      exact ⟨w, .head ⟨before, c, after, hsplit, rfl⟩ hw, rfl⟩

theorem isSound (h : Within catalog v w) (hv : v.IsSound) : w.IsSound := by
  induction h with
  | refl => exact hv
  | tail _ hcalls ih => exact hcalls.isSound ih

theorem node_mem_descendants (h : Within catalog v w) : w.node ∈ v.node.descendants := by
  induction h with
  | refl => exact v.node.self_mem_descendants
  | tail _ hcalls ih =>
    exact Node.mem_descendants_trans ih (Node.child_mem_descendants hcalls.node_mem_children)

/-- What is bound after a visit becomes visible behind its node only. -/
theorem later (h : Within catalog v w) (hv : v.IsSound) :
    (w.result catalog).Later w.node.endByte (v.result catalog) := by
  induction h with
  | refl => exact .refl
  | @tail u w hwithin hcalls ih =>
    have hu := isSound hwithin hv
    have hend := (hu.regular.laidOut.inside w.node hcalls.node_mem_children).2
    exact (hcalls.later hu).trans (ih.mono hend)

/-- What a node binds stays in its scope. -/
theorem exists_mem_entries {added : List Entry} (h : Within catalog v w) (hv : v.IsSound)
    (hrecorded : w.recorded catalog = w.placed.push w.scope added) (he : e ∈ added) :
    ∃ s, (v.result catalog).scopes[w.scope]? = some s ∧ e ∈ s.entries := by
  have hw := isSound h hv
  have hplaced : w.placed.scopes[w.scope]? = some _ := Array.getElem?_eq_getElem hw.scope_lt
  obtain ⟨own, hown, -⟩ := (hw.later_recorded catalog).scopes _ _
    (hrecorded ▸ Table.getElem?_push hplaced)
  obtain ⟨new, hnew, -⟩ := (later h hv).scopes _ _ hown
  exact ⟨_, hnew, by simp [he]⟩

/-- After a visit the nodes at and below its node keep their scopes. -/
theorem nodeScope_result_eq (h : Within catalog v w) (hv : v.IsSound)
    (hm : m ∈ w.node.descendants) :
    (v.result catalog).nodeScope[m.id]? = (w.result catalog).nodeScope[m.id]? := by
  induction h with
  | refl => rfl
  | @tail u w hwithin hcalls ih =>
    have hmu := Node.mem_descendants_of_mem_children hcalls.node_mem_children hm
    exact (ih hmu).trans (hcalls.nodeScope_eq (isSound hwithin hv) hm)

/-- A node has the scope that it is visited in. -/
theorem nodeScope_eq (h : Within catalog v w) (hv : v.IsSound) :
    (v.result catalog).nodeScope[w.node.id]? = some w.scope := by
  have hw := isSound h hv
  have hself := w.node.self_mem_descendants
  rw [nodeScope_result_eq h hv hself, result_eq]
  refine Table.visitAll_induction (motive := fun u => u.nodeScope[w.node.id]? = some w.scope) ?_
    fun c hc scope u hu => ?_
  · rw [nodeScope_entered, Array.getElem?_setIfInBounds_self_of_lt (hw.id_lt w.node hself)]
  · refine (nodeScope_result_of_ne (v := ⟨some w.node, scope, u, c⟩) fun m hm => ?_).trans hu
    exact hw.distinct.ne_of_mem_children hc hm

/-- Where no scope is opened, all nodes belong to the scope of the uppermost one. -/
theorem scope_eq_of_opens? (h : Within catalog v w)
    (hv : ∀ m ∈ v.node.descendants, Table.opens? m = none) : w.scope = v.scope := by
  induction h with
  | refl => rfl
  | @tail u w hwithin hcalls ih =>
    have hopens := hv u.node (node_mem_descendants hwithin)
    have hinner : u.inner = u.scope := by rw [inner, hopens]
    obtain ⟨before, c, after, -, rfl⟩ := hcalls
    rw [← ih]
    show (if Table.isInner c then u.inner else u.scope) = u.scope
    rw [hinner, ite_self]

/-- Where nothing is bound, no scope is opened. -/
theorem scope_eq (h : Within catalog v w) (hv : BindsNothing v.node) : w.scope = v.scope :=
  scope_eq_of_opens? h fun m hm => Table.opens?_eq_none_of_not_isBinder (hv m hm)

/-- What is bound before a visit was bound at the beginning, or stems from a node that precedes
its node. -/
theorem has_table (h : Within catalog v w) (hv : v.IsSound) (he : w.table.Has e) :
    v.table.Has e ∨ ∃ m ∈ v.node.descendants, e.StemsFrom m ∧ Precedes m w.node := by
  induction h with
  | refl => exact .inl he
  | @tail u w hwithin hcalls ih =>
    have hu := isSound hwithin hv
    have hin := hu.regular.laidOut.inside w.node hcalls.node_mem_children
    rcases hcalls.has_table hu he with he | ⟨m, hm, hstems, hprec⟩
    · -- what precedes the parent precedes the child
      refine (ih he).imp_right fun ⟨m, hm, hstems, hprec⟩ => ⟨m, hm, hstems, ?_⟩
      rcases hprec with hbefore | ⟨c, hc, huc⟩
      · exact .inl (Nat.le_trans hbefore hin.1)
      · exact .inr ⟨c, hc, Node.mem_descendants_trans huc
          (Node.child_mem_descendants hcalls.node_mem_children)⟩
    · exact .inr ⟨m, Node.mem_descendants_trans (node_mem_descendants hwithin) hm, hstems, hprec⟩

end Within

/-- When a child is visited, the nodes below the children before it have the scopes that they have
in the end, and these scopes are there. -/
theorem exists_nodeScope_of_before (catalog : Catalog) {d : Node} (hv : v.IsSound)
    (hsplit : v.node.children = before ++ c :: after) (hd : d ∈ before) (hm : m ∈ d.descendants) :
    ∃ scope, (v.child catalog before c).table.nodeScope[m.id]? = some scope ∧
      scope < (v.child catalog before c).table.scopes.size ∧
      (v.result catalog).nodeScope[m.id]? = some scope := by
  obtain ⟨front, between, rfl⟩ := List.append_of_mem hd
  have hsplit' : v.node.children = front ++ d :: (between ++ c :: after) := by simpa using hsplit
  have hfirst : (v.child catalog front d).IsSound := hv.child hsplit'
  obtain ⟨w, hw, rfl⟩ := Within.exists_of_mem_descendants catalog (v.child catalog front d) hm
  have hscope := hw.nodeScope_eq hfirst
  have htable : (v.child catalog (front ++ d :: between) c).table
      = Table.visitAll catalog (some v.node) v.scope v.inner
        ((v.child catalog front d).result catalog) between := by
    simp only [child, Table.visitAll_eq_foldl, List.foldl_append, List.foldl_cons, result]
  have hsize : ((v.child catalog front d).result catalog).scopes.size
      ≤ (v.child catalog (front ++ d :: between) c).table.scopes.size := by
    have hlt := hv.lt_child catalog hsplit'
    have hle := (hfirst.grows_result catalog).size_le
    have hbetween : ∀ e ∈ between, e ∈ v.node.children := fun e he => by simp [hsplit', he]
    have hlater : ((v.child catalog front d).result catalog).Later 0
        (v.child catalog (front ++ d :: between) c).table :=
      htable ▸ Table.later_visitAll (fun e he => hv.regular.child (hbetween e he))
        (fun _ _ => .inr (Nat.zero_le _)) (Nat.lt_of_lt_of_le hlt.1 hle)
        (Nat.lt_of_lt_of_le hlt.2 hle)
    exact hlater.size_le
  have hwsound := hw.isSound hfirst
  have hwsize := Nat.le_trans (hwsound.grows_result catalog).size_le (hw.later hfirst).size_le
  refine ⟨w.scope, ?_, ?_, ?_⟩
  · rw [htable, nodeScope_visitAll_of_behind hv hsplit' (fun e he => by simp [he]) hm, hscope]
  · exact Nat.lt_of_lt_of_le hwsound.scope_lt (Nat.le_trans hwsize hsize)
  · rw [result_eq_visitAll hsplit',
      nodeScope_visitAll_of_behind hv hsplit' (fun e he => he) hm, hscope]

/-- What holds of all bindings at the beginning, and is kept where a node is entered, holds of all
bindings that a visit leaves. -/
theorem forall_has_result (v : Visit) {P : Entry → Prop} (start : ∀ e, v.table.Has e → P e)
    (step : ∀ w, Within catalog v w → (∀ e, w.table.Has e → P e) →
      ∀ e, (w.entered catalog).Has e → P e) :
    ∀ e, (v.result catalog).Has e → P e := by
  induction hn : v.node using Node.rec_children generalizing v with
  | step n ih =>
    subst hn
    -- the table behind the first children, one child after the other
    have hbehind : ∀ before after, v.node.children = before ++ after → ∀ e,
        (Table.visitAll catalog (some v.node) v.scope v.inner (v.entered catalog) before).Has e →
          P e := by
      intro before
      induction before using List.reverseRecOn with
      | nil => exact fun _ _ => step v .refl start
      | append_singleton before c ihb =>
        intro after hsplit e he
        have hsplit' : v.node.children = before ++ c :: after := by simpa using hsplit
        have hcalls : Calls catalog v (v.child catalog before c) :=
          ⟨before, c, after, hsplit', rfl⟩
        have hresult : Table.visitAll catalog (some v.node) v.scope v.inner (v.entered catalog)
            (before ++ [c]) = (v.child catalog before c).result catalog := by
          simp only [Table.visitAll_eq_foldl, List.foldl_append, List.foldl_cons, List.foldl_nil,
            result, child]
        rw [hresult] at he
        exact ih c hcalls.node_mem_children (v.child catalog before c) (ihb (c :: after) hsplit')
          (fun w hw => step w (.head hcalls hw)) rfl e he
    rw [result_eq]
    exact hbehind v.node.children [] (List.append_nil _).symm

/-! ### The whole pass -/

/-- The visit of the root. -/
def start (tree : Tree) : Visit := ⟨none, moduleScope, Table.initial tree, tree.root⟩

theorem result_start (tree : Tree) : (start tree).result catalog = Table.build tree catalog := rfl

theorem isSound_start {tree : Tree} (hreg : IsRegular tree.root) (hnum : tree.IsNumbered) :
    (start tree).IsSound where
  regular := hreg
  distinct := hnum.hasDistinctIds
  scope_lt := by simp [start, Table.initial, moduleScope]
  id_lt := fun m hm => by simpa [start, Table.initial] using hnum.id_lt_size hm

theorem exists_calls_of_parent {tree : Tree} {p : Node} (hw : Within catalog (start tree) w)
    (hp : w.parent = some p) :
    ∃ v, Within catalog (start tree) v ∧ Calls catalog v w ∧ v.node = p := by
  rcases Relation.ReflTransGen.cases_tail hw with rfl | ⟨v, hv, hcalls⟩
  · simp [start] at hp
  · refine ⟨v, hv, hcalls, ?_⟩
    obtain ⟨_, _, _, -, rfl⟩ := hcalls
    exact Option.some.inj hp

/-- A node is visited under the one that it hangs under. -/
theorem parent_eq {tree : Tree} (hnum : tree.IsNumbered) (hw : Within catalog (start tree) w) :
    w.parent = tree.parent? w.node := by
  rcases Relation.ReflTransGen.cases_tail hw with rfl | ⟨v, hv, hcalls⟩
  · exact hnum.parent?_root.symm
  · rw [hnum.parent?_of_mem_children (Within.node_mem_descendants hv) hcalls.node_mem_children]
    obtain ⟨_, _, _, -, rfl⟩ := hcalls
    rfl

theorem not_has_start (tree : Tree) (e : Entry) : ¬ (start tree).table.Has e := by
  rintro ⟨i, s, hs, he⟩
  obtain ⟨hi, rfl⟩ := Array.getElem?_eq_some_iff.mp hs
  simp [start, Table.initial] at he

end Visit

end ApiSurface.Binding
