import ApiSurface.Proofs.Binding.Recording

/-!
# What a node adds

Recording a node only puts further bindings in front of those of one scope (`Table.Adds`): it opens
no scope and moves no node. `Table.Recorded` lists what they may be, one case for each kind of
statement. In particular they stem from the node in the sense that they start and end to be visible
where the node ends or no further than a part of its header reaches (`Entry.StemsFrom`).
-/

namespace ApiSurface.Binding

open ApiSurface.Syntax (Node Tree)
open ApiSurface.Expr (stripAwait stripType)

/-- A position at which the binding starts or ends to be visible. -/
def Entry.IsBoundary (e : Entry) (b : Nat) : Prop := b = e.visibleFrom ∨ e.visibleUntil = some b

/-- The binding starts and ends to be visible where the node ends, or no further than a part of the
header of the node reaches. -/
def Entry.StemsFrom (e : Entry) (n : Node) : Prop :=
  ∀ b, e.IsBoundary b → b = n.endByte ∨ ∃ p ∈ bindingParts n, b ≤ p.endByte

namespace Table

variable {t t' t'' : Table} {catalog : Catalog} {parent : Option Node} {n : Node} {scope : Nat}
  {P Q : Entry → Prop}

/-- The table with further bindings in front of those of a scope. -/
def push (t : Table) (scope : Nat) (added : List Entry) : Table :=
  { t with scopes := t.scopes.modify scope fun s => { s with entries := added ++ s.entries } }

theorem getElem?_push {s : Scope} {added : List Entry} (hs : t.scopes[scope]? = some s) :
    (t.push scope added).scopes[scope]? = some { s with entries := added ++ s.entries } := by
  simp only [push, Array.getElem?_modify, if_pos, hs, Option.map_some]

theorem getElem?_openScope (t : Table) (kind : ScopeKind) (scope : Nat) (n : Node) :
    (t.openScope kind scope n).scopes[t.scopes.size]? = some ⟨kind, some scope, n, []⟩ := by
  simp [openScope]

theorem push_nil (t : Table) (scope : Nat) : t.push scope [] = t := by
  have hscopes : t.scopes.modify scope (fun s => { s with entries := [] ++ s.entries })
      = t.scopes := by
    refine Array.ext_getElem? fun i => ?_
    rw [Array.getElem?_modify]
    split <;> simp
  rw [push, hscopes]

theorem push_push (t : Table) (scope : Nat) (old new : List Entry) :
    (t.push scope old).push scope new = t.push scope (new ++ old) := by
  have hscopes : (t.push scope old).scopes.modify scope
      (fun s => { s with entries := new ++ s.entries })
      = (t.push scope (new ++ old)).scopes := by
    refine Array.ext_getElem? fun i => ?_
    simp only [push, Array.getElem?_modify]
    split <;> simp [Function.comp_def]
  rw [push, hscopes]
  rfl

/-- The second table is the first one with further bindings of a kind in one scope. -/
def Adds (t : Table) (scope : Nat) (P : Entry → Prop) (t' : Table) : Prop :=
  ∃ added, t' = t.push scope added ∧ ∀ e ∈ added, P e

namespace Adds

theorem refl : t.Adds scope P t := ⟨[], (t.push_nil scope).symm, by simp⟩

theorem trans (h : t.Adds scope P t') (h' : t'.Adds scope P t'') : t.Adds scope P t'' := by
  obtain ⟨old, rfl, hold⟩ := h
  obtain ⟨new, rfl, hnew⟩ := h'
  exact ⟨new ++ old, t.push_push scope old new, fun e he =>
    (List.mem_append.mp he).elim (hnew e) (hold e)⟩

theorem mono (h : t.Adds scope P t') (hPQ : ∀ e, P e → Q e) : t.Adds scope Q t' := by
  obtain ⟨added, rfl, hadded⟩ := h
  exact ⟨added, rfl, fun e he => hPQ e (hadded e he)⟩

theorem foldl {α : Type} {f : Table → α → Table} {l : List α} {t : Table}
    (hstep : ∀ x ∈ l, ∀ t, Adds t scope P (f t x)) : t.Adds scope P (l.foldl f t) := by
  induction l generalizing t with
  | nil => exact refl
  | cons x l ih =>
    rw [List.foldl_cons]
    exact (hstep x List.mem_cons_self t).trans
      (ih fun y hy => hstep y (List.mem_cons_of_mem x hy))

theorem nodeScope_eq (h : t.Adds scope P t') : t'.nodeScope = t.nodeScope := by
  obtain ⟨_, rfl, -⟩ := h
  rfl

theorem size_eq (h : t.Adds scope P t') : t'.scopes.size = t.scopes.size := by
  obtain ⟨_, rfl, -⟩ := h
  exact Array.size_modify ..

end Adds

theorem adds_bind {name : String} {pos : Nat} {last : Option Nat} {bound : Bound}
    (h : P ⟨name, pos, last, bound⟩) : t.Adds scope P (t.bind scope name pos last bound) :=
  ⟨[⟨name, pos, last, bound⟩], rfl, by simpa using h⟩

/-! ### Statements -/

/-- What recording a node may bind. -/
inductive Recorded (t : Table) (catalog : Catalog) (parent : Option Node) (n : Node)
    (scope : Nat) : Entry → Prop
  | imported (name : String) (i : Import) :
    Recorded t catalog parent n scope ⟨name, n.endByte, none, .imported i⟩
  | declared {left right : Node} (hk : n.kind = "assignment")
    (hleft : n.childByField? "left" = some left) (hright : assignedValue? n = some right)
    (hexplicit : isExplicitAlias n = true) :
    Recorded t catalog parent n scope ⟨left.text, n.endByte, none, .typeAlias ⟨right, false⟩⟩
  | assigned {left right : Node} (hk : n.kind = "assignment")
    (hleft : n.childByField? "left" = some left) (hright : assignedValue? n = some right)
    (hexplicit : isExplicitAlias n = false) :
    Recorded t catalog parent n scope ⟨left.text, n.endByte, none,
      t.boundToValue catalog left.text (stripAwait right) n scope⟩
  /-- A name in the target of an assignment that is no name. -/
  | unpacked (name : String) (v : Value) :
    Recorded t catalog parent n scope ⟨name, n.endByte, none, .value v⟩
  /-- A call in an item is looked up behind the items before it. -/
  | itemCall {item expr target : Node} (u : Table) (hk : n.kind = "with_statement")
    (hitem : item ∈ withItemsAll n.children) (hparts : withParts? item = some (expr, target)) :
    Recorded t catalog parent n scope ⟨target.text, item.endByte, some n.endByte,
      asScoped (u.boundToCall catalog target.text (stripAwait expr) item scope)⟩
  | itemValue {item : Node} (name : String) (v : Value) (hk : n.kind = "with_statement")
    (hitem : item ∈ withItemsAll n.children) :
    Recorded t catalog parent n scope ⟨name, item.endByte, some n.endByte, .value v⟩
  | loopTarget {left : Node} (name : String) (v : Value) (hk : n.kind = "for_statement")
    (hleft : n.childByField? "left" = some left) :
    Recorded t catalog parent n scope ⟨name, left.endByte, none, .value v⟩
  | typeStatement {left right : Node} (hright : n.namedChildren.getLast? = some right) :
    Recorded t catalog parent n scope
      ⟨(stripType left).text, n.endByte, none, .typeAlias ⟨right, false⟩⟩
  | definition {name : Node} (kind : DefinitionKind) (hopens : (opens? n).isSome)
    (hname : n.childByField? "name" = some name) :
    Recorded t catalog parent n scope
      ⟨name.text, n.endByte, none, .definition ⟨kind, n, t.registrations catalog parent⟩⟩

theorem adds_shadowTargets {target : Node} {pos : Nat}
    (h : ∀ name v, P ⟨name, pos, none, .value v⟩) :
    t.Adds scope P (t.shadowTargets target scope pos) :=
  .foldl fun _ _ _ => adds_bind (h _ _)

theorem adds_recordImport :
    t.Adds scope (t.Recorded catalog parent n scope) (t.recordImport n scope) := by
  refine .foldl fun item _ u => ?_
  split
  · exact adds_bind (.imported _ _)
  · split
    · exact adds_bind (.imported _ _)
    · exact .refl
  · exact .refl

theorem adds_recordImportFrom :
    t.Adds scope (t.Recorded catalog parent n scope) (t.recordImportFrom n scope) := by
  rw [recordImportFrom]
  split
  · exact .refl
  · refine .foldl fun item _ u => ?_
    split
    · exact adds_bind (.imported _ _)
    · exact .refl

theorem adds_recordTypeStatement :
    t.Adds scope (t.Recorded catalog parent n scope) (t.recordTypeStatement n scope) := by
  rw [recordTypeStatement]
  split
  · next hright => exact adds_bind (.typeStatement hright)
  · exact .refl

theorem adds_recordAssignment (hk : n.kind = "assignment") :
    t.Adds scope (t.Recorded catalog parent n scope) (t.recordAssignment catalog n scope) := by
  rw [recordAssignment]
  split
  · exact .refl
  · next left hleft =>
    split
    · split
      · exact .refl
      · next right hright =>
        cases hexplicit : isExplicitAlias n with
        | true => exact adds_bind (.declared hk hleft hright hexplicit)
        | false => exact adds_bind (.assigned hk hleft hright hexplicit)
    · split
      · exact .refl
      · exact adds_shadowTargets .unpacked

theorem adds_recordDefinition {kind : DefinitionKind} (hopens : (opens? n).isSome) :
    t.Adds scope (t.Recorded catalog parent n scope)
      (t.recordDefinition catalog parent n scope kind) := by
  rw [recordDefinition]
  split
  · next name hname => exact adds_bind (.definition kind hopens hname)
  · exact .refl

theorem adds_recordWith (hk : n.kind = "with_statement") :
    t.Adds scope (t.Recorded catalog parent n scope) (t.recordWith catalog n scope) := by
  refine .foldl fun item hitem u => ?_
  split
  · exact .refl
  · next expr target hparts =>
    split
    · dsimp only
      split
      · exact adds_bind (.itemCall u hk hitem hparts)
      · exact adds_bind (.itemValue _ _ hk hitem)
    · exact .refl

/-- Recording a node binds nothing else. -/
theorem adds_record :
    t.Adds scope (t.Recorded catalog parent n scope) (t.record catalog parent n scope) := by
  rw [record]
  split
  · exact adds_recordImport
  · exact adds_recordImportFrom
  · next hk => exact adds_recordAssignment hk
  · next hk => exact adds_recordWith hk
  · next hk =>
    split
    · next left hleft => exact adds_shadowTargets fun name v => .loopTarget name v hk hleft
    · exact .refl
  · exact adds_recordTypeStatement
  · next hk => exact adds_recordDefinition (by simp [opens?, hk])
  · next hk => exact adds_recordDefinition (by simp [opens?, hk])
  · exact .refl

/-- What recording a node binds stems from the node. -/
theorem Recorded.stemsFrom {e : Entry} (h : t.Recorded catalog parent n scope e) :
    e.StemsFrom n := by
  have hend : ∀ name bound, Entry.StemsFrom ⟨name, n.endByte, none, bound⟩ n := by
    rintro name bound b (rfl | hb)
    · exact .inl rfl
    · simp at hb
  have hitem : ∀ item name bound, n.kind = "with_statement" → item ∈ withItemsAll n.children →
      Entry.StemsFrom ⟨name, item.endByte, some n.endByte, bound⟩ n := by
    rintro item name bound hk hmem b (rfl | hb)
    · exact .inr ⟨item, by simpa only [bindingParts, hk] using hmem, Nat.le_refl _⟩
    · exact .inl (Option.some.inj hb).symm
  cases h with
  | imported | declared | assigned | unpacked | typeStatement | definition => exact hend _ _
  | itemCall u hk hmem => exact hitem _ _ _ hk hmem
  | itemValue name v hk hmem => exact hitem _ _ _ hk hmem
  | @loopTarget left name v hk hleft =>
    rintro b (rfl | hb)
    · exact .inr ⟨left, by simp [bindingParts, hk, hleft], Nat.le_refl _⟩
    · simp at hb

/-! ### Parameters -/

/-- The names of the parameters of a function. -/
def parameterNames (function : Node) : List String :=
  match function.childByField? "parameters" with
  | some list => (list.namedChildren.filterMap parameterParts?).map (·.1.text)
  | none => []

/-- The binding of a parameter, which is visible from the start of the list of parameters on. -/
structure IsParameterEntry (function : Node) (e : Entry) : Prop where
  visible : ∃ list, function.childByField? "parameters" = some list ∧ e.visibleFrom = list.startByte
  endless : e.visibleUntil = none
  isParameter : ∃ p, e.bound = .parameter p

/-- The parameters of a function are bound one after the other. -/
theorem exists_bindParameters_eq (t : Table) (catalog : Catalog) (function : Node)
    (scope outer : Nat) :
    ∃ added, t.bindParameters catalog function scope outer = t.push scope added ∧
      (∀ e ∈ added, IsParameterEntry function e) ∧
      added.map (·.name) = (parameterNames function).reverse := by
  rw [bindParameters, parameterNames]
  cases hlist : function.childByField? "parameters" with
  | none => exact ⟨[], (t.push_nil scope).symm, by simp, rfl⟩
  | some list =>
    dsimp only
    generalize list.namedChildren = params
    induction params generalizing t with
    | nil => exact ⟨[], (t.push_nil scope).symm, by simp, rfl⟩
    | cons param params ih =>
      rw [List.foldl_cons, List.filterMap_cons]
      cases parameterParts? param with
      | none => exact ih t
      | some parts =>
        obtain ⟨name, hint⟩ := parts
        obtain ⟨added, heq, hadded, hnames⟩ := ih (t.bind scope name.text list.startByte none _)
        refine ⟨added ++ [_], heq.trans (t.push_push scope [_] added), fun e he => ?_, ?_⟩
        · rcases List.mem_append.mp he with he | he
          · exact hadded e he
          · obtain rfl := List.mem_singleton.mp he
            exact ⟨⟨list, hlist, rfl⟩, rfl, _, rfl⟩
        · simp [hnames]

theorem adds_bindParameters {function : Node} {outer : Nat} :
    t.Adds scope (IsParameterEntry function) (t.bindParameters catalog function scope outer) := by
  obtain ⟨added, heq, hadded, -⟩ := exists_bindParameters_eq t catalog function scope outer
  exact ⟨added, heq, hadded⟩

end Table

end ApiSurface.Binding
