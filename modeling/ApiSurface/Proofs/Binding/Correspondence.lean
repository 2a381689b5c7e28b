import Mathlib.Data.List.Forall2
import ApiSurface.Proofs.Binding.Chronology

/-!
# Tables of two catalogs

Two passes over one tree, each with its own catalog, bind the same names at the same places to the
same things (`Table.matches_build`). What a catalog decides is only the role of a value or a
parameter, which is the role of its callee or class, and which decorators of a definition are kept.

So whatever does not ask for roles has one answer in both tables: paths, types and definitions.
-/

namespace ApiSurface.Binding

open ApiSurface.Syntax (Node Tree)
open ApiSurface.Expr (stripAwait)

variable {c c' : Catalog}

/-- Related options are both empty, or hold related elements. -/
theorem cases_of_rel {α β : Type} {R : α → β → Prop} {x : Option α} {y : Option β}
    (h : Option.Rel R x y) : (x = none ∧ y = none) ∨ ∃ a b, x = some a ∧ y = some b ∧ R a b := by
  cases h with
  | none => exact .inl ⟨rfl, rfl⟩
  | some h => exact .inr ⟨_, _, rfl, rfl, h⟩

/-! ### Corresponding bindings -/

/-- A value with the role that a catalog gives its callee. -/
def Value.under (v : Value) (c : Catalog) : Value :=
  { v with role := v.callee.bind c.constructorRole? }

/-- A parameter with the role that a catalog gives its class. -/
def Parameter.under (p : Parameter) (c : Catalog) : Parameter :=
  { p with role := p.hintPath.bind c.constructorRole? }

/-- What two catalogs bind a name to at one place. -/
inductive Bound.Matches (c c' : Catalog) : Bound → Bound → Prop
  | imported (i : Import) : Matches c c' (.imported i) (.imported i)
  | value (v : Value) : Matches c c' (.value (v.under c)) (.value (v.under c'))
  | parameter (p : Parameter) : Matches c c' (.parameter (p.under c)) (.parameter (p.under c'))
  | typeAlias (a : TypeAlias) : Matches c c' (.typeAlias a) (.typeAlias a)
  | definition (kind : DefinitionKind) (n : Node) (kept kept' : List Node) :
    Matches c c' (.definition ⟨kind, n, kept⟩) (.definition ⟨kind, n, kept'⟩)

structure Entry.Matches (c c' : Catalog) (e e' : Entry) : Prop where
  name_eq : e.name = e'.name
  visibleFrom_eq : e.visibleFrom = e'.visibleFrom
  visibleUntil_eq : e.visibleUntil = e'.visibleUntil
  bound : e.bound.Matches c c' e'.bound

structure Scope.Matches (c c' : Catalog) (s s' : Scope) : Prop where
  kind_eq : s.kind = s'.kind
  parent_eq : s.parent = s'.parent
  node_eq : s.node = s'.node
  entries : List.Forall₂ (Entry.Matches c c') s.entries s'.entries

/-- The tables of two catalogs: the same scopes with the same names. -/
structure Table.Matches (c c' : Catalog) (t t' : Table) : Prop where
  nodeScope_eq : t.nodeScope = t'.nodeScope
  size_eq : t.scopes.size = t'.scopes.size
  scopes : ∀ i : Nat, Option.Rel (Scope.Matches c c') t.scopes[i]? t'.scopes[i]?

theorem Entry.Matches.visibleAt_eq {e e' : Entry} (h : e.Matches c c' e') (pos : Nat) :
    e.visibleAt pos = e'.visibleAt pos := by
  rw [visibleAt, visibleAt, h.visibleFrom_eq, h.visibleUntil_eq]

theorem Scope.Matches.find? {s s' : Scope} (hs : s.Matches c c' s') (name : String) (pos : Nat) :
    Option.Rel (Bound.Matches c c') (s.find? name pos) (s'.find? name pos) := by
  rw [Scope.find?, Scope.find?]
  have h := hs.entries
  generalize s.entries = l at h ⊢
  generalize s'.entries = l' at h ⊢
  induction h with
  | nil => exact .none
  | @cons e e' l l' he _ ih =>
    rw [List.find?_cons, List.find?_cons, he.name_eq, he.visibleAt_eq pos]
    cases e'.name == name && e'.visibleAt pos with
    | true => exact .some he.bound
    | false => exact ih

namespace Table

variable {t t' : Table} {b b' : Bound} {parent : Option Node} {n : Node} {name : String}
  {scope inner pos : Nat}

namespace Matches

/-! ### Look-ups -/

theorem scopeOf_eq (h : t.Matches c c' t') (n : Node) : t.scopeOf n = t'.scopeOf n := by
  rw [scopeOf, scopeOf, h.nodeScope_eq]

theorem scopeNode?_eq (h : t.Matches c c' t') (i : Nat) : t.scopeNode? i = t'.scopeNode? i := by
  rw [scopeNode?, scopeNode?]
  rcases cases_of_rel (h.scopes i) with ⟨hs, hs'⟩ | ⟨s, s', hs, hs', hss⟩ <;> rw [hs, hs']
  exact congrArg some hss.node_eq

theorem findFrom (h : t.Matches c c' t') (name : String) (pos start i : Nat) :
    Option.Rel (Bound.Matches c c') (t.findFrom name pos start i)
      (t'.findFrom name pos start i) := by
  induction i using Nat.strongRecOn with
  | ind i ih =>
    rw [Table.findFrom, Table.findFrom]
    rcases cases_of_rel (h.scopes i) with ⟨hs, hs'⟩ | ⟨s, s', hs, hs', hss⟩ <;> rw [hs, hs']
    · exact .none
    · have hown : Option.Rel (Bound.Matches c c')
          (if sees start i s then s.find? name pos else none)
          (if sees start i s' then s'.find? name pos else none) := by
        rw [sees, sees, hss.kind_eq]
        split
        · exact hss.find? name pos
        · exact .none
      dsimp only
      rcases cases_of_rel hown with ⟨ho, ho'⟩ | ⟨b, b', ho, ho', hb⟩ <;> rw [ho, ho']
      · rw [hss.parent_eq]
        cases s'.parent with
        | none => exact .none
        | some p =>
          dsimp only
          split
          · next hlt => exact ih p hlt
          · exact .none
      · exact .some hb

theorem lookupAt (h : t.Matches c c' t') (name : String) (scope pos : Nat) :
    Option.Rel (Bound.Matches c c') (t.lookupAt name scope pos) (t'.lookupAt name scope pos) :=
  h.findFrom name pos scope scope

theorem lookup (h : t.Matches c c' t') (name : String) (site : Node) :
    Option.Rel (Bound.Matches c c') (t.lookup name site) (t'.lookup name site) := by
  rw [Table.lookup, Table.lookup, h.scopeOf_eq]
  exact h.lookupAt name _ _

/-! ### Paths and types -/

theorem headPath?_eq (h : t.Matches c c' t') (name : String) (scope pos : Nat) :
    t.headPath? name scope pos = t'.headPath? name scope pos := by
  rw [headPath?, headPath?]
  rcases cases_of_rel (h.lookupAt name scope pos) with ⟨hl, hl'⟩ | ⟨b, b', hl, hl', hb⟩ <;>
    rw [hl, hl']
  cases hb <;> rfl

theorem qualifyAt_eq (h : t.Matches c c' t') (n : Node) (scope pos : Nat) :
    t.qualifyAt n scope pos = t'.qualifyAt n scope pos := by
  simp only [qualifyAt, h.headPath?_eq]

theorem qualify_eq (h : t.Matches c c' t') (n : Node) : t.qualify n = t'.qualify n := by
  rw [qualify, qualify, h.scopeOf_eq, h.qualifyAt_eq]

theorem looksLikeType_eq (h : t.Matches c c' t') (scope : Nat) (n : Node) :
    t.looksLikeType scope n = t'.looksLikeType scope n := by
  induction n using Node.rec_children with
  | step n ih =>
    rw [looksLikeType, looksLikeType]
    simp only [h.qualifyAt_eq]
    split
    · rfl
    · rfl
    · congr 1
      · congr 1
        split
        · next l hl => rw [ih l (List.mem_of_find?_eq_some hl)]
        · rfl
      · split
        · next r hr => rw [ih r (List.mem_of_find?_eq_some hr)]
        · rfl
    · rfl

theorem hintPath?_eq (h : t.Matches c c' t') (hint : Node) (scope : Nat) :
    t.hintPath? hint scope = t'.hintPath? hint scope := by
  simp only [hintPath?, stripOptional, h.qualifyAt_eq]

/-- The function or class that a name refers to is the same node. -/
theorem definition?_map_node (h : t.Matches c c' t') (name : String) (site : Node) :
    (t.definition? name site).map (·.node) = (t'.definition? name site).map (·.node) := by
  rw [definition?, definition?]
  rcases cases_of_rel (h.lookup name site) with ⟨hl, hl'⟩ | ⟨b, b', hl, hl', hb⟩ <;> rw [hl, hl']
  cases hb <;> rfl

/-! ### Recording -/

theorem bind (h : t.Matches c c' t') (hb : b.Matches c c' b') (scope : Nat) (name : String)
    (pos : Nat) (last : Option Nat) :
    (t.bind scope name pos last b).Matches c c' (t'.bind scope name pos last b') where
  nodeScope_eq := h.nodeScope_eq
  size_eq := by simpa only [Table.bind, Array.size_modify] using h.size_eq
  scopes i := by
    simp only [Table.bind, Array.getElem?_modify]
    split
    · rcases cases_of_rel (h.scopes i) with ⟨hs, hs'⟩ | ⟨s, s', hs, hs', hss⟩ <;> rw [hs, hs']
      · exact .none
      · exact .some
          ⟨hss.kind_eq, hss.parent_eq, hss.node_eq, .cons ⟨rfl, rfl, rfl, hb⟩ hss.entries⟩
    · exact h.scopes i

theorem place (h : t.Matches c c' t') (n : Node) (scope : Nat) :
    (t.place n scope).Matches c c' (t'.place n scope) where
  nodeScope_eq := by rw [Table.place, Table.place, h.nodeScope_eq]
  size_eq := h.size_eq
  scopes := h.scopes

theorem openScope (h : t.Matches c c' t') (kind : ScopeKind) (parent : Nat) (n : Node) :
    (t.openScope kind parent n).Matches c c' (t'.openScope kind parent n) where
  nodeScope_eq := h.nodeScope_eq
  size_eq := by
    simpa only [Table.openScope, Array.size_push, Nat.add_right_cancel_iff] using h.size_eq
  scopes i := by
    simp only [Table.openScope, Array.getElem?_push, h.size_eq]
    split
    · exact .some ⟨rfl, rfl, rfl, .nil⟩
    · exact h.scopes i

end Matches

theorem matches_plainValue (name : String) (value statement : Node) :
    (plainValue name value statement).Matches c c' (plainValue name value statement) :=
  .value ⟨name, none, none, value, statement, false⟩

theorem matches_asScoped (hb : b.Matches c c' b') : (asScoped b).Matches c c' (asScoped b') := by
  cases hb with
  | imported => exact .imported _
  | value v => exact .value { v with isScoped := true }
  | parameter => exact .parameter _
  | typeAlias => exact .typeAlias _
  | definition => exact .definition _ _ _ _

namespace Matches

theorem boundToCall (h : t.Matches c c' t') (name : String) (call statement : Node) (scope : Nat) :
    (t.boundToCall c name call statement scope).Matches c c'
      (t'.boundToCall c' name call statement scope) := by
  simp only [Table.boundToCall, h.qualifyAt_eq]
  have hvalue : ∀ callee : Option String, Bound.Matches c c'
      (.value ⟨name, callee, callee.bind c.constructorRole?, call, statement, false⟩)
      (.value ⟨name, callee, callee.bind c'.constructorRole?, call, statement, false⟩) :=
    fun callee => .value ⟨name, callee, none, call, statement, false⟩
  split
  · split
    · split
      · exact .typeAlias _
      · exact hvalue _
    · exact hvalue _
  · exact hvalue _

theorem boundToValue (h : t.Matches c c' t') (name : String) (value statement : Node)
    (scope : Nat) : (t.boundToValue c name value statement scope).Matches c c'
      (t'.boundToValue c' name value statement scope) := by
  have hplain : (plainValue name value statement).Matches c c' (plainValue name value statement) :=
    matches_plainValue name value statement
  have htype : Bound.Matches c c'
      (if t.looksLikeType scope value then .typeAlias ⟨value, false⟩
        else plainValue name value statement)
      (if t'.looksLikeType scope value then .typeAlias ⟨value, false⟩
        else plainValue name value statement) := by
    rw [h.looksLikeType_eq]
    split
    · exact .typeAlias _
    · exact hplain
  rw [Table.boundToValue, Table.boundToValue]
  split
  · exact h.boundToCall name value statement scope
  · rcases cases_of_rel (h.lookupAt value.text scope value.startByte) with
      ⟨hl, hl'⟩ | ⟨b, b', hl, hl', hb⟩ <;> rw [hl, hl']
    · exact hplain
    · cases hb with
      | imported i => exact .imported i
      | value v => exact .value { v with variableName := name, declaredAt := statement }
      | parameter => exact hplain
      | typeAlias a => exact .typeAlias a
      | definition => exact hplain
  · exact htype
  · exact htype
  · exact htype
  · exact hplain

theorem shadowTargets (h : t.Matches c c' t') (target : Node) (scope pos : Nat) :
    (t.shadowTargets target scope pos).Matches c c' (t'.shadowTargets target scope pos) :=
  List.foldl_rel h fun _ _ _ _ h => h.bind (matches_plainValue _ _ _) _ _ _ _

theorem recordImport (h : t.Matches c c' t') (n : Node) (scope : Nat) :
    (t.recordImport n scope).Matches c c' (t'.recordImport n scope) := by
  refine List.foldl_rel h fun item _ u u' h => ?_
  split
  · exact h.bind (.imported _) _ _ _ _
  · split
    · exact h.bind (.imported _) _ _ _ _
    · exact h
  · exact h

theorem recordImportFrom (h : t.Matches c c' t') (n : Node) (scope : Nat) :
    (t.recordImportFrom n scope).Matches c c' (t'.recordImportFrom n scope) := by
  rw [Table.recordImportFrom, Table.recordImportFrom]
  split
  · exact h
  · refine List.foldl_rel h fun item _ u u' h => ?_
    split
    · exact h.bind (.imported _) _ _ _ _
    · exact h

theorem recordAssignment (h : t.Matches c c' t') (n : Node) (scope : Nat) :
    (t.recordAssignment c n scope).Matches c c' (t'.recordAssignment c' n scope) := by
  rw [Table.recordAssignment, Table.recordAssignment]
  split
  · exact h
  · next left _ =>
    split
    · split
      · exact h
      · refine h.bind ?_ _ _ _ _
        split
        · exact .typeAlias _
        · exact h.boundToValue _ _ _ _
    · split
      · exact h
      · exact h.shadowTargets left scope _

theorem recordWith (h : t.Matches c c' t') (n : Node) (scope : Nat) :
    (t.recordWith c n scope).Matches c c' (t'.recordWith c' n scope) := by
  refine List.foldl_rel h fun item _ u u' h => ?_
  split
  · exact h
  · split
    · refine h.bind ?_ _ _ _ _
      split
      · exact matches_asScoped (h.boundToCall _ _ _ _)
      · exact matches_plainValue _ _ _
    · exact h

theorem recordTypeStatement (h : t.Matches c c' t') (n : Node) (scope : Nat) :
    (t.recordTypeStatement n scope).Matches c c' (t'.recordTypeStatement n scope) := by
  rw [Table.recordTypeStatement, Table.recordTypeStatement]
  split
  · exact h.bind (.typeAlias _) _ _ _ _
  · exact h

theorem recordDefinition (h : t.Matches c c' t') (parent : Option Node) (n : Node) (scope : Nat)
    (kind : DefinitionKind) : (t.recordDefinition c parent n scope kind).Matches c c'
      (t'.recordDefinition c' parent n scope kind) := by
  rw [Table.recordDefinition, Table.recordDefinition]
  split
  · exact h.bind (.definition _ _ _ _) _ _ _ _
  · exact h

/-- **One node** is recorded alike. -/
theorem record (h : t.Matches c c' t') (parent : Option Node) (n : Node) (scope : Nat) :
    (t.record c parent n scope).Matches c c' (t'.record c' parent n scope) := by
  rw [Table.record, Table.record]
  split
  · exact h.recordImport n scope
  · exact h.recordImportFrom n scope
  · exact h.recordAssignment n scope
  · exact h.recordWith n scope
  · split
    · exact h.shadowTargets _ _ _
    · exact h
  · exact h.recordTypeStatement n scope
  · exact h.recordDefinition parent n scope _
  · exact h.recordDefinition parent n scope _
  · exact h

theorem bindParameters (h : t.Matches c c' t') (function : Node) (scope outer : Nat) :
    (t.bindParameters c function scope outer).Matches c c'
      (t'.bindParameters c' function scope outer) := by
  rw [Table.bindParameters, Table.bindParameters]
  split
  · exact h
  · refine List.foldl_rel h fun param _ u u' h => ?_
    split
    · exact h
    · next name hint _ =>
      have hpath : (hint.bind fun a => u.hintPath? a outer)
          = hint.bind fun a => u'.hintPath? a outer := by simp only [h.hintPath?_eq]
      dsimp only
      rw [hpath]
      exact h.bind (.parameter ⟨function, param, hint, _, none⟩) _ _ _ _

theorem enter (h : t.Matches c c' t') (kind : ScopeKind) (scope : Nat) (n : Node) :
    (t.enter c kind scope n).Matches c c' (t'.enter c' kind scope n) := by
  rw [Table.enter, Table.enter, h.size_eq]
  split
  · exact (h.openScope kind scope n).bindParameters n _ scope
  · exact h.openScope kind scope n

/-! ### The pass -/

/-- A visit keeps tables alike. -/
theorem visit (h : t.Matches c c' t') (parent : Option Node) (scope : Nat) (n : Node) :
    (visit c parent scope t n).Matches c c' (visit c' parent scope t' n) := by
  induction n using Node.rec_children generalizing t t' parent scope with
  | step n ih =>
    have hrecorded := (h.place n scope).record parent n scope
    have hchildren : ∀ {u u' : Table} (inner : Nat), u.Matches c c' u' →
        (visitAll c (some n) scope inner u n.children).Matches c c'
          (visitAll c' (some n) scope inner u' n.children) := by
      intro u u' inner hu
      rw [visitAll_eq_foldl, visitAll_eq_foldl]
      exact List.foldl_rel hu fun d hd _ _ hu => ih d hd hu _ _
    cases hopens : opens? n with
    | none =>
      rw [visit_of_opens?_eq_none hopens, visit_of_opens?_eq_none hopens]
      exact hchildren scope hrecorded
    | some kind =>
      rw [visit_of_opens? hopens, visit_of_opens? hopens]
      dsimp only
      rw [hrecorded.size_eq]
      exact hchildren _ (hrecorded.enter kind scope n)

end Matches

theorem matches_initial (tree : Tree) : (initial tree).Matches c c' (initial tree) where
  nodeScope_eq := rfl
  size_eq := rfl
  scopes i := by
    cases h : (initial tree).scopes[i]? with
    | none => exact .none
    | some s =>
      have hs : s.entries = [] := by
        obtain ⟨hi, rfl⟩ := Array.getElem?_eq_some_iff.mp h
        simp [initial]
      exact .some ⟨rfl, rfl, rfl, hs ▸ .nil⟩

/-- **Two catalogs bind the same names** at the same places to the same things. -/
theorem matches_build (tree : Tree) (c c' : Catalog) :
    (build tree c).Matches c c' (build tree c') :=
  (matches_initial tree).visit none moduleScope tree.root

end Table

end ApiSurface.Binding
