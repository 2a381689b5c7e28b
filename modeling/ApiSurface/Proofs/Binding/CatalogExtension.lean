import ApiSurface.Proofs.Binding.Correspondence
import ApiSurface.Proofs.Project.Sorting

/-!
# Larger catalogs

A catalog extends another one when it gives every constructor and module of that one the same
meaning. Entries of a project extend the built-in tables when none of them is for a name that the
tables have (`Catalog.KeepsBuiltin`).

An expression denotes an object for the smaller catalog exactly when the larger one finds an object
there whose constructor the smaller one knows, and it is the same object
(`Table.Matches.resolve?_eq_filter`). So it is with the bindings that have roles
(`Table.Matches.roleValues_eq_filter`).
-/

namespace ApiSurface

namespace Catalog

/-- The second catalog knows all that the first one knows. -/
structure Extends (c c' : Catalog) : Prop where
  constructors : ∀ path role, c.constructorRole? path = some role →
    c'.constructorRole? path = some role
  httpModules : ∀ module library, c.httpModule? module = some library →
    c'.httpModule? module = some library

/-- No added constructor or module of requests has a name that the built-in tables have. -/
structure KeepsBuiltin (c : Catalog) : Prop where
  constructors : ∀ e ∈ c.addedConstructors, find? Catalog.constructors e.1 = none
  httpModules : ∀ e ∈ c.addedHttpModules, find? Catalog.httpModules e.1 = none

instance (c : Catalog) : Decidable c.KeepsBuiltin :=
  decidable_of_iff ((∀ e ∈ c.addedConstructors, find? Catalog.constructors e.1 = none) ∧
    ∀ e ∈ c.addedHttpModules, find? Catalog.httpModules e.1 = none)
    ⟨fun ⟨h₁, h₂⟩ => ⟨h₁, h₂⟩, fun h => ⟨h.constructors, h.httpModules⟩⟩

/-- A table answers for the names that further entries in front of it leave to it. -/
theorem find?_or_eq_some {α : Type} {added table : List (String × α)} {name : String} {a : α}
    (hadded : ∀ e ∈ added, find? table e.1 = none) (h : find? table name = some a) :
    (find? added name <|> find? table name) = some a := by
  have hnone : find? added name = none := by
    refine Option.map_eq_none_iff.mpr (List.find?_eq_none.mpr fun e he hname => ?_)
    obtain rfl := beq_iff_eq.mp hname
    simp [hadded e he] at h
  rw [hnone, h]
  rfl

theorem KeepsBuiltin.extends {c : Catalog} (h : c.KeepsBuiltin) : builtin.Extends c where
  constructors _ _ hrole := find?_or_eq_some h.constructors hrole
  httpModules _ _ hlibrary := find?_or_eq_some h.httpModules hlibrary

end Catalog

namespace Binding

open ApiSurface.Syntax (Node Tree)
open ApiSurface.Catalog (Role)
open ApiSurface.Expr (stripAwait)
open ApiSurface.Project (IsSortable)

variable {c c' : Catalog} {t t' : Table}

/-- Whether the catalog gives the path a role. -/
def knows (c : Catalog) (path : String) : Bool := (c.constructorRole? path).isSome

/-- What is made of the role of a path, when it has one. -/
def made {α : Type} (c : Catalog) (path : Option String) (make : Role → String → α) : Option α :=
  path.bind fun p => (c.constructorRole? p).map fun role => make role p

/-- What the smaller catalog makes is what the larger one makes of paths that the smaller one
knows. -/
theorem made_eq_filter {α : Type} (hc : c.Extends c') (path : Option String)
    (make : Role → String → α) {q : α → Bool} (hq : ∀ role p, q (make role p) = knows c p) :
    made c path make = (made c' path make).filter q := by
  cases path with
  | none => rfl
  | some p =>
    rw [made, made, Option.bind_some, Option.bind_some]
    cases hrole : c.constructorRole? p with
    | some role =>
      have hknows : knows c p := by simp [knows, hrole]
      simp [hc.constructors p role hrole, Option.filter_some, hq, hknows]
    | none =>
      have hknows : knows c p = false := by simp [knows, hrole]
      cases c'.constructorRole? p <;> simp [Option.filter_some, hq, hknows]

namespace Table

/-! ### Objects -/

theorem instanceOfValue?_under (c : Catalog) (v : Value) :
    instanceOfValue? (v.under c) = made c v.callee fun role callee =>
      ⟨role, some v.variableName, callee, some v.origin, v.declaredAt, v.isScoped⟩ := by
  simp only [instanceOfValue?, Value.under, made]
  cases v.callee with
  | none => rfl
  | some callee =>
    simp only [Option.bind_eq_bind, Option.bind_some]
    cases c.constructorRole? callee <;> rfl

theorem instanceOfParameter?_under (c : Catalog) (name : String) (p : Parameter) :
    instanceOfParameter? name (p.under c) = made c p.hintPath fun role path =>
      ⟨role, some name, path, none, p.parameter, false⟩ := by
  simp only [instanceOfParameter?, Parameter.under, made]
  cases p.hintPath with
  | none => rfl
  | some path =>
    simp only [Option.bind_eq_bind, Option.bind_some]
    cases c.constructorRole? path <;> rfl

theorem resolve?_of_call (t : Table) (c : Catalog) {n : Node} (hk : (stripAwait n).kind = "call") :
    t.resolve? c n = made c (((stripAwait n).childByField? "function").bind t.qualify)
      fun role callee => ⟨role, none, callee, some (stripAwait n), stripAwait n, false⟩ := by
  rw [resolve?, if_neg (by simp [hk]), if_pos hk, made]
  cases (stripAwait n).childByField? "function" with
  | none => rfl
  | some function =>
    simp only [Option.bind_eq_bind, Option.bind_some]
    cases t.qualify function with
    | none => rfl
    | some callee =>
      simp only [Option.bind_some]
      cases c.constructorRole? callee <;> rfl

/-- **Objects of the smaller catalog** are those of the larger one whose constructors the smaller
one knows. -/
theorem Matches.resolve?_eq_filter (h : t.Matches c c' t') (hc : c.Extends c') (n : Node) :
    t.resolve? c n = (t'.resolve? c' n).filter fun i => knows c i.constructor := by
  by_cases hname : (stripAwait n).kind = "identifier"
  · rw [resolve?, if_pos hname, resolve?, if_pos hname]
    rcases cases_of_rel (h.lookup (stripAwait n).text (stripAwait n)) with
      ⟨hl, hl'⟩ | ⟨b, b', hl, hl', hb⟩ <;> rw [hl, hl']
    · rfl
    · cases hb with
      | imported | typeAlias | definition => rfl
      | value v =>
        simp only [instanceOfValue?_under]
        exact made_eq_filter hc _ _ fun _ _ => rfl
      | parameter p =>
        simp only [instanceOfParameter?_under]
        exact made_eq_filter hc _ _ fun _ _ => rfl
  · by_cases hcall : (stripAwait n).kind = "call"
    · have hqualify : t.qualify = t'.qualify := funext h.qualify_eq
      rw [resolve?_of_call t c hcall, resolve?_of_call t' c' hcall, hqualify]
      exact made_eq_filter hc _ _ fun _ _ => rfl
    · rw [resolve?, if_neg hname, if_neg hcall, resolve?, if_neg hname, if_neg hcall]
      rfl

/-! ### Bindings with roles -/

/-- Whether the catalog gives the callee of a value a role. -/
def knowsValue (c : Catalog) (v : Value) : Bool := v.callee.any (knows c)

theorem roleValue?_eq_made {e : Entry} {v : Value} (h : e.bound = .value (v.under c)) :
    roleValue? e = made c v.callee fun role callee =>
      (e.visibleFrom, { v with callee := some callee, role := some role }) := by
  simp only [roleValue?, h, Value.under, made]
  cases v.callee with
  | none => rfl
  | some callee =>
    simp only [Option.bind_some]
    cases c.constructorRole? callee <;> rfl

theorem roleValue?_eq_none {e : Entry} (h : ∀ v, e.bound ≠ .value v) : roleValue? e = none := by
  rw [roleValue?]
  split
  · next v hv => exact absurd hv (h v)
  · rfl

theorem roleValue?_eq_filter (hc : c.Extends c') {e e' : Entry} (h : e.Matches c c' e') :
    roleValue? e = (roleValue? e').filter fun found => knowsValue c found.2 := by
  have hvalues := h.bound
  generalize hb : e.bound = b, hb' : e'.bound = b' at hvalues
  cases hvalues with
  | value v =>
    rw [roleValue?_eq_made hb, roleValue?_eq_made hb', h.visibleFrom_eq]
    exact made_eq_filter hc _ _ fun _ _ => rfl
  | imported | parameter | typeAlias | definition =>
    rw [roleValue?_eq_none (by simp [hb]), roleValue?_eq_none (by simp [hb'])]
    rfl

theorem filterMap_roleValue?_eq_filter (hc : c.Extends c') {l l' : List Entry}
    (h : List.Forall₂ (Entry.Matches c c') l l') : l.filterMap roleValue?
      = (l'.filterMap roleValue?).filter fun found => knowsValue c found.2 := by
  induction h with
  | nil => rfl
  | @cons e e' l l' he _ ih =>
    rw [List.filterMap_cons, List.filterMap_cons, roleValue?_eq_filter hc he, ih]
    cases roleValue? e' with
    | none => rfl
    | some found => cases hq : knowsValue c found.2 <;> simp [Option.filter_some, hq]

/-- The values of one scope are sorted by position and name. -/
theorem isSortable_roleValues : IsSortable fun a b : Nat × Value =>
    (compare a.1 b.1).then (compare a.2.variableName b.2.variableName) != .gt :=
  (IsSortable.of_compare (compareLex (compareOn Prod.fst) (compareOn Prod.snd))).comp
    fun a : Nat × Value => (a.1, a.2.variableName)

theorem Matches.forall₂_scopes (h : t.Matches c c' t') :
    List.Forall₂ (Scope.Matches c c') t.scopes.toList t'.scopes.toList := by
  refine List.forall₂_of_length_eq_of_get (by simpa using h.size_eq) fun i hi hi' => ?_
  have hrel := h.scopes i
  rw [Array.getElem?_eq_getElem (by simpa using hi), Array.getElem?_eq_getElem (by simpa using hi')]
    at hrel
  cases hrel with
  | some hs => simpa using hs

/-- **Values with roles in the smaller catalog** are those of the larger one whose callees the
smaller one knows. -/
theorem Matches.roleValues_eq_filter (h : t.Matches c c' t') (hc : c.Extends c') :
    t.roleValues = t'.roleValues.filter (knowsValue c) := by
  have hscopes := h.forall₂_scopes
  rw [roleValues, roleValues]
  generalize t.scopes.toList = l at hscopes ⊢
  generalize t'.scopes.toList = l' at hscopes ⊢
  induction hscopes with
  | nil => rfl
  | @cons s s' l l' hs _ ih =>
    rw [List.flatMap_cons, List.flatMap_cons, List.filter_append, ← ih,
      filterMap_roleValue?_eq_filter hc (List.forall₂_reverse_iff.mpr hs.entries)]
    dsimp only
    rw [← isSortable_roleValues.filter_mergeSort, List.filter_map]
    rfl

end Table

end Binding

end ApiSurface
