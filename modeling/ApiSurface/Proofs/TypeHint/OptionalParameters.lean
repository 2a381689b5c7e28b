import ApiSurface.Proofs.Binding.Stability
import ApiSurface.Proofs.TypeHint.ParameterHints

/-!
# Optional parameters

A parameter takes its role from the class that its annotation names, and an optional of a class is
meant to count as the class. An optional is spelled in several ways (`SpellsOptional`): as
`Optional[C]` in one of two grammar forms, as a union of the name and `None` in either order, or
with a bar between them.

Roles are looked up behind one of these spellings only, the subscript form of `Optional[C]`
(`Spelling.IsOpened`). With it the parameter is recorded as for the bare name. With all others it
has no path and no role, so it denotes nothing (`has_recordedAs`).
-/

namespace ApiSurface

open ApiSurface.Syntax (Node Tree)
open ApiSurface.Binding (Parameter Table Visit)
open ApiSurface.Expr (stripType stripKind_of_ne stripType_of_ne stripType_of_type)

namespace Binding

namespace Table

variable {t t' : Table} {catalog : Catalog} {e : Entry} {scope lo : Nat} {n c : Node}

/-! ### Records of parameters -/

theorem Later.has (h : t.Later lo t') (he : t.Has e) : t'.Has e := by
  obtain ⟨i, s, hs, he⟩ := he
  obtain ⟨added, hs', -⟩ := h.scopes i s hs
  exact ⟨i, _, hs', List.mem_append_right _ he⟩

theorem Adds.has_of_has {P : Entry → Prop} (h : t.Adds scope P t') (he : t.Has e) : t'.Has e := by
  obtain ⟨added, rfl, -⟩ := h
  obtain ⟨i, s, hs, he⟩ := he
  by_cases hi : scope = i
  · subst hi
    exact ⟨scope, _, getElem?_push hs, List.mem_append_right _ he⟩
  · refine ⟨i, s, ?_, he⟩
    rw [push, Array.getElem?_modify, if_neg hi, hs]

theorem has_bind {name : String} {pos : Nat} {last : Option Nat} {bound : Bound}
    (h : scope < t.scopes.size) :
    (t.bind scope name pos last bound).Has ⟨name, pos, last, bound⟩ := by
  show (t.push scope [⟨name, pos, last, bound⟩]).Has _
  exact ⟨scope, _, getElem?_push (Array.getElem?_eq_getElem h), List.mem_cons_self⟩

/-! ### Paths of annotations -/

theorem qualifyAt_eq_none {pos : Nat} (h : n.kind ∉ ["identifier", "attribute",
    "parenthesized_expression"]) : t.qualifyAt n scope pos = none := by
  simp only [List.mem_cons, List.not_mem_nil, or_false, not_or] at h
  obtain ⟨hidentifier, hattribute, hparens⟩ := h
  have hstrip : Expr.stripParens n = n := stripKind_of_ne hparens
  have hchain : chain? n = none := by
    rw [chain?]
    simp only [hstrip, if_neg hattribute, if_neg hidentifier]
  rw [qualifyAt, hchain]
  rfl

theorem stripOptional_of_ne (h : n.kind ≠ "subscript") : t.stripOptional n scope = n := if_neg h

/-- The path of an annotation is that of what is left without its wrappers and an optional. -/
theorem hintPath?_of_stripType {hint : Node} (h : t.stripOptional (stripType hint) scope = c) :
    t.hintPath? hint scope = t.qualifyAt c scope c.startByte := by
  rw [hintPath?, h]

end Table

end Binding

namespace TypeHint

variable {t : Table} {scope : Nat} {n c a : Node} {path : String}

/-! ### Optionals -/

theorem eq_of_find? {α : Type} {table : List (String × α)} {x : α}
    (h : Catalog.find? table path = some x) : (path, x) ∈ table := by
  obtain ⟨e, he, rfl⟩ := Option.map_eq_some_iff.mp h
  obtain rfl : e.1 = path := by simpa using List.find?_some he
  exact List.mem_of_find?_eq_some he

/-- The names that are taken for an optional where roles are looked up are those that annotations
are read with. -/
theorem form?_eq_optional_iff :
    form? path = some .optional ↔ path = "typing.Optional" ∨ path = "Optional" := by
  have htable : ∀ e ∈ forms, e.2 = .optional → e.1 = "typing.Optional" := by decide
  constructor
  · intro h
    rw [form?, findTyping?, Option.orElse_eq_orElse, Option.orElse_eq_or,
      Option.or_eq_some_iff] at h
    rcases h with h | ⟨-, h⟩
    · exact .inl (htable _ (eq_of_find? h) rfl)
    · split at h
      · cases h
      · have hname : "typing." ++ path = "typing." ++ "Optional" := htable _ (eq_of_find? h) rfl
        exact .inr (String.append_right_inj _ |>.mp hname)
  · rintro (rfl | rfl) <;> decide

/-- The name of a class, with or without modules in front. -/
def IsClassName (n : Node) : Prop := n.kind ∈ ["identifier", "attribute"]

instance (n : Node) : Decidable (IsClassName n) := inferInstanceAs (Decidable (_ ∈ _))

/-- The node applies a construct to arguments, in one of the two forms that the grammar has. -/
structure IsApplied (t : Table) (scope : Nat) (form : Form) (args : List Node) (n : Node) :
    Prop where
  kind : n.kind ∈ subscriptKinds
  parts : ∃ head path, subscriptParts n = (some head, args) ∧
    t.qualifyAt head scope head.startByte = some path ∧ form? path = some form

/-- One of two operands is the name and the other one is `None`. -/
def IsOptionalPair (c a b : Node) : Prop :=
  (stripType a = c ∧ (stripType b).kind = "none") ∨ ((stripType a).kind = "none" ∧ stripType b = c)

/-- How an optional of a name is spelled. -/
inductive Spelling where
  /-- `Optional[C]`, as a subscript or as a generic type. -/
  | optional
  /-- `Union[C, None]` or `Union[None, C]`, as a subscript or as a generic type. -/
  | union
  /-- `C | None` or `None | C`. -/
  | bar
deriving DecidableEq, Repr

/-- The node spells an optional of the name. -/
inductive SpellsOptional (t : Table) (scope : Nat) (c n : Node) : Spelling → Prop
  | optional {a : Node} (happlied : IsApplied t scope .optional [a] n) (harg : stripType a = c) :
    SpellsOptional t scope c n .optional
  | union {a b : Node} (happlied : IsApplied t scope .union [a, b] n)
    (hpair : IsOptionalPair c a b) : SpellsOptional t scope c n .union
  | bar {a b : Node} (hunion : isUnion n = true) (hoperands : n.namedChildren = [a, b])
    (hpair : IsOptionalPair c a b) : SpellsOptional t scope c n .bar

/-- The spelling that roles are looked up behind. -/
def Spelling.IsOpened (sp : Spelling) (n : Node) : Prop := sp = .optional ∧ n.kind = "subscript"

instance (sp : Spelling) (n : Node) : Decidable (sp.IsOpened n) :=
  inferInstanceAs (Decidable (_ ∧ _))

theorem isClassName_ne_parens (h : IsClassName c) : c.kind ≠ "parenthesized_expression" := by
  intro hk
  simp [IsClassName, hk] at h

/-- The subscript form of an optional is opened. -/
theorem stripOptional_of_isApplied (h : IsApplied t scope .optional [a] n)
    (hk : n.kind = "subscript") : t.stripOptional n scope = stripType a := by
  obtain ⟨-, head, path, hparts, hpath, hform⟩ := h
  rw [subscriptParts, if_pos hk, Prod.mk.injEq] at hparts
  obtain ⟨hhead, hargs⟩ := hparts
  have harg : n.childByField? "subscript" = some a := by
    rw [Node.childByField?, ← List.head?_filter]
    exact congrArg List.head? hargs
  rw [Table.stripOptional, if_pos hk]
  simp only [hhead, harg, hpath, if_pos (form?_eq_optional_iff.mp hform)]

/-- A subscript of something else is left as it is. -/
theorem stripOptional_of_isApplied_ne {form : Form} {args : List Node}
    (h : IsApplied t scope form args n) (hform : form ≠ .optional) :
    t.stripOptional n scope = n := by
  obtain ⟨-, head, path, hparts, hpath, hpathForm⟩ := h
  rw [Table.stripOptional]
  split
  · next hk =>
    rw [subscriptParts, if_pos hk, Prod.mk.injEq] at hparts
    have hnot : ¬ (path = "typing.Optional" ∨ path = "Optional") := fun hname =>
      hform (Option.some.inj (hpathForm.symm.trans (form?_eq_optional_iff.mpr hname)))
    rw [hparts.1]
    cases n.childByField? "subscript" with
    | none => rfl
    | some inner => simp only [hpath, if_neg hnot]
  · rfl

/-- An opened spelling has the path of the name. -/
theorem SpellsOptional.hintPath?_of_isOpened {hint : Node} {sp : Spelling}
    (h : SpellsOptional t scope c (stripType hint) sp) (hc : IsClassName c)
    (hopened : sp.IsOpened (stripType hint)) :
    t.hintPath? hint scope = t.hintPath? c scope := by
  obtain ⟨rfl, hk⟩ := hopened
  cases h with
  | optional happlied harg =>
    have hne : c.kind ≠ "type" := fun hk => by simp [IsClassName, hk] at hc
    have hself : stripType c = c := stripType_of_ne hne (isClassName_ne_parens hc)
    have hplain : c.kind ≠ "subscript" := fun hk => by simp [IsClassName, hk] at hc
    rw [Table.hintPath?_of_stripType (stripOptional_of_isApplied happlied hk), harg,
      Table.hintPath?_of_stripType (c := c)
        (by rw [hself, Table.stripOptional_of_ne hplain])]

/-- A spelling that is not opened has no path. -/
theorem SpellsOptional.hintPath?_of_not_isOpened {hint : Node} {sp : Spelling}
    (h : SpellsOptional t scope c (stripType hint) sp)
    (hopened : ¬ sp.IsOpened (stripType hint)) : t.hintPath? hint scope = none := by
  have hleft : t.stripOptional (stripType hint) scope = stripType hint := by
    cases h with
    | optional => exact Table.stripOptional_of_ne fun hk => hopened ⟨rfl, hk⟩
    | union happlied => exact stripOptional_of_isApplied_ne happlied (by decide)
    | bar hunion =>
      refine Table.stripOptional_of_ne fun hk => ?_
      simp [isUnion, hk] at hunion
  rw [Table.hintPath?_of_stripType hleft]
  refine Table.qualifyAt_eq_none fun hk => ?_
  simp only [List.mem_cons, List.not_mem_nil, or_false] at hk
  -- a subscript or a union is no name
  cases h with
  | optional happlied | union happlied =>
    have hkind := happlied.kind
    rcases hk with hk | hk | hk <;> simp [subscriptKinds, hk] at hkind
  | bar hunion => rcases hk with hk | hk | hk <;> simp [isUnion, hk] at hunion

/-! ### Recorded parameters -/

variable {s : Source}

/-- The parameter as it is recorded when `hint` is its annotation. -/
def recordedAs (s : Source) (p : Annotated s.tree) (hint : Node) : Parameter :=
  let path := s.table.hintPath? hint (s.table.scopeOf p.function)
  ⟨p.function, p.parameter, some hint, path, path.bind s.catalog.constructorRole?⟩

/-- The binding of the name of a parameter. -/
def bindingOf (p : Annotated s.tree) (parameter : Parameter) : Binding.Entry :=
  ⟨p.name.text, p.list.startByte, none, .parameter parameter⟩

/-- Parameters are recorded with the paths that their annotations have in the finished table. -/
theorem has_bindingOf (h : Binding.IsGrammatical s.tree)
    (htable : s.table = Table.build s.tree s.catalog) (p : Annotated s.tree) :
    s.table.Has (bindingOf p (recordedAs s p p.hint)) := by
  have hstart := Visit.isSound_start h.regular h.numbered
  obtain ⟨w, hw, hnode⟩ :=
    Visit.Within.exists_of_mem_descendants s.catalog (Visit.start s.tree) p.mem_nodes
  have hk : w.node.kind = "function_definition" := hnode ▸ p.isFunction
  have hlist : w.node.childByField? "parameters" = some p.list := hnode ▸ p.list_eq
  obtain ⟨before, after, hsplit⟩ := List.append_of_mem p.mem_list
  have hsettled := Visit.isSettled h hw
  have hpath := (hsettled.parameter hk p.list hlist before p.parameter after hsplit p.hint
    (Node.childByField?_mem_descendants (childByField?_type_of_parameterParts? p.parts))).2
  have hscope : s.table.scopeOf p.function = w.scope := by
    rw [htable, ← hnode, hsettled.scope]
  -- the step that binds the parameter
  have hinner : (w.recorded s.catalog).scopes.size
      < (w.behindParameters s.catalog p.list before).scopes.size := by
    have hopened : (w.opened s.catalog).Adds (w.recorded s.catalog).scopes.size (fun _ => True)
        (w.behindParameters s.catalog p.list before) := Table.adds_bindParameters_prefix before
    rw [hopened.size_eq, Visit.opened, Table.openScope, Array.size_push]
    exact Nat.lt_succ_self _
  have hbound : (Table.bindParameter s.catalog w.node p.list (w.recorded s.catalog).scopes.size
      w.scope (w.behindParameters s.catalog p.list before) p.parameter).Has
      (bindingOf p (recordedAs s p p.hint)) := by
    simp only [Table.bindParameter, p.parts, Option.bind_some, hpath]
    rw [bindingOf, recordedAs, hscope, htable, ← hnode]
    exact Table.has_bind hinner
  -- what comes later leaves it there
  have hentered : (w.entered s.catalog).Has (bindingOf p (recordedAs s p p.hint)) := by
    rw [← hsettled.parameters hk p.list hlist, Visit.behindParameters, hsplit, List.foldl_append,
      List.foldl_cons]
    exact (Table.adds_bindParameters_prefix after).has_of_has hbound
  have hresult : (w.result s.catalog).Has (bindingOf p (recordedAs s p p.hint)) := by
    have hsound := hw.isSound hstart
    have hlater : (w.entered s.catalog).Later 0 (w.result s.catalog) := by
      rw [Visit.result_eq]
      exact Table.later_visitAll (fun c hc => hsound.regular.child hc)
        (fun _ _ => .inr (Nat.zero_le _))
        (Nat.lt_of_lt_of_le hsound.scope_lt (w.size_le_entered s.catalog))
        (Visit.inner_lt_entered s.catalog hsound.scope_lt)
    exact hlater.has hentered
  rw [htable, ← Visit.result_start]
  exact (hw.later hstart).has hresult

/-- **Optional parameters.** A parameter whose annotation spells an optional of a class is recorded.
When the spelling is opened, its path and its role are those recorded for the class alone, and it
denotes the same object. With all other spellings it has no role and denotes nothing. So its role is
that of the class just when the spelling is opened, or the class has none. -/
theorem has_recordedAs (h : Binding.IsGrammatical s.tree)
    (htable : s.table = Table.build s.tree s.catalog) (p : Annotated s.tree) {sp : Spelling}
    (hc : IsClassName c)
    (hspells : SpellsOptional s.table (s.table.scopeOf p.function) c (stripType p.hint) sp) :
    s.table.Has (bindingOf p (recordedAs s p p.hint)) ∧
    (sp.IsOpened (stripType p.hint) →
      (recordedAs s p p.hint).hintPath = (recordedAs s p c).hintPath ∧
      (recordedAs s p p.hint).role = (recordedAs s p c).role ∧
      ∀ name, Table.instanceOfParameter? name (recordedAs s p p.hint)
        = Table.instanceOfParameter? name (recordedAs s p c)) ∧
    (¬ sp.IsOpened (stripType p.hint) → (recordedAs s p p.hint).role = none ∧
      ∀ name, Table.instanceOfParameter? name (recordedAs s p p.hint) = none) ∧
    ((recordedAs s p p.hint).role = (recordedAs s p c).role ↔
      sp.IsOpened (stripType p.hint) ∨ (recordedAs s p c).role = none) := by
  have hsame : sp.IsOpened (stripType p.hint) →
      (recordedAs s p p.hint).hintPath = (recordedAs s p c).hintPath ∧
      (recordedAs s p p.hint).role = (recordedAs s p c).role := fun hopened => by
    simp only [recordedAs, hspells.hintPath?_of_isOpened hc hopened, and_self]
  have hlost : ¬ sp.IsOpened (stripType p.hint) → (recordedAs s p p.hint).role = none :=
    fun hopened => by
      simp only [recordedAs, hspells.hintPath?_of_not_isOpened hopened, Option.bind_none]
  refine ⟨has_bindingOf h htable p, fun hopened => ?_, fun hopened => ?_, ?_⟩
  · obtain ⟨hpath, hrole⟩ := hsame hopened
    refine ⟨hpath, hrole, fun name => ?_⟩
    rw [Table.instanceOfParameter?, Table.instanceOfParameter?, hpath, hrole]
    rfl
  · refine ⟨hlost hopened, fun name => ?_⟩
    rw [Table.instanceOfParameter?, hlost hopened]
    rfl
  · by_cases hopened : sp.IsOpened (stripType p.hint)
    · exact iff_of_true (hsame hopened).2 (.inl hopened)
    · rw [hlost hopened, or_iff_right hopened]
      exact eq_comm

section Sessions

open ApiSurface.Syntax.ParseTree

/-- A function with two optional parameters. -/
def sessionsTree : Tree := Tree.lower
    ("import httpx\nimport typing\nfrom typing import Optional\n" ++
      "def f(c: typing.Optional[httpx.Client], d: Optional[httpx.Client]): pass") <|
  rule "module" none 0 127 [
    rule "import_statement" none 0 12 [
      token "import" 0 6,
      rule "dotted_name" "name" 7 12 [rule "identifier" none 7 12 []]],
    rule "import_statement" none 13 26 [
      token "import" 13 19,
      rule "dotted_name" "name" 20 26 [rule "identifier" none 20 26 []]],
    rule "import_from_statement" none 27 54 [
      token "from" 27 31,
      rule "dotted_name" "module_name" 32 38 [rule "identifier" none 32 38 []],
      token "import" 39 45,
      rule "dotted_name" "name" 46 54 [rule "identifier" none 46 54 []]],
    rule "function_definition" none 55 127 [
      token "def" 55 58,
      rule "identifier" "name" 59 60 [],
      rule "parameters" "parameters" 60 121 [
        token "(" 60 61,
        rule "typed_parameter" none 61 93 [
          rule "identifier" none 61 62 [],
          token ":" 62 63,
          rule "type" "type" 64 93 [
            rule "subscript" none 64 93 [
              rule "attribute" "value" 64 79 [
                rule "identifier" "object" 64 70 [],
                token "." 70 71,
                rule "identifier" "attribute" 71 79 []],
              token "[" 79 80,
              rule "attribute" "subscript" 80 92 [
                rule "identifier" "object" 80 85 [],
                token "." 85 86,
                rule "identifier" "attribute" 86 92 []],
              token "]" 92 93]]],
        token "," 93 94,
        rule "typed_parameter" none 95 120 [
          rule "identifier" none 95 96 [],
          token ":" 96 97,
          rule "type" "type" 98 120 [
            rule "generic_type" none 98 120 [
              rule "identifier" none 98 106 [],
              rule "type_parameter" none 106 120 [
                token "[" 106 107,
                rule "type" none 107 119 [
                  rule "attribute" none 107 119 [
                    rule "identifier" "object" 107 112 [],
                    token "." 112 113,
                    rule "identifier" "attribute" 113 119 []]],
                token "]" 119 120]]]],
        token ")" 120 121],
      token ":" 121 122,
      rule "block" "body" 123 127 [
        rule "pass_statement" none 123 127 [token "pass" 123 127]]]]

def sessions : Source := .read (fun _ => sessionsTree) .builtin "sessions.py" ""

def sessionsNode (i : Nat) : Node := (sessionsTree.node? i).getD default

/-- A parameter of the function, at a place of its list. -/
def sessionsParameter (parameter name hint place : Nat)
    (hplace : (sessionsNode 19).namedChildren[place]? = some (sessionsNode parameter))
    (hparts : Binding.parameterParts? (sessionsNode parameter)
      = some (sessionsNode name, some (sessionsNode hint))) : Annotated sessions.tree where
  function := sessionsNode 16
  list := sessionsNode 19
  parameter := sessionsNode parameter
  name := sessionsNode name
  hint := sessionsNode hint
  mem_nodes := List.mem_of_getElem? (i := 16) (by rfl)
  isFunction := by decide +kernel
  list_eq := by rfl
  mem_list := List.mem_of_getElem? hplace
  parts := hparts

/-- The parameter `c: typing.Optional[httpx.Client]`. -/
def subscriptParameter : Annotated sessions.tree := sessionsParameter 21 22 24 0 (by rfl) (by rfl)

/-- The parameter `d: Optional[httpx.Client]`. -/
def genericParameter : Annotated sessions.tree := sessionsParameter 37 38 40 1 (by rfl) (by rfl)

theorem isGrammatical_sessions : Binding.IsGrammatical sessions.tree :=
  ⟨by decide +kernel, Tree.isNumbered_lower _ _, by decide +kernel, by decide +kernel⟩

theorem spellsOptional_subscriptParameter :
    SpellsOptional sessions.table (sessions.table.scopeOf subscriptParameter.function)
      (sessionsNode 31) (stripType subscriptParameter.hint) .optional := by
  have hstrip : stripType (sessionsNode 24) = sessionsNode 25 :=
    (stripType_of_type (by decide +kernel) (by rfl)).trans
      (stripType_of_ne (by decide +kernel) (by decide +kernel))
  have hparts : subscriptParts (sessionsNode 25) = (some (sessionsNode 26), [sessionsNode 31]) := by
    rfl
  have hname : stripType (sessionsNode 31) = sessionsNode 31 :=
    stripType_of_ne (by decide +kernel) (by decide +kernel)
  have happlied : IsApplied sessions.table (sessions.table.scopeOf subscriptParameter.function)
      .optional [sessionsNode 31] (sessionsNode 25) :=
    ⟨by decide +kernel, _, "typing.Optional", hparts, by decide +kernel, by decide +kernel⟩
  exact hstrip ▸ .optional happlied hname

theorem spellsOptional_genericParameter :
    SpellsOptional sessions.table (sessions.table.scopeOf genericParameter.function)
      (sessionsNode 46) (stripType genericParameter.hint) .optional := by
  have hstrip : stripType (sessionsNode 40) = sessionsNode 41 :=
    (stripType_of_type (by decide +kernel) (by rfl)).trans
      (stripType_of_ne (by decide +kernel) (by decide +kernel))
  have hparts : subscriptParts (sessionsNode 41) = (some (sessionsNode 42), [sessionsNode 45]) := by
    rfl
  have hname : stripType (sessionsNode 45) = sessionsNode 46 :=
    (stripType_of_type (by decide +kernel) (by rfl)).trans
      (stripType_of_ne (by decide +kernel) (by decide +kernel))
  have happlied : IsApplied sessions.table (sessions.table.scopeOf genericParameter.function)
      .optional [sessionsNode 45] (sessionsNode 41) :=
    ⟨by decide +kernel, _, "typing.Optional", hparts, by decide +kernel, by decide +kernel⟩
  exact hstrip ▸ .optional happlied hname

/-- The theorem applies to the parameter that is annotated with a subscript. -/
theorem has_recordedAs_subscriptParameter :
    Binding.IsGrammatical sessions.tree ∧ IsClassName (sessionsNode 31) ∧
    SpellsOptional sessions.table (sessions.table.scopeOf subscriptParameter.function)
      (sessionsNode 31) (stripType subscriptParameter.hint) .optional ∧
    Spelling.IsOpened .optional (stripType subscriptParameter.hint) ∧
    (recordedAs sessions subscriptParameter subscriptParameter.hint).hintPath
      = some "httpx.Client" := by
  have hname : IsClassName (sessionsNode 31) := by decide +kernel
  have hopened : Spelling.IsOpened .optional (stripType subscriptParameter.hint) := by
    decide +kernel
  obtain ⟨-, hsame, -⟩ := has_recordedAs isGrammatical_sessions rfl subscriptParameter hname
    spellsOptional_subscriptParameter
  refine ⟨isGrammatical_sessions, hname, spellsOptional_subscriptParameter, hopened, ?_⟩
  rw [(hsame hopened).1]
  decide +kernel

/-- The same class in the other form of the grammar is missed. -/
theorem recordedAs_genericParameter :
    Binding.IsGrammatical sessions.tree ∧ IsClassName (sessionsNode 46) ∧
    SpellsOptional sessions.table (sessions.table.scopeOf genericParameter.function)
      (sessionsNode 46) (stripType genericParameter.hint) .optional ∧
    (recordedAs sessions genericParameter (sessionsNode 46)).role
      = Catalog.builtin.constructorRole? "httpx.Client" ∧
    (recordedAs sessions genericParameter (sessionsNode 46)).role.isSome ∧
    (recordedAs sessions genericParameter genericParameter.hint).role = none :=
  ⟨isGrammatical_sessions, by decide +kernel, spellsOptional_genericParameter, by decide +kernel⟩

end Sessions

end TypeHint

end ApiSurface
