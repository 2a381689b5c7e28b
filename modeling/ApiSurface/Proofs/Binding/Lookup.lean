import Mathlib.Logic.Relation
import ApiSurface.Proofs.Binding.Chronology

/-!
# What a look-up finds

A look-up goes outwards from a scope, past class bodies that it does not start in, to the innermost
scope that offers a binding of the name at the position. There the latest binding counts: the one
that is visible from the last position, and among equals the last recorded one.

Searching the bindings from the newest back finds the latest one because the table of a regular tree
is chronological (`Table.lookupAt_build`).
-/

namespace ApiSurface.Binding

open ApiSurface.Syntax (Node Tree)

variable {name : String} {pos : Nat}

/-- The entry binds the name and is visible at the position. -/
def Entry.Offers (e : Entry) (name : String) (pos : Nat) : Prop :=
  e.name = name ∧ e.visibleAt pos = true

namespace Scope

variable {s : Scope} {e e' : Entry} {b : Bound}

/-- No entry of the scope binds the name and is visible at the position. -/
def Lacks (s : Scope) (name : String) (pos : Nat) : Prop := ∀ e ∈ s.entries, ¬ e.Offers name pos

instance (s : Scope) (name : String) (pos : Nat) : Decidable (s.Lacks name pos) :=
  inferInstanceAs (Decidable (∀ e ∈ s.entries, ¬ (e.name = name ∧ e.visibleAt pos = true)))

/-- Of the entries that bind the name and are visible at the position, the one that is visible from
the last position; of several such, the last recorded. -/
def IsLatest (s : Scope) (name : String) (pos : Nat) (e : Entry) : Prop :=
  e.Offers name pos ∧ ∃ newer older, s.entries = newer ++ e :: older ∧
    (∀ o ∈ older, o.Offers name pos → o.visibleFrom ≤ e.visibleFrom) ∧
    ∀ o ∈ newer, o.Offers name pos → o.visibleFrom < e.visibleFrom

theorem IsLatest.mem (h : s.IsLatest name pos e) : e ∈ s.entries := by
  obtain ⟨-, newer, older, heq, -⟩ := h
  simp [heq]

/-- In chronological order the latest entry is the first one that is met from the newest back. -/
theorem find?_entries_eq_some_iff (hchr : Chronological s.entries) :
    (s.entries.find? fun e => e.name == name && e.visibleAt pos) = some e ↔
      s.IsLatest name pos e := by
  rw [List.find?_eq_some_iff_append]
  simp only [Bool.and_eq_true, beq_iff_eq, Bool.not_eq_true', Bool.and_eq_false_iff,
    beq_eq_false_iff_ne]
  constructor
  · rintro ⟨hoffers, newer, older, heq, hnewer⟩
    have hsorted := (List.pairwise_append.mp (heq ▸ hchr)).2.1
    refine ⟨hoffers, newer, older, heq, fun o ho _ => (List.pairwise_cons.mp hsorted).1 o ho,
      fun o ho hoff => ?_⟩
    rcases hnewer o ho with hne | hhidden
    · exact absurd hoff.1 hne
    · simp [hoff.2] at hhidden
  · rintro ⟨hoffers, newer, older, heq, -, hnewer⟩
    refine ⟨hoffers, newer, older, heq, fun o ho => ?_⟩
    have hle := (List.pairwise_append.mp (heq ▸ hchr)).2.2 o ho e List.mem_cons_self
    refine Decidable.or_iff_not_imp_left.mpr fun hname => Bool.eq_false_iff.mpr fun hvisible => ?_
    exact Nat.not_lt_of_le hle (hnewer o ho ⟨Decidable.not_not.mp hname, hvisible⟩)

theorem find?_eq_some_iff (hchr : Chronological s.entries) :
    s.find? name pos = some b ↔ ∃ e, s.IsLatest name pos e ∧ e.bound = b := by
  rw [find?, Option.map_eq_some_iff]
  simp only [find?_entries_eq_some_iff hchr]

theorem find?_eq_none_iff : s.find? name pos = none ↔ s.Lacks name pos := by
  simp [find?, Lacks, Entry.Offers]

theorem IsLatest.unique (hchr : Chronological s.entries) (h : s.IsLatest name pos e)
    (h' : s.IsLatest name pos e') : e = e' :=
  Option.some.inj (((find?_entries_eq_some_iff hchr).mpr h).symm.trans
    ((find?_entries_eq_some_iff hchr).mpr h'))

end Scope

namespace Table

variable {t : Table} {start id i j k : Nat} {s : Scope} {b : Bound}

/-- Scope `j` is directly around scope `i`. -/
def IsAround (t : Table) (i j : Nat) : Prop := ∃ s, t.scopes[i]? = some s ∧ s.parent = some j

/-- Zero or more steps outwards lead from scope `i` to scope `j`. -/
def Outwards (t : Table) : Nat → Nat → Prop := Relation.ReflTransGen t.IsAround

/-- The scope `s`, which has the number `j`, counts for look-ups that start in the given scope: it
is there or further out, and it is no class body unless the look-up starts in it. -/
structure Considers (t : Table) (start j : Nat) (s : Scope) : Prop where
  outwards : t.Outwards start j
  at_index : t.scopes[j]? = some s
  own_class : s.kind = .classBody → j = start

/-- Of the scopes that count, `s` is the innermost one that offers a binding. -/
structure IsInnermost (t : Table) (name : String) (pos start j : Nat) (s : Scope) : Prop where
  considers : t.Considers start j s
  offers : ∃ e ∈ s.entries, e.Offers name pos
  inside : ∀ k s', t.Considers start k s' → Relation.TransGen t.IsAround k j → s'.Lacks name pos

theorem sees_iff : sees start i s = true ↔ (s.kind = .classBody → i = start) := by
  simp only [sees, Bool.or_eq_true, bne_iff_ne, beq_iff_eq, ne_eq]
  exact Decidable.imp_iff_not_or.symm

/-! ### Going outwards -/

theorem IsChronological.lt_of_isAround (h : t.IsChronological) (ha : t.IsAround i j) : j < i := by
  obtain ⟨s, hs, hp⟩ := ha
  exact h.parent_lt i s j hs hp

theorem IsChronological.le_of_outwards (h : t.IsChronological) (ho : t.Outwards i j) : j ≤ i := by
  induction ho with
  | refl => exact Nat.le_refl _
  | tail _ ha ih => exact Nat.le_trans (Nat.le_of_lt (h.lt_of_isAround ha)) ih

theorem IsChronological.lt_of_transGen (h : t.IsChronological)
    (ht : Relation.TransGen t.IsAround i j) : j < i := by
  obtain ⟨k, hk, hkj⟩ := Relation.TransGen.head'_iff.mp ht
  exact Nat.lt_of_le_of_lt (h.le_of_outwards hkj) (h.lt_of_isAround hk)

theorem outwards_cases (ho : t.Outwards i j) : j = i ∨ ∃ p, t.IsAround i p ∧ t.Outwards p j :=
  (Relation.ReflTransGen.cases_head ho).imp_left Eq.symm

theorem isAround_unique (hs : t.scopes[i]? = some s) (ha : t.IsAround i j) : s.parent = some j := by
  obtain ⟨s', hs', hp⟩ := ha
  exact Option.some.inj (hs.symm.trans hs') ▸ hp

/-! ### One look-up -/

/-- What a scope that is reached says itself. -/
def own (start i : Nat) (s : Scope) (name : String) (pos : Nat) : Option Bound :=
  if sees start i s then s.find? name pos else none

/-- A look-up asks the scope itself and then the scopes around it. -/
theorem findFrom_eq (h : t.IsChronological) (hs : t.scopes[i]? = some s) :
    t.findFrom name pos start i =
      (own start i s name pos).or (s.parent.bind (t.findFrom name pos start)) := by
  rw [findFrom, hs, own]
  dsimp only
  split
  · next b hb => rw [hb, Option.some_or]
  · next hb =>
    rw [hb, Option.none_or]
    cases hp : s.parent with
    | none => rfl
    | some p => simp [h.parent_lt i s p hs hp]

theorem findFrom_of_none (hs : t.scopes[i]? = none) : t.findFrom name pos start i = none := by
  rw [findFrom, hs]

theorem own_eq_none_iff :
    own start i s name pos = none ↔ ((s.kind = .classBody → i = start) → s.Lacks name pos) := by
  rw [own, ← sees_iff, ← Scope.find?_eq_none_iff]
  split <;> simp_all

theorem findFrom_eq_none_iff (h : t.IsChronological) : t.findFrom name pos start i = none ↔
    ∀ j s, t.Outwards i j → t.scopes[j]? = some s → (s.kind = .classBody → j = start) →
      s.Lacks name pos := by
  induction i using Nat.strongRecOn with
  | ind i ih =>
    cases hs : t.scopes[i]? with
    | none =>
      refine iff_of_true (findFrom_of_none hs) fun j s ho hj _ => ?_
      rcases outwards_cases ho with rfl | ⟨p, ⟨s', hs', -⟩, -⟩
      · simp [hs] at hj
      · simp [hs] at hs'
    | some s =>
      rw [findFrom_eq h hs, Option.or_eq_none_iff, own_eq_none_iff]
      constructor
      · rintro ⟨hown, hrest⟩ j s' ho hj hclass
        rcases outwards_cases ho with rfl | ⟨p, hp, hpj⟩
        · obtain rfl := Option.some.inj (hs.symm.trans hj)
          exact hown hclass
        · rw [isAround_unique hs hp, Option.bind_some] at hrest
          exact (ih p (h.lt_of_isAround hp)).mp hrest j s' hpj hj hclass
      · intro hall
        refine ⟨hall i s .refl hs, ?_⟩
        cases hp : s.parent with
        | none => rfl
        | some p =>
          rw [Option.bind_some]
          exact (ih p (h.parent_lt i s p hs hp)).mpr fun j s' ho =>
            hall j s' (.head ⟨s, hs, hp⟩ ho)

/-- A look-up that finds something finds the latest binding of a scope, and the scopes further in
have none. -/
theorem exists_of_findFrom_eq_some (h : t.IsChronological)
    (hb : t.findFrom name pos start i = some b) :
    ∃ j s e, t.Outwards i j ∧ t.scopes[j]? = some s ∧ (s.kind = .classBody → j = start) ∧
      s.IsLatest name pos e ∧ e.bound = b ∧
      ∀ k s', t.Outwards i k → Relation.TransGen t.IsAround k j → t.scopes[k]? = some s' →
        (s'.kind = .classBody → k = start) → s'.Lacks name pos := by
  induction i using Nat.strongRecOn with
  | ind i ih =>
    cases hs : t.scopes[i]? with
    | none => simp [findFrom_of_none hs] at hb
    | some s =>
      rw [findFrom_eq h hs, Option.or_eq_some_iff] at hb
      rcases hb with hown | ⟨hown, hrest⟩
      · -- the scope itself has one, and no scope lies further in
        rw [own, Option.ite_none_right_eq_some, sees_iff,
          Scope.find?_eq_some_iff (h.entries i s hs)] at hown
        obtain ⟨hclass, e, hlatest, rfl⟩ := hown
        refine ⟨i, s, e, .refl, hs, hclass, hlatest, rfl, fun k _ ho ht => ?_⟩
        exact absurd (h.lt_of_transGen ht) (Nat.not_lt_of_le (h.le_of_outwards ho))
      · obtain ⟨p, hp, hrest⟩ := Option.bind_eq_some_iff.mp hrest
        have ha : t.IsAround i p := ⟨s, hs, hp⟩
        obtain ⟨j, s', e, ho, hj, hclass, hlatest, hbound, hin⟩ := ih p (h.lt_of_isAround ha) hrest
        refine ⟨j, s', e, .head ha ho, hj, hclass, hlatest, hbound, fun k s'' hk ht hks hkc => ?_⟩
        rcases outwards_cases hk with rfl | ⟨q, hq, hqk⟩
        · obtain rfl := Option.some.inj (hs.symm.trans hks)
          exact own_eq_none_iff.mp hown hkc
        · obtain rfl := Option.some.inj (hp.symm.trans (isAround_unique hs hq))
          exact hin k s'' hqk ht hks hkc

/-- There is at most one innermost scope. -/
theorem IsInnermost.unique {s' : Scope} (h : t.IsInnermost name pos start j s)
    (h' : t.IsInnermost name pos start k s') : j = k := by
  have hright : Relator.RightUnique t.IsAround := fun i j k ⟨s, hs, hj⟩ hk =>
    Option.some.inj (hj.symm.trans (isAround_unique hs hk))
  have hnot : ∀ {j k : Nat} {s s' : Scope}, t.IsInnermost name pos start j s →
      t.IsInnermost name pos start k s' → t.Outwards j k → j = k := fun {j k s s'} h h' ho => by
    rcases Relation.reflTransGen_iff_eq_or_transGen.mp ho with heq | ht
    · exact heq.symm
    · obtain ⟨e, he, hoff⟩ := h.offers
      exact absurd hoff (h'.inside j s h.considers ht e he)
  rcases Relation.ReflTransGen.total_of_right_unique hright h.considers.outwards
    h'.considers.outwards with ho | ho
  · exact hnot h h' ho
  · exact (hnot h' h ho).symm

theorem lookupAt_eq_some_iff (h : t.IsChronological) : t.lookupAt name start pos = some b ↔
    ∃ j s e, t.IsInnermost name pos start j s ∧ s.IsLatest name pos e ∧ e.bound = b := by
  have hfound : ∀ {b}, t.lookupAt name start pos = some b →
      ∃ j s e, t.IsInnermost name pos start j s ∧ s.IsLatest name pos e ∧ e.bound = b := by
    intro b hb
    obtain ⟨j, s, e, ho, hj, hclass, hlatest, hbound, hin⟩ := exists_of_findFrom_eq_some h hb
    exact ⟨j, s, e, ⟨⟨ho, hj, hclass⟩, ⟨e, hlatest.mem, hlatest.1⟩, fun k s' hk ht =>
      hin k s' hk.outwards ht hk.at_index hk.own_class⟩, hlatest, hbound⟩
  refine ⟨hfound, fun ⟨j, s, e, hinner, hlatest, hbound⟩ => ?_⟩
  cases hl : t.lookupAt name start pos with
  | none =>
    have hlacks := (findFrom_eq_none_iff h).mp hl j s hinner.considers.outwards
      hinner.considers.at_index hinner.considers.own_class
    exact absurd hlatest.1 (hlacks e hlatest.mem)
  | some b' =>
    obtain ⟨k, s', e', hinner', hlatest', rfl⟩ := hfound hl
    obtain rfl := hinner.unique hinner'
    obtain rfl := Option.some.inj (hinner.considers.at_index.symm.trans hinner'.considers.at_index)
    rw [← hbound, hlatest.unique (h.entries j s hinner.considers.at_index) hlatest']

/-- **What a look-up finds.** In the table of a regular tree a look-up gives the latest binding that
is visible at the position in the innermost scope that has one, and it gives none exactly when no
scope that counts has one. -/
theorem lookupAt_build {tree : Tree} (h : IsRegular tree.root) (catalog : Catalog) (name : String)
    (scope pos : Nat) :
    (∀ b, (build tree catalog).lookupAt name scope pos = some b ↔
      ∃ j s e, (build tree catalog).IsInnermost name pos scope j s ∧ s.IsLatest name pos e ∧
        e.bound = b) ∧
    ((build tree catalog).lookupAt name scope pos = none ↔
      ∀ j s, (build tree catalog).Considers scope j s → s.Lacks name pos) := by
  have hchr := isChronological_build h catalog
  refine ⟨fun b => lookupAt_eq_some_iff hchr, ?_⟩
  rw [lookupAt, findFrom_eq_none_iff hchr]
  exact ⟨fun hall j s hc => hall j s hc.outwards hc.at_index hc.own_class,
    fun hall j s ho hj hclass => hall j s ⟨ho, hj, hclass⟩⟩

section Shadowing

open ApiSurface.Syntax.ParseTree

/-- One name is imported, bound by a `with` statement, assigned in a chain and taken by a
parameter. -/
def shadowing : Tree := Tree.lower "import c\nwith c() as c:\n    c = d = 1\ndef f(c): c" <|
  rule "module" none 0 49 [
    rule "import_statement" none 0 8 [
      token "import" 0 6,
      rule "dotted_name" "name" 7 8 [rule "identifier" none 7 8 []]],
    rule "with_statement" none 9 37 [
      token "with" 9 13,
      rule "with_clause" none 14 22 [
        rule "with_item" none 14 22 [
          rule "as_pattern" "value" 14 22 [
            rule "call" none 14 17 [
              rule "identifier" "function" 14 15 [],
              rule "argument_list" "arguments" 15 17 [token "(" 15 16, token ")" 16 17]],
            token "as" 18 20,
            rule "as_pattern_target" "alias" 21 22 [rule "identifier" none 21 22 []]]]],
      token ":" 22 23,
      rule "block" "body" 28 37 [
        rule "expression_statement" none 28 37 [
          rule "assignment" none 28 37 [
            rule "identifier" "left" 28 29 [],
            token "=" 30 31,
            rule "assignment" "right" 32 37 [
              rule "identifier" "left" 32 33 [],
              token "=" 34 35,
              rule "integer" "right" 36 37 []]]]]],
    rule "function_definition" none 38 49 [
      token "def" 38 41,
      rule "identifier" "name" 42 43 [],
      rule "parameters" "parameters" 43 46 [
        token "(" 43 44, rule "identifier" none 44 45 [], token ")" 45 46],
      token ":" 46 47,
      rule "block" "body" 48 49 [
        rule "expression_statement" none 48 49 [rule "identifier" none 48 49 []]]]]

/-- The theorem applies to a tree in which every kind of statement hides the one before. -/
theorem lookupAt_build_shadowing :
    IsRegular shadowing.root ∧
    (∀ b, (build shadowing .builtin).lookupAt "c" 1 48 = some b ↔
      ∃ j s e, (build shadowing .builtin).IsInnermost "c" 48 1 j s ∧ s.IsLatest "c" 48 e ∧
        e.bound = b) ∧
    ((build shadowing .builtin).lookupAt "c" 1 48 = none ↔
      ∀ j s, (build shadowing .builtin).Considers 1 j s → s.Lacks "c" 48) :=
  ⟨by decide, lookupAt_build (by decide) .builtin "c" 1 48⟩

example : ((build shadowing .builtin).scopes.map fun s =>
      s.entries.map fun e => (e.name, e.visibleFrom)) =
    #[[("f", 49), ("d", 37), ("c", 37), ("c", 22), ("c", 8)], [("c", 43)]] := by
  decide +kernel

end Shadowing

end Table

end ApiSurface.Binding
