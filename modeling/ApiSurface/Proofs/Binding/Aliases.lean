import ApiSurface.Proofs.Binding.Lookup
import ApiSurface.Proofs.Binding.Visits
import ApiSurface.Proofs.Expr.Parts

/-!
# Where aliases are written

A type alias comes about in one of five ways: it is declared, it reads as a type, it is a new type,
a `type` statement gives it, or it is copied from another one. In each of them its target is written
before the alias becomes visible (`Bound.IsWritten`). For a copied alias this is so because the
original was visible where it was copied.

So the target of an alias that a look-up finds ends before the place of the look-up
(`Table.isWritten_of_lookupAt`).
-/

namespace ApiSurface.Binding

open ApiSurface.Syntax (Node Tree)
open ApiSurface.Expr (Arguments stripAwait stripAwait_mem_descendants)

variable {tree : Tree} {root n m : Node} {pos pos' : Nat} {b : Bound} {name : String}

/-- If it is an alias, its target stands below the root and ends at the position or before. -/
def Bound.IsWritten (b : Bound) (root : Node) (pos : Nat) : Prop :=
  ∀ a, b = .typeAlias a → a.target.IsBelow root ∧ a.target.endByte ≤ pos

theorem Bound.isWritten_value (v : Value) : (Bound.value v).IsWritten root pos := by
  intro a ha
  cases ha

/-- If it binds an alias, the alias is written before it becomes visible. -/
abbrev Entry.IsWritten (e : Entry) (root : Node) : Prop := e.bound.IsWritten root e.visibleFrom

theorem Bound.IsWritten.mono (h : b.IsWritten root pos) (hle : pos ≤ pos') :
    b.IsWritten root pos' := fun a ha => ⟨(h a ha).1, Nat.le_trans (h a ha).2 hle⟩

/-- The node and everything below it stand below the root and end at the position or before. -/
def Stands (root : Node) (pos : Nat) (n : Node) : Prop :=
  ∀ m ∈ n.descendants, m.IsBelow root ∧ m.endByte ≤ pos

theorem Stands.below (h : Stands root pos n) (hm : m ∈ n.descendants) : Stands root pos m :=
  fun k hk => h k (Node.mem_descendants_trans hm hk)

theorem Stands.isWritten (h : Stands root pos n) (newType : Bool) :
    (Bound.typeAlias ⟨n, newType⟩).IsWritten root pos := by
  rintro a ⟨⟩
  exact h n n.self_mem_descendants

/-- What stands below a node of the tree ends where the node does, or before. -/
theorem stands_of_isBelow (h : tree.IsNested) (hn : n ∈ tree.nodes) (hm : m.IsBelow n) :
    Stands tree.root n.endByte m := fun _ hk =>
  have hbelow := hm.of_mem_descendants hk
  ⟨hbelow.above hn, (h.encloses hn hbelow.mem_descendants).2⟩

/-! ### Parts of statements -/

theorem isBelow_of_assignedValue? (h : assignedValue? n = some m) : m.IsBelow n := by
  fun_induction assignedValue? n with
  | case1 n hright => simp at h
  | case2 n r hright hk ih =>
    exact (ih h).above (Node.childByField?_mem_descendants hright)
  | case3 n r hright hk =>
    obtain rfl := Option.some.inj h
    exact Node.isBelow_of_mem_children (List.mem_of_find?_eq_some hright)

theorem mem_descendants_of_withParts? {item expr target : Node}
    (h : Table.withParts? item = some (expr, target)) : expr ∈ item.descendants := by
  simp only [Table.withParts?, Option.bind_eq_bind, Option.bind_eq_some_iff] at h
  obtain ⟨value, hvalue, h⟩ := h
  have hin := Node.childByField?_mem_descendants hvalue
  split at h
  · simp only [Option.pure_def, Option.bind_eq_some_iff, Option.some.injEq, Prod.mk.injEq] at h
    obtain ⟨e, he, aliasName, -, rfl, -⟩ := h
    exact Node.mem_descendants_trans hin
      (Node.namedChild_mem_descendants (List.mem_of_head? he))
  · simp only [Option.pure_def, Option.bind_eq_some_iff, Option.some.injEq, Prod.mk.injEq] at h
    obtain ⟨aliasName, -, rfl, -⟩ := h
    exact hin

theorem isBelow_of_mem_withItemsAll (h : m ∈ withItemsAll n.children) : m.IsBelow n := by
  rw [withItemsAll_eq_flatMap] at h
  obtain ⟨c, hc, hm⟩ := List.mem_flatMap.mp h
  exact ⟨c, hc, mem_descendants_of_mem_withItems hm⟩

namespace Table

variable {t : Table} {catalog : Catalog} {parent : Option Node} {scope start id : Nat}

/-! ### Look-ups -/

/-- What a look-up finds stands in the table and is visible. -/
theorem exists_has_of_findFrom (h : t.findFrom name pos start id = some b) :
    ∃ e, t.Has e ∧ e.Offers name pos ∧ e.bound = b := by
  fun_induction findFrom t name pos start id with
  | case1 => simp at h
  | case2 id s hs found hfound =>
    obtain rfl := Option.some.inj h
    split at hfound
    · rw [Scope.find?, Option.map_eq_some_iff] at hfound
      obtain ⟨e, he, hbound⟩ := hfound
      have hoffers := List.find?_some he
      simp only [Bool.and_eq_true, beq_iff_eq] at hoffers
      exact ⟨e, ⟨id, s, hs, List.mem_of_find?_eq_some he⟩, hoffers, hbound⟩
    · simp at hfound
  | case3 id s hs hnone p hp hlt ih => exact ih h
  | case4 => simp at h
  | case5 => simp at h

/-- All aliases in the table are written before they become visible. -/
def KeepsAliases (t : Table) (root : Node) : Prop :=
  ∀ e, t.Has e → e.IsWritten root

theorem isWritten_of_lookupAt (ht : t.KeepsAliases root)
    (h : t.lookupAt name scope pos = some b) : b.IsWritten root pos := by
  obtain ⟨e, he, ⟨-, hvisible⟩, rfl⟩ := exists_has_of_findFrom h
  simp only [Entry.visibleAt, Bool.and_eq_true, decide_eq_true_eq] at hvisible
  exact (ht e he).mono hvisible.1

/-! ### Values -/

theorem isWritten_boundToCall {call statement : Node} (h : Stands root pos call) :
    (t.boundToCall catalog name call statement scope).IsWritten root pos := by
  rw [boundToCall]
  split
  · split
    · split
      · next target htarget =>
        exact (h.below (Arguments.mem_descendants_of_ofCall.1 target
          (List.mem_of_getElem? htarget))).isWritten true
      · exact Bound.isWritten_value _
    · exact Bound.isWritten_value _
  · exact Bound.isWritten_value _

theorem isWritten_boundToValue {value statement : Node} (ht : t.KeepsAliases root)
    (h : Stands root pos value) (hstart : value.startByte ≤ pos) :
    (t.boundToValue catalog name value statement scope).IsWritten root pos := by
  unfold boundToValue
  split
  · exact isWritten_boundToCall h
  · split
    · exact Bound.isWritten_value _
    · nofun
    · next a hfound => exact (isWritten_of_lookupAt ht hfound).mono hstart
    · exact Bound.isWritten_value _
  · split
    · exact h.isWritten false
    · exact Bound.isWritten_value _
  · split
    · exact h.isWritten false
    · exact Bound.isWritten_value _
  · split
    · exact h.isWritten false
    · exact Bound.isWritten_value _
  · exact Bound.isWritten_value _

/-! ### What a node adds -/

/-- Recording a node keeps aliases where they are written. -/
theorem Recorded.isWritten (hnested : tree.IsNested) (hn : n ∈ tree.nodes)
    (ht : t.KeepsAliases tree.root) {e : Entry} (h : t.Recorded catalog parent n scope e) :
    e.IsWritten tree.root := by
  cases h with
  | imported | unpacked | itemValue | loopTarget | definition => nofun
  | declared hk hleft hright =>
    exact (stands_of_isBelow hnested hn (isBelow_of_assignedValue? hright)).isWritten false
  | @assigned left right hk hleft hright =>
    have hstands := stands_of_isBelow hnested hn (isBelow_of_assignedValue? hright)
    have hvalue := hstands.below (stripAwait_mem_descendants right)
    obtain ⟨hbelow, hend⟩ := hvalue _ (stripAwait right).self_mem_descendants
    have hstart := Nat.le_trans (Nat.le_of_lt (hnested.lt_of_isBelow hbelow)) hend
    exact isWritten_boundToValue ht hvalue hstart
  | @itemCall item expr target u hk hitem hparts =>
    have hbelow := isBelow_of_mem_withItemsAll hitem
    have hitemMem := Node.mem_descendants_trans hn hbelow.mem_descendants
    have hexpr : Stands tree.root item.endByte (stripAwait expr) := fun k hk => by
      have hk' := Node.mem_descendants_trans (mem_descendants_of_withParts? hparts)
        (Node.mem_descendants_trans (stripAwait_mem_descendants expr) hk)
      exact ⟨(hbelow.of_mem_descendants hk').above hn, (hnested.encloses hitemMem hk').2⟩
    have hcall : (u.boundToCall catalog target.text (stripAwait expr) item
        scope).IsWritten tree.root item.endByte := isWritten_boundToCall hexpr
    intro a ha
    refine hcall a ?_
    revert ha
    cases u.boundToCall catalog target.text (stripAwait expr) item scope <;> simp [asScoped]
  | typeStatement hright =>
    have hchild := (List.mem_filter.mp (List.mem_of_getLast? hright)).1
    exact (stands_of_isBelow hnested hn (Node.isBelow_of_mem_children hchild)).isWritten false

end Table

/-- **Aliases come behind their targets.** In the table of a tree the target of an alias ends where
the alias becomes visible, or before. -/
theorem keepsAliases_build (h : tree.IsNested) (catalog : Catalog) :
    (Table.build tree catalog).KeepsAliases tree.root := by
  refine (Visit.start tree).forall_has_result (fun e he => absurd he (Visit.not_has_start tree e))
    fun w hw ht e he => ?_
  have hplaced : (w.table.place w.node w.scope).KeepsAliases tree.root := ht
  have hrecorded : (w.recorded catalog).KeepsAliases tree.root := fun e he =>
    (w.recorded_adds.has he).elim (ht e) fun he => he.isWritten h hw.node_mem_descendants hplaced
  rcases w.entered_cases catalog with ⟨-, heq⟩ | ⟨kind, -, hadds⟩
  · exact hrecorded e (heq ▸ he)
  · rcases hadds.has he with he | ⟨-, -, -, p, hp⟩
    · exact hrecorded e (Table.has_of_openScope he)
    · exact fun a ha => nomatch hp.symm.trans ha

end ApiSurface.Binding
