import ApiSurface.Proofs.Binding.Statements

/-!
# What recording adds

Recording never takes a binding back. `Table.Grows` says what one stretch of the pass does to a
table: in one scope it puts new bindings in front of the old ones, in chronological order and
visible from positions in an interval; it opens further scopes behind the old ones; and it leaves
all other scopes as they are. Stretches one after the other make up a stretch (`Grows.trans`,
`Grows.foldl`).

For each kind of statement a lemma gives the interval of what it binds itself.
-/

namespace ApiSurface.Binding

open ApiSurface.Syntax (Node Tree)

/-- From the newest binding back, the positions from which bindings are visible never rise. -/
def Chronological (l : List Entry) : Prop :=
  l.Pairwise fun newer older => older.visibleFrom ≤ newer.visibleFrom

namespace Table

/-- The table `t'` is `t` with further bindings in one scope, which are visible from positions
between `lo` and `hi`, and with further scopes. -/
structure Grows (t : Table) (scope lo hi : Nat) (t' : Table) : Prop where
  size_le : t.scopes.size ≤ t'.scopes.size
  own : ∃ s added, t.scopes[scope]? = some s ∧
    t'.scopes[scope]? = some { s with entries := added ++ s.entries } ∧
    Chronological added ∧ ∀ e ∈ added, lo ≤ e.visibleFrom ∧ e.visibleFrom ≤ hi
  others : ∀ i < t.scopes.size, i ≠ scope → t'.scopes[i]? = t.scopes[i]?
  opened : ∀ i s, t.scopes.size ≤ i → t'.scopes[i]? = some s →
    Chronological s.entries ∧ ∀ p, s.parent = some p → p < i

variable {t t' t'' : Table} {catalog : Catalog} {parent : Option Node} {n : Node}
  {scope lo mid hi : Nat}

namespace Grows

theorem scope_lt (h : t.Grows scope lo hi t') : scope < t.scopes.size := by
  obtain ⟨s, _, hs, -⟩ := h.own
  exact (Array.getElem?_eq_some_iff.mp hs).1

/-- Only the scopes matter. -/
theorem congr {u u' : Table} (h : t.Grows scope lo hi t') (hu : u.scopes = t.scopes)
    (hu' : u'.scopes = t'.scopes) : u.Grows scope lo hi u' := by
  obtain ⟨h₁, h₂, h₃, h₄⟩ := h
  constructor <;> rw [hu, hu'] <;> assumption

theorem refl (hlt : scope < t.scopes.size) : t.Grows scope lo hi t where
  size_le := Nat.le_refl _
  own := ⟨_, [], Array.getElem?_eq_getElem hlt, Array.getElem?_eq_getElem hlt, .nil, by simp⟩
  others := fun _ _ _ => rfl
  opened := fun i s hi hs => absurd (Array.getElem?_eq_some_iff.mp hs).1 (Nat.not_lt_of_le hi)

theorem mono {lo' hi' : Nat} (h : t.Grows scope lo hi t') (hlo : lo' ≤ lo) (hhi : hi ≤ hi') :
    t.Grows scope lo' hi' t' := by
  obtain ⟨s, added, hs, hs', hchr, hin⟩ := h.own
  exact ⟨h.size_le, ⟨s, added, hs, hs', hchr, fun e he =>
    ⟨Nat.le_trans hlo (hin e he).1, Nat.le_trans (hin e he).2 hhi⟩⟩, h.others, h.opened⟩

/-- **Two stretches** of which the second binds behind the first make up one. -/
theorem trans (h₁ : t.Grows scope lo mid t') (h₂ : t'.Grows scope mid hi t'') (hlo : lo ≤ mid)
    (hhi : mid ≤ hi) : t.Grows scope lo hi t'' where
  size_le := Nat.le_trans h₁.size_le h₂.size_le
  own := by
    obtain ⟨s, old, hs, hs', hchr, hold⟩ := h₁.own
    obtain ⟨s₁, new, hs₁, hs₁', hchr', hnew⟩ := h₂.own
    obtain rfl := Option.some.inj (hs'.symm.trans hs₁)
    refine ⟨s, new ++ old, hs, by simpa using hs₁', ?_, fun e he => ?_⟩
    · exact List.pairwise_append.mpr ⟨hchr', hchr, fun a ha b hb =>
        Nat.le_trans (hold b hb).2 (hnew a ha).1⟩
    · rcases List.mem_append.mp he with he | he
      · exact ⟨Nat.le_trans hlo (hnew e he).1, (hnew e he).2⟩
      · exact ⟨(hold e he).1, Nat.le_trans (hold e he).2 hhi⟩
  others := fun i hi hne =>
    (h₂.others i (Nat.lt_of_lt_of_le hi h₁.size_le) hne).trans (h₁.others i hi hne)
  opened := by
    intro i s hi hs
    have hne : i ≠ scope := (Nat.ne_of_lt (Nat.lt_of_lt_of_le h₁.scope_lt hi)).symm
    by_cases hold : i < t'.scopes.size
    · exact h₁.opened i s hi (h₂.others i hold hne ▸ hs)
    · exact h₂.opened i s (Nat.le_of_not_lt hold) hs

/-- **Many stretches.** Those that bind anything do so one behind the other. -/
theorem foldl {α : Type} {f : Table → α → Table} (binds : α → Prop) (first last : α → Nat)
    {l : List α} {t : Table} (hlt : scope < t.scopes.size) (hle : lo ≤ hi)
    (hskip : ∀ x ∈ l, ¬ binds x → ∀ t, (f t x).scopes = t.scopes)
    (hstep : ∀ x ∈ l, binds x → ∀ t : Table, scope < t.scopes.size →
      t.Grows scope (first x) (last x) (f t x))
    (hin : ∀ x ∈ l, binds x → lo ≤ first x ∧ first x ≤ last x ∧ last x ≤ hi)
    (hord : l.Pairwise fun x y => binds x → binds y → last x ≤ first y) :
    t.Grows scope lo hi (l.foldl f t) := by
  induction l generalizing t lo with
  | nil => exact refl hlt
  | cons x l ih =>
    obtain ⟨hx, hl⟩ := List.pairwise_cons.mp hord
    have hskip' := fun y hy => hskip y (List.mem_cons_of_mem x hy)
    have hstep' := fun y hy => hstep y (List.mem_cons_of_mem x hy)
    rw [List.foldl_cons]
    by_cases hb : binds x
    · obtain ⟨hlo, hxx, hhi⟩ := hin x List.mem_cons_self hb
      have hfirst := hstep x List.mem_cons_self hb t hlt
      have hrest := ih (Nat.lt_of_lt_of_le hlt hfirst.size_le) hhi hskip' hstep'
        (fun y hy hby => ⟨hx y hy hb hby, (hin y (List.mem_cons_of_mem x hy) hby).2⟩) hl
      exact (hfirst.mono hlo (Nat.le_refl _)).trans hrest (Nat.le_trans hlo hxx) hhi
    · have hscopes := hskip x List.mem_cons_self hb t
      have hrest := ih (t := f t x) (by rw [hscopes]; exact hlt) hle hskip' hstep'
        (fun y hy => hin y (List.mem_cons_of_mem x hy)) hl
      exact hrest.congr hscopes.symm rfl

/-- A fold that binds everything at one position. -/
theorem foldl_at {α : Type} {f : Table → α → Table} {l : List α} {pos : Nat}
    (hlt : scope < t.scopes.size)
    (hstep : ∀ x ∈ l, ∀ t : Table, scope < t.scopes.size → t.Grows scope pos pos (f t x)) :
    t.Grows scope pos pos (l.foldl f t) :=
  foldl (fun _ => True) (fun _ => pos) (fun _ => pos) hlt
    (Nat.le_refl _) (fun _ _ h => absurd trivial h) (fun x hx _ => hstep x hx)
    (fun _ _ _ => ⟨Nat.le_refl _, Nat.le_refl _, Nat.le_refl _⟩)
    (List.pairwise_of_forall fun _ _ _ _ => Nat.le_refl _)

end Grows

/-! ### Steps -/

@[simp] theorem scopes_place (t : Table) (n : Node) (scope : Nat) :
    (t.place n scope).scopes = t.scopes := rfl

theorem grows_bind {name : String} {pos : Nat} {last : Option Nat} {bound : Bound}
    (hlt : scope < t.scopes.size) : t.Grows scope pos pos (t.bind scope name pos last bound) where
  size_le := by simp [bind]
  own := by
    refine ⟨_, [⟨name, pos, last, bound⟩], Array.getElem?_eq_getElem hlt, ?_, ?_, ?_⟩
    · simp [bind, hlt, Array.getElem_modify]
    · exact List.pairwise_singleton _ _
    · simp
  others := fun i _ hne => by simp [bind, Array.getElem?_modify, hne.symm]
  opened := by
    intro i s hi hs
    have hlt' := (Array.getElem?_eq_some_iff.mp hs).1
    simp only [bind, Array.size_modify] at hlt'
    omega

/-- A new scope behind the old ones grows by itself; the scope around it does not change. -/
theorem grows_openScope {kind : ScopeKind} (mid : Nat) (hlt : scope < t.scopes.size)
    (h : (t.openScope kind scope n).Grows t.scopes.size lo hi t') :
    t.Grows scope mid mid t' := by
  have hsize : (t.openScope kind scope n).scopes.size = t.scopes.size + 1 := by simp [openScope]
  have hold : ∀ i < t.scopes.size, t'.scopes[i]? = t.scopes[i]? := fun i hi => by
    rw [h.others i (by omega) (Nat.ne_of_lt hi)]
    simp [openScope, Array.getElem?_push, Nat.ne_of_lt hi]
  refine ⟨by have := h.size_le; omega, ?_, fun i hi _ => hold i hi, fun i s hi hs => ?_⟩
  · refine ⟨_, [], Array.getElem?_eq_getElem hlt, ?_, .nil, by simp⟩
    rw [hold scope hlt, Array.getElem?_eq_getElem hlt, List.nil_append]
  · by_cases hi' : i = t.scopes.size
    · obtain ⟨new, added, hnew, hnew', hchr, -⟩ := h.own
      obtain rfl : (⟨kind, some scope, n, []⟩ : Scope) = new := by
        simpa [openScope] using hnew
      subst hi'
      obtain rfl := Option.some.inj (hs.symm.trans hnew')
      refine ⟨by simpa using hchr, fun p hp => ?_⟩
      obtain rfl := Option.some.inj hp
      exact hlt
    · exact h.opened i s (by omega) hs

/-! ### Statements -/

theorem grows_shadowTargets {target : Node} {pos : Nat} (hlt : scope < t.scopes.size) :
    t.Grows scope pos pos (t.shadowTargets target scope pos) :=
  Grows.foldl_at hlt fun _ _ _ h => grows_bind h

theorem grows_recordImport (hlt : scope < t.scopes.size) :
    t.Grows scope n.endByte n.endByte (t.recordImport n scope) := by
  refine Grows.foldl_at hlt fun item _ t h => ?_
  split
  · exact grows_bind h
  · split
    · exact grows_bind h
    · exact .refl h
  · exact .refl h

theorem grows_recordImportFrom (hlt : scope < t.scopes.size) :
    t.Grows scope n.endByte n.endByte (t.recordImportFrom n scope) := by
  rw [recordImportFrom]
  split
  · exact .refl hlt
  · refine Grows.foldl_at hlt fun item _ t h => ?_
    split
    · exact grows_bind h
    · exact .refl h

theorem grows_recordTypeStatement (hlt : scope < t.scopes.size) :
    t.Grows scope n.endByte n.endByte (t.recordTypeStatement n scope) := by
  rw [recordTypeStatement]
  split
  · exact grows_bind hlt
  · exact .refl hlt

theorem grows_recordAssignment (hlt : scope < t.scopes.size) :
    t.Grows scope n.endByte n.endByte (t.recordAssignment catalog n scope) := by
  rw [recordAssignment]
  split
  · exact .refl hlt
  · split
    · split
      · exact .refl hlt
      · exact grows_bind hlt
    · split
      · exact .refl hlt
      · exact grows_shadowTargets hlt

theorem grows_recordDefinition {kind : DefinitionKind} (hlt : scope < t.scopes.size) :
    t.Grows scope n.endByte n.endByte (t.recordDefinition catalog parent n scope kind) := by
  rw [recordDefinition]
  split
  · exact grows_bind hlt
  · exact .refl hlt

/-- A `with` statement binds its targets one behind the other. -/
theorem grows_recordWith (hlt : scope < t.scopes.size) (hle : lo ≤ hi)
    (hin : ∀ i ∈ withItemsAll n.children, lo ≤ i.endByte ∧ i.endByte ≤ hi)
    (hord : (withItemsAll n.children).Pairwise fun a b => a.endByte ≤ b.endByte) :
    t.Grows scope lo hi (t.recordWith catalog n scope) := by
  refine Grows.foldl (fun _ => True) Node.endByte Node.endByte hlt hle
    (fun _ _ h => absurd trivial h) (fun item _ _ t h => ?_)
    (fun i hi _ => ⟨(hin i hi).1, Nat.le_refl _, (hin i hi).2⟩) (hord.imp fun h _ _ => h)
  split
  · exact .refl h
  · split
    · exact grows_bind h
    · exact .refl h

theorem grows_bindParameters (catalog : Catalog) {function list : Node} (outer : Nat)
    (hlist : function.childByField? "parameters" = some list) (hlt : scope < t.scopes.size) :
    t.Grows scope list.startByte list.startByte
      (t.bindParameters catalog function scope outer) := by
  rw [bindParameters, hlist]
  refine Grows.foldl_at hlt fun param _ t h => ?_
  dsimp only
  split
  · exact .refl h
  · exact grows_bind h

theorem bindParameters_of_none {function : Node} {outer : Nat}
    (hlist : function.childByField? "parameters" = none) :
    t.bindParameters catalog function scope outer = t := by
  rw [bindParameters, hlist]

theorem grows_record_of_simple (hk : simpleKinds.contains n.kind = true)
    (hlt : scope < t.scopes.size) :
    t.Grows scope n.endByte n.endByte (t.record catalog parent n scope) := by
  simp only [simpleKinds, List.contains_cons, List.contains_nil, Bool.or_false, Bool.or_eq_true,
    beq_iff_eq] at hk
  rcases hk with hk | hk | hk <;> simp only [record, hk]
  · exact grows_recordImport hlt
  · exact grows_recordImportFrom hlt
  · exact grows_recordTypeStatement hlt

theorem grows_record_of_assignment (hk : n.kind = "assignment") (hlt : scope < t.scopes.size) :
    t.Grows scope n.endByte n.endByte (t.record catalog parent n scope) := by
  simp only [record, hk]
  exact grows_recordAssignment hlt

/-- A node that is no binding statement records nothing. -/
theorem record_of_not_isBinder (hk : isBinder n = false) :
    t.record catalog parent n scope = t := by
  simp only [isBinder, simpleKinds, compoundKinds, List.contains_cons, List.contains_nil,
    Bool.or_false, Bool.or_eq_false_iff, beq_eq_false_iff_ne, ne_eq] at hk
  obtain ⟨⟨⟨h₁, h₂, h₃⟩, h₄⟩, h₅, h₆, h₇, h₈⟩ := hk
  simp only [record]

end Table

end ApiSurface.Binding
