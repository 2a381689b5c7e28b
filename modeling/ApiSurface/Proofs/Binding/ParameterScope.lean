import ApiSurface.Proofs.Binding.Lookup
import ApiSurface.Proofs.Binding.Visits

/-!
# The scope of parameters

A function opens a scope for its parameters and its body, and the annotations of the parameters
belong to that scope (`Table.IsParameterScope`). What is bound around the function stays the same
all over the function, since nothing outside begins or ends to be visible inside it
(`Entry.IsSteady`).

So a look-up from an annotation asks the parameters first. For other names it gives what a look-up
around the function gives, anywhere in the function, apart from a class body that the function
stands in (`Table.IsParameterScope.lookupAt_eq`).
-/

namespace ApiSurface.Binding

open ApiSurface.Syntax (Node Tree)

variable {e : Entry} {n m f list : Node} {name : String} {p q : Nat}

/-- The position lies inside the node. -/
def Covers (n : Node) (pos : Nat) : Prop := n.startByte ≤ pos ∧ pos < n.endByte

/-! ### Steady bindings -/

/-- The binding is visible all over the node, or nowhere in it. -/
def Entry.IsSteady (e : Entry) (n : Node) : Prop :=
  ∀ p q, Covers n p → Covers n q → e.visibleAt p = e.visibleAt q

theorem Entry.isSteady_of_endByte_le (h : n.endByte ≤ e.visibleFrom) : e.IsSteady n := by
  have hhidden : ∀ p, Covers n p → e.visibleAt p = false := fun p hp => by
    have hlt : ¬ e.visibleFrom ≤ p := Nat.not_le_of_lt (Nat.lt_of_lt_of_le hp.2 h)
    simp [visibleAt, hlt]
  intro p q hp hq
  rw [hhidden p hp, hhidden q hq]

theorem Entry.isSteady_of_boundaries
    (h : ∀ b, e.IsBoundary b → b ≤ n.startByte ∨ n.endByte ≤ b) : e.IsSteady n := by
  intro p q ⟨hp₁, hp₂⟩ ⟨hq₁, hq₂⟩
  have hside : ∀ b, e.IsBoundary b → (b ≤ p ↔ b ≤ q) := fun b hb => by
    have := h b hb
    omega
  have hfrom : (e.visibleFrom ≤ p ↔ e.visibleFrom ≤ q) := hside _ (.inl rfl)
  cases huntil : e.visibleUntil with
  | none => simp [visibleAt, huntil, hfrom]
  | some last =>
    have hlast : (p < last ↔ q < last) := by
      have := hside last (.inr huntil)
      omega
    simp [visibleAt, huntil, hfrom, hlast]

/-! ### What precedes a statement -/

theorem compoundKinds_of_mem_bindingParts {part : Node} (h : part ∈ bindingParts n) :
    compoundKinds.contains n.kind = true := by
  unfold bindingParts at h
  split at h <;> simp_all [compoundKinds]

/-- The parts of a header lie inside the statement. -/
theorem endByte_le_of_mem_bindingParts {part : Node} (hreg : IsRegular n)
    (h : part ∈ bindingParts n) : part.endByte ≤ n.endByte := by
  have hchild : ∀ field, part ∈ (n.childByField? field).toList → part.endByte ≤ n.endByte :=
    fun field h => (hreg.laidOut.inside part
      (List.mem_of_find?_eq_some (Option.mem_toList.mp h))).2
  unfold bindingParts at h
  split at h
  · exact (encloses_of_mem_withItemsAll hreg h).2.2
  · exact hchild _ h
  · exact hchild _ h
  · simp at h

/-- A binding that stems from a node before or around a statement is steady in it: the statement
lies behind the header of everything around it. -/
theorem Entry.StemsFrom.isSteady (hstems : e.StemsFrom m) (hreg : IsRegular m)
    (hprec : Visit.Precedes m f) (hf : isBinder f = true) : e.IsSteady f := by
  refine isSteady_of_boundaries fun b hb => ?_
  rcases hprec with hbefore | ⟨c, hc, hfc⟩
  · refine .inl (Nat.le_trans ?_ hbefore)
    rcases hstems b hb with rfl | ⟨part, hpart, hle⟩
    · exact Nat.le_refl _
    · exact Nat.le_trans hle (endByte_le_of_mem_bindingParts hreg hpart)
  · have hin := (hreg.child hc).encloses hfc
    rcases hstems b hb with rfl | ⟨part, hpart, hle⟩
    · exact .inr (Nat.le_trans hin.2 (hreg.laidOut.inside c hc).2)
    · have hk := compoundKinds_of_mem_bindingParts hpart
      -- the part of the tree that holds a statement is a body, and bodies stand behind the header
      have hbody : isBody m c = true := by
        refine Decidable.byContradiction fun hno => ?_
        have hnothing := hreg.keepsStatements.ofHeader hk c hc (Bool.eq_false_iff.mpr hno) f hfc
        simp [hf] at hnothing
      have hbehind := hreg.keepsStatements.headerFirst hk part hpart c hc hbody
      exact .inl (Nat.le_trans hle (Nat.le_trans hbehind hin.1))

theorem Scope.find?_congr {s : Scope} (h : ∀ e ∈ s.entries, e.visibleAt p = e.visibleAt q) :
    s.find? name p = s.find? name q := by
  rw [find?, find?]
  congr 1
  generalize s.entries = l at h
  induction l with
  | nil => rfl
  | cons e l ih =>
    rw [List.find?_cons, List.find?_cons, h e List.mem_cons_self,
      ih fun e he => h e (List.mem_cons_of_mem _ he)]

/-! ### The bindings of a function -/

/-- Parameters are bound first, and everything else becomes visible behind their list. -/
structure HasParameters (f list : Node) (s : Scope) (added params : List Entry) : Prop where
  entries : s.entries = added ++ params
  behind : ∀ e ∈ added, list.endByte ≤ e.visibleFrom
  parameters : ∀ e ∈ params, Table.IsParameterEntry f e
  names : params.map (·.name) = (Table.parameterNames f).reverse

namespace HasParameters

variable {s : Scope} {added params new : List Entry}

theorem add (h : HasParameters f list s added params)
    (hnew : ∀ e ∈ new, list.endByte ≤ e.visibleFrom) :
    HasParameters f list { s with entries := new ++ s.entries } (new ++ added) params where
  entries := by simp [h.entries]
  behind := fun e he => (List.mem_append.mp he).elim (hnew e) (h.behind e)
  parameters := h.parameters
  names := h.names

theorem not_offers_of_mem_added (h : HasParameters f list s added params)
    (hp : p < list.endByte) (he : e ∈ added) : ¬ e.Offers name p := by
  rintro ⟨-, hvisible⟩
  simp only [Entry.visibleAt, Bool.and_eq_true, decide_eq_true_eq] at hvisible
  exact Nat.not_le_of_lt hp (Nat.le_trans (h.behind e he) hvisible.1)

theorem lacks (h : HasParameters f list s added params) (hp : p < list.endByte)
    (hname : name ∉ Table.parameterNames f) : s.Lacks name p := by
  intro e he
  rw [h.entries] at he
  rcases List.mem_append.mp he with he | he
  · exact h.not_offers_of_mem_added hp he
  · rintro ⟨rfl, -⟩
    refine hname (List.mem_reverse.mp ?_)
    rw [← h.names]
    exact List.mem_map_of_mem he

/-- Inside the list a parameter is what its name is bound to. -/
theorem exists_find?_eq (h : HasParameters f list s added params)
    (hlist : f.childByField? "parameters" = some list) (hfrom : list.startByte ≤ p)
    (hp : p < list.endByte) (hname : name ∈ Table.parameterNames f) :
    ∃ q, s.find? name p = some (.parameter q) := by
  rw [← List.mem_reverse, ← h.names, List.mem_map] at hname
  obtain ⟨e, he, rfl⟩ := hname
  have hoffers : e.visibleAt p = true := by
    obtain ⟨l, hl, hvisible⟩ := (h.parameters e he).visible
    obtain rfl := Option.some.inj (hlist.symm.trans hl)
    simp [Entry.visibleAt, hvisible, (h.parameters e he).endless, hfrom]
  -- nothing that is bound later is visible yet, so the search comes to the parameters
  have hadded : added.find? (fun o => o.name == e.name && o.visibleAt p) = none := by
    rw [List.find?_eq_none]
    intro o ho hoff
    exact h.not_offers_of_mem_added hp ho (by simpa [Entry.Offers] using hoff)
  have hparams : (params.find? fun o => o.name == e.name && o.visibleAt p).isSome := by
    rw [List.find?_isSome]
    exact ⟨e, he, by simp [hoffers]⟩
  obtain ⟨o, ho⟩ := Option.isSome_iff_exists.mp hparams
  obtain ⟨q, hq⟩ := (h.parameters o (List.mem_of_find?_eq_some ho)).isParameter
  refine ⟨q, ?_⟩
  rw [Scope.find?, h.entries, List.find?_append, hadded, Option.none_or, ho, Option.map_some, hq]

end HasParameters

namespace Table

variable {t : Table} {catalog : Catalog} {start start' i inner : Nat}

/-- Look-ups agree when all scopes on the way say the same. -/
theorem findFrom_congr (hchr : t.IsChronological)
    (h : ∀ j s, j ≤ i → t.scopes[j]? = some s → own start j s name p = own start' j s name q) :
    t.findFrom name p start i = t.findFrom name q start' i := by
  induction i using Nat.strongRecOn with
  | ind i ih =>
    cases hs : t.scopes[i]? with
    | none => rw [findFrom_of_none hs, findFrom_of_none hs]
    | some s =>
      rw [findFrom_eq hchr hs, findFrom_eq hchr hs, h i s (Nat.le_refl _) hs]
      cases hparent : s.parent with
      | none => rfl
      | some o =>
        have hlt := hchr.parent_lt i s o hs hparent
        rw [Option.bind_some, Option.bind_some,
          ih o hlt fun j s hj => h j s (Nat.le_trans hj (Nat.le_of_lt hlt))]

/-! ### The scope that a function opens -/

/-- What the table says about a function with the given list of parameters: the function opened
the scope `inner`. -/
structure IsParameterScope (t : Table) (f list : Node) (inner : Nat) : Prop where
  /-- The scope that the function belongs to was there before. -/
  outer_lt : t.scopeOf f < inner
  /-- The list and everything in it belongs to the scope. -/
  below : ∀ m ∈ list.descendants, t.scopeOf m = inner
  /-- The scope holds the parameters, and lies inside the scope that the function belongs to. -/
  scope : ∃ s added params, t.scopes[inner]? = some s ∧ s.kind = .function ∧
    s.parent = some (t.scopeOf f) ∧ HasParameters f list s added params
  /-- The scopes from before stay the same all over the function. -/
  around : ∀ j s, j < inner → t.scopes[j]? = some s → ∀ e ∈ s.entries, e.IsSteady f

/-- **Look-ups from annotations.** For names that are not taken by parameters, nor bound in a class
body that the function stands in, a look-up from inside the list of parameters gives what a look-up
around the function gives. -/
theorem IsParameterScope.lookupAt_eq (h : t.IsParameterScope f list inner)
    (hchr : t.IsChronological) (hp : Covers f p) (hlist : p < list.endByte) (hq : Covers f q)
    (hname : name ∉ parameterNames f)
    (hclass : ∀ s, t.scopes[t.scopeOf f]? = some s → s.kind = .classBody → s.Lacks name q) :
    t.lookupAt name inner p = t.lookupAt name (t.scopeOf f) q := by
  obtain ⟨s, added, params, hs, -, hparent, hparams⟩ := h.scope
  have hown : own inner inner s name p = none :=
    own_eq_none_iff.mpr fun _ => hparams.lacks hlist hname
  rw [lookupAt, findFrom_eq hchr hs, hown, Option.none_or, hparent, Option.bind_some]
  refine findFrom_congr hchr fun j s hj hjs => ?_
  have hlt : j < inner := Nat.lt_of_le_of_lt hj h.outer_lt
  have hsame : s.find? name p = s.find? name q :=
    Scope.find?_congr fun e he => h.around j s hlt hjs e he p q hp hq
  by_cases hkind : s.kind = .classBody
  · -- from inside no class body counts; from around the function its own one does
    rw [own_eq_none_iff.mpr fun hown => absurd (hown hkind) (Nat.ne_of_lt hlt)]
    refine (own_eq_none_iff.mpr fun hown => ?_).symm
    obtain rfl := hown hkind
    exact hclass s hjs hkind
  · rw [own, own, if_pos (sees_iff.mpr fun hk => absurd hk hkind),
      if_pos (sees_iff.mpr fun hk => absurd hk hkind), hsame]

/-- A look-up of the name of a parameter gives a parameter. -/
theorem IsParameterScope.exists_lookupAt_eq (h : t.IsParameterScope f list inner)
    (hchr : t.IsChronological) (hlist : f.childByField? "parameters" = some list)
    (hfrom : list.startByte ≤ p) (hp : p < list.endByte) (hname : name ∈ parameterNames f) :
    ∃ q, t.lookupAt name inner p = some (.parameter q) := by
  obtain ⟨s, added, params, hs, hkind, -, hparams⟩ := h.scope
  obtain ⟨q, hq⟩ := hparams.exists_find?_eq hlist hfrom hp hname
  have hsees : sees inner inner s = true := sees_iff.mpr fun _ => rfl
  exact ⟨q, by rw [lookupAt, findFrom_eq hchr hs, own, if_pos hsees, hq, Option.some_or]⟩

end Table

namespace Visit

variable {tree : Tree} {catalog : Catalog} {v w : Visit}

/-- The scope that a function opens, when its children have been visited. -/
theorem scope_result (hw : w.IsSound) (hopens : Table.opens? w.node = some .function)
    (hlist : w.node.childByField? "parameters" = some list) :
    ∃ s added params, (w.result catalog).scopes[w.table.scopes.size]? = some s ∧
      s.kind = .function ∧ s.parent = some w.scope ∧ HasParameters w.node list s added params := by
  have hk := Table.kind_of_opens?_function hopens
  have hcompound := Table.compound_of_opens? hopens
  obtain ⟨params, hbind, hparams, hnames⟩ := Table.exists_bindParameters_eq
    ((w.recorded catalog).openScope .function w.scope w.node) catalog w.node
    (w.recorded catalog).scopes.size w.scope
  have hentered : (w.entered catalog).scopes[w.table.scopes.size]?
      = some ⟨.function, some w.scope, w.node, params⟩ := by
    have hopened := Table.getElem?_openScope (w.recorded catalog) .function w.scope w.node
    rw [← w.size_recorded catalog, entered, hopens]
    show ((w.recorded catalog).enter catalog .function w.scope w.node).scopes[_]? = _
    rw [Table.enter_function, hbind, Table.getElem?_push hopened, List.append_nil]
  have hlater : (w.entered catalog).Later list.endByte (w.result catalog) := by
    rw [result_eq]
    -- what is no body binds nothing, and bodies start behind the list
    refine Table.later_visitAll (fun c hc => hw.regular.child hc) (fun c hc => ?_)
      (Nat.lt_of_lt_of_le hw.scope_lt (w.size_le_entered catalog))
      (inner_lt_entered catalog hw.scope_lt)
    cases hbody : isBody w.node c with
    | false => exact .inl (hw.regular.keepsStatements.ofHeader hcompound c hc hbody)
    | true =>
      exact .inr (hw.regular.keepsStatements.headerFirst hcompound list
        (by simp [bindingParts, hk, hlist]) c hc hbody)
  obtain ⟨added, hresult, hadded⟩ := hlater.scopes _ _ hentered
  exact ⟨_, added, params, hresult, rfl, rfl, rfl, hadded, hparams, hnames⟩

/-- The list of parameters and everything in it is visited in the scope that the function opens. -/
theorem exists_within_parameters (hw : w.IsSound) (hopens : Table.opens? w.node = some .function)
    (hlist : w.node.childByField? "parameters" = some list) (hm : m ∈ list.descendants) :
    ∃ v, Within catalog w v ∧ v.node = m ∧ v.scope = w.table.scopes.size := by
  have hk := Table.kind_of_opens?_function hopens
  have hmem : list ∈ w.node.children := List.mem_of_find?_eq_some hlist
  have hfield : list.field = some "parameters" := by simpa using List.find?_some hlist
  have hnothing : BindsNothing list := by
    refine hw.regular.keepsStatements.ofHeader (Table.compound_of_opens? hopens) list hmem ?_
    simp [isBody, hfield, hk]
  obtain ⟨before, after, hsplit⟩ := List.append_of_mem hmem
  obtain ⟨v, hv, rfl⟩ := Within.exists_of_mem_descendants catalog
    (w.child catalog before list) hm
  refine ⟨v, .head ⟨before, list, after, hsplit, rfl⟩ hv, rfl, ?_⟩
  rw [hv.scope_eq hnothing, child, inner, hopens]
  simp [Table.isInner, hfield]

/-- What is bound around a definition is steady in it. -/
theorem isSteady_around (hreg : IsRegular tree.root) (hnum : tree.IsNumbered)
    (hw : Within catalog (start tree) w) {kind : ScopeKind}
    (hopens : Table.opens? w.node = some kind) {j : Nat} {s : Scope} (hj : j < w.table.scopes.size)
    (hs : (Table.build tree catalog).scopes[j]? = some s) (he : e ∈ s.entries) :
    e.IsSteady w.node := by
  have hstart := isSound_start hreg hnum
  have hsound := hw.isSound hstart
  have hown : w.table.Later w.node.endByte (w.result catalog) :=
    (Table.grows_visit_of_opens? hsound.regular hopens hsound.scope_lt).later
  have hlater : w.table.Later w.node.endByte (Table.build tree catalog) :=
    hown.trans (hw.later hstart)
  obtain ⟨s₀, hs₀⟩ : ∃ s₀, w.table.scopes[j]? = some s₀ := ⟨_, Array.getElem?_eq_getElem hj⟩
  obtain ⟨added, hs', hadded⟩ := hlater.scopes j s₀ hs₀
  obtain rfl := Option.some.inj (hs.symm.trans hs')
  rcases List.mem_append.mp he with he | he
  · exact Entry.isSteady_of_endByte_le (hadded e he)
  · rcases hw.has_table hstart ⟨j, s₀, hs₀, he⟩ with hinitial | ⟨m, hm, hstems, hprec⟩
    · exact absurd hinitial (not_has_start tree e)
    · refine hstems.isSteady (fun k hk => hreg k (Node.mem_descendants_trans hm hk)) hprec ?_
      simp only [isBinder, Table.compound_of_opens? hopens, Bool.or_true]

theorem scopeOf_eq (hreg : IsRegular tree.root) (hnum : tree.IsNumbered)
    (hw : Within catalog (start tree) w) : (Table.build tree catalog).scopeOf w.node = w.scope := by
  have h := hw.nodeScope_eq (isSound_start hreg hnum)
  rw [result_start] at h
  rw [Table.scopeOf, h]
  rfl

end Visit

/-- **The scope of parameters.** Every function of a regular tree has one. -/
theorem Table.exists_isParameterScope {tree : Tree} (hreg : IsRegular tree.root)
    (hnum : tree.IsNumbered) (catalog : Catalog) (hf : f ∈ tree.root.descendants)
    (hk : f.kind = "function_definition") (hlist : f.childByField? "parameters" = some list) :
    ∃ inner, (build tree catalog).IsParameterScope f list inner := by
  have hstart := Visit.isSound_start hreg hnum
  obtain ⟨w, hw, rfl⟩ := Visit.Within.exists_of_mem_descendants catalog (Visit.start tree) hf
  have hsound := hw.isSound hstart
  have hopens : opens? w.node = some .function := by simp [opens?, hk]
  have hscope := Visit.scopeOf_eq hreg hnum hw
  refine ⟨w.table.scopes.size, hscope ▸ hsound.scope_lt, fun m hm => ?_, ?_,
    fun j s hj hs e he => Visit.isSteady_around hreg hnum hw hopens hj hs he⟩
  · obtain ⟨v, hv, rfl, hinner⟩ := Visit.exists_within_parameters hsound hopens hlist hm
    rw [Visit.scopeOf_eq hreg hnum (hw.trans hv), hinner]
  · obtain ⟨s, added, params, hs, hkind, hparent, hparams⟩ :=
      Visit.scope_result hsound hopens hlist
    obtain ⟨new, hs', hnew⟩ := (hw.later hstart).scopes _ _ hs
    have hend := (hsound.regular.laidOut.inside list (List.mem_of_find?_eq_some hlist)).2
    exact ⟨_, new ++ added, params, hs', hkind, hscope ▸ hparent,
      hparams.add fun e he => Nat.le_trans hend (hnew e he)⟩

end ApiSurface.Binding
