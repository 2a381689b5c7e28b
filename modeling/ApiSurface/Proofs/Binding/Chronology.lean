import ApiSurface.Proofs.Binding.Recording

/-!
# The order of bindings

The pass over a regular tree records the bindings of each scope in the order in which they become
visible (`Table.isChronological_build`), although it meets statements before what they contain and
opens scopes on the way.

The invariant is about one node: visiting it binds names in its scope only from positions inside
the node (`Table.grows_visit`). Compound statements bind their header first, and their bodies start
behind it.
-/

namespace ApiSurface.Binding

open ApiSurface.Syntax (Node Tree)

namespace Table

variable {t : Table} {catalog : Catalog} {parent : Option Node} {n : Node} {scope inner lo hi : Nat}

/-! ### One visit -/

theorem visitAll_eq_foldl (cs : List Node) : visitAll catalog parent scope inner t cs =
    cs.foldl (fun t c => visit catalog parent (if isInner c then inner else scope) t c) t := by
  induction cs generalizing t with
  | nil => rfl
  | cons c cs ih => rw [visitAll, ih, List.foldl_cons]

theorem visit_of_opens?_eq_none (h : opens? n = none) : visit catalog parent scope t n =
    visitAll catalog (some n) scope scope ((t.place n scope).record catalog parent n scope)
      n.children := by
  cases n with
  | mk i l tx cs => rw [visit, h, Node.children]

/-- The table in which the children of a definition are visited: a new scope, with the parameters
of a function. -/
def enter (t : Table) (catalog : Catalog) (kind : ScopeKind) (scope : Nat) (n : Node) : Table :=
  let opened := t.openScope kind scope n
  if kind = .function then opened.bindParameters catalog n t.scopes.size scope else opened

theorem enter_function : t.enter catalog .function scope n =
    (t.openScope .function scope n).bindParameters catalog n t.scopes.size scope := rfl

theorem enter_classBody : t.enter catalog .classBody scope n = t.openScope .classBody scope n := rfl

theorem visit_of_opens? {kind : ScopeKind} (h : opens? n = some kind) :
    visit catalog parent scope t n =
      let recorded := (t.place n scope).record catalog parent n scope
      visitAll catalog (some n) scope recorded.scopes.size (recorded.enter catalog kind scope n)
        n.children := by
  cases n with
  | mk i l tx cs => rw [visit, h, Node.children]; rfl

theorem opens?_eq_none_of_not_isBinder (h : isBinder n = false) : opens? n = none := by
  unfold opens?
  split
  · next hk => simp [isBinder, compoundKinds, hk] at h
  · next hk => simp [isBinder, compoundKinds, hk] at h
  · rfl

theorem kind_of_opens? {kind : ScopeKind} (h : opens? n = some kind) :
    kind = .function ∧ n.kind = "function_definition" ∨
      kind = .classBody ∧ n.kind = "class_definition" := by
  unfold opens? at h
  split at h
  · next hk => exact .inl ⟨(Option.some.inj h).symm, hk⟩
  · next hk => exact .inr ⟨(Option.some.inj h).symm, hk⟩
  · simp at h

theorem kind_of_opens?_function (h : opens? n = some .function) :
    n.kind = "function_definition" := by
  rcases kind_of_opens? h with ⟨-, hk⟩ | ⟨hkind, -⟩
  · exact hk
  · simp at hkind

theorem compound_of_opens? {kind : ScopeKind} (h : opens? n = some kind) :
    compoundKinds.contains n.kind = true := by
  rcases kind_of_opens? h with ⟨-, hk⟩ | ⟨-, hk⟩ <;> simp [compoundKinds, hk]

theorem isInner_of_isBody {kind : ScopeKind} {c : Node} (h : opens? n = some kind)
    (hc : isBody n c = true) : isInner c = true := by
  have hfor : n.kind ≠ "for_statement" := by
    rcases kind_of_opens? h with ⟨-, hk⟩ | ⟨-, hk⟩ <;> simp [hk]
  have hbody : c.field = some "body" := by simpa [isBody, hfor] using hc
  simp [isInner, hbody]

theorem grows_record_of_opens? {kind : ScopeKind} (h : opens? n = some kind)
    (hlt : scope < t.scopes.size) :
    t.Grows scope n.endByte n.endByte (t.record catalog parent n scope) := by
  rcases kind_of_opens? h with ⟨-, hk⟩ | ⟨-, hk⟩ <;> simp only [record, hk]
  · exact grows_recordDefinition hlt
  · exact grows_recordDefinition hlt

/-- Where nothing is bound, no scope changes. -/
theorem scopes_visit_of_bindsNothing (h : BindsNothing n) :
    (visit catalog parent scope t n).scopes = t.scopes := by
  induction n using Node.rec_children generalizing t parent scope with
  | step n ih =>
    have hn := h n n.self_mem_descendants
    rw [visit_of_opens?_eq_none (opens?_eq_none_of_not_isBinder hn), record_of_not_isBinder hn,
      visitAll_eq_foldl]
    refine List.foldlRecOn (motive := fun u : Table => u.scopes = t.scopes) _ _ rfl
      fun u hu c hc => ?_
    rw [ih c hc (h.child hc), hu]

theorem opens?_eq_none_of_bindsAt {pos : Nat} {m : Node} (h : BindsAt pos n)
    (hm : m ∈ n.descendants) : opens? m = none := by
  cases hb : isBinder m with
  | false => exact opens?_eq_none_of_not_isBinder hb
  | true => simp [opens?, (h m hm hb).1]

/-- A chain of assignments binds everything where it ends. -/
theorem grows_visit_of_bindsAt {pos : Nat} (h : BindsAt pos n) (hlt : scope < t.scopes.size) :
    t.Grows scope pos pos (visit catalog parent scope t n) := by
  induction n using Node.rec_children generalizing t parent with
  | step n ih =>
    have hopens : opens? n = none := opens?_eq_none_of_bindsAt h n.self_mem_descendants
    have hrecord : (t.place n scope).Grows scope pos pos
        ((t.place n scope).record catalog parent n scope) := by
      by_cases hb : isBinder n
      · obtain ⟨hk, rfl⟩ := h n n.self_mem_descendants hb
        exact grows_record_of_assignment hk hlt
      · rw [record_of_not_isBinder (Bool.eq_false_iff.mpr hb)]
        exact .refl hlt
    rw [visit_of_opens?_eq_none hopens, visitAll_eq_foldl]
    refine ((hrecord.congr (scopes_place t n scope).symm rfl).trans ?_ (Nat.le_refl _)
      (Nat.le_refl _))
    refine Grows.foldl_at (Nat.lt_of_lt_of_le hlt hrecord.size_le) fun c hc u hu => ?_
    rw [ite_self]
    exact ih c hc (h.child hc) hu

/-- What one visit adds, when the node lies between two positions. -/
private def GrowsInside (catalog : Catalog) (n : Node) : Prop :=
  ∀ (t : Table) (parent : Option Node) (scope : Nat), scope < t.scopes.size →
    t.Grows scope n.startByte n.endByte (visit catalog parent scope t n)

/-- The children of a node: those that bind nothing and those that belong to one scope and lie
between two positions. -/
private theorem grows_visitAll (parent : Option Node) (scope inner : Nat) {own : Nat}
    (hreg : IsRegular n) (hlt : own < t.scopes.size) (hle : lo ≤ hi)
    (ih : ∀ c ∈ n.children, GrowsInside catalog c)
    (hown : ∀ c ∈ n.children, ¬ BindsNothing c →
      (if isInner c then inner else scope) = own ∧ lo ≤ c.startByte ∧ c.endByte ≤ hi) :
    t.Grows own lo hi (visitAll catalog parent scope inner t n.children) := by
  rw [visitAll_eq_foldl]
  refine Grows.foldl (fun c => ¬ BindsNothing c) Node.startByte Node.endByte hlt hle
    (fun c _ hc u => ?_) (fun c hc hb u hu => ?_)
    (fun c hc hb => ?_) (hreg.laidOut.inOrder.imp fun h _ _ => h)
  · exact scopes_visit_of_bindsNothing (Decidable.not_not.mp hc)
  · rw [(hown c hc hb).1]
    exact ih c hc u parent own hu
  · exact ⟨(hown c hc hb).2.1, (hreg.child hc).laidOut.forwards, (hown c hc hb).2.2⟩

/-- A position between the parts of a header and the bodies behind it. -/
private theorem exists_separator {parts : List Node} (bodies : List Node) (hle : lo ≤ hi)
    (hparts : ∀ p ∈ parts, lo ≤ p.endByte ∧ p.endByte ≤ hi)
    (hbodies : ∀ b ∈ bodies, lo ≤ b.startByte)
    (hbehind : ∀ p ∈ parts, ∀ b ∈ bodies, p.endByte ≤ b.startByte) :
    ∃ mid, lo ≤ mid ∧ mid ≤ hi ∧ (∀ p ∈ parts, p.endByte ≤ mid) ∧
      ∀ b ∈ bodies, mid ≤ b.startByte := by
  induction parts with
  | nil => exact ⟨lo, Nat.le_refl _, hle, by simp, hbodies⟩
  | cons p parts ih =>
    obtain ⟨mid, h₁, h₂, h₃, h₄⟩ := ih (fun q hq => hparts q (List.mem_cons_of_mem p hq))
      fun q hq => hbehind q (List.mem_cons_of_mem p hq)
    have hp := hparts p List.mem_cons_self
    refine ⟨max p.endByte mid, Nat.le_trans h₁ (Nat.le_max_right _ _),
      Nat.max_le.mpr ⟨hp.2, h₂⟩, ?_,
      fun b hb => Nat.max_le.mpr ⟨hbehind p List.mem_cons_self b hb, h₄ b hb⟩⟩
    intro q hq
    rcases List.mem_cons.mp hq with rfl | hq
    · exact Nat.le_max_left _ _
    · exact Nat.le_trans (h₃ q hq) (Nat.le_max_right _ _)

/-- The header of a compound statement binds nothing, and its bodies start at `lo` or behind. -/
private theorem grows_visitAll_of_compound (parent : Option Node) (scope inner : Nat) {own : Nat}
    (hreg : IsRegular n) (hk : compoundKinds.contains n.kind = true)
    (hlt : own < t.scopes.size) (hle : lo ≤ n.endByte)
    (ih : ∀ c ∈ n.children, GrowsInside catalog c) (hown : ∀ c ∈ n.children, isBody n c = true →
      (if isInner c then inner else scope) = own ∧ lo ≤ c.startByte) :
    t.Grows own lo n.endByte (visitAll catalog parent scope inner t n.children) := by
  refine grows_visitAll parent scope inner hreg hlt hle ih fun c hc hb => ?_
  cases hbody : isBody n c with
  | false => exact absurd (hreg.keepsStatements.ofHeader hk c hc hbody) hb
  | true =>
    have h := hown c hc hbody
    exact ⟨h.1, h.2, (hreg.laidOut.inside c hc).2⟩

/-- A statement with bodies that belong to the scope of the statement. -/
private theorem growsInside_of_compound (hreg : IsRegular n)
    (hk : compoundKinds.contains n.kind = true) (hopens : opens? n = none)
    (ih : ∀ c ∈ n.children, GrowsInside catalog c)
    (hin : ∀ p ∈ bindingParts n, n.startByte ≤ p.endByte ∧ p.endByte ≤ n.endByte)
    (hrecord : ∀ (t : Table) (parent : Option Node) (scope mid : Nat), scope < t.scopes.size →
      n.startByte ≤ mid → (∀ p ∈ bindingParts n, p.endByte ≤ mid) →
      t.Grows scope n.startByte mid (t.record catalog parent n scope)) :
    GrowsInside catalog n := by
  intro t parent scope hlt
  obtain ⟨mid, hlo, hhi, hparts, hbodies⟩ :=
    exists_separator (n.children.filter (isBody n)) hreg.laidOut.forwards hin
      (fun c hc => (hreg.laidOut.inside c (List.mem_filter.mp hc).1).1)
      fun p hp c hc => hreg.keepsStatements.headerFirst hk p hp c (List.mem_filter.mp hc).1
        (List.mem_filter.mp hc).2
  have hheader := hrecord (t.place n scope) parent scope mid hlt hlo hparts
  have hrest := grows_visitAll_of_compound (some n) scope scope hreg hk
    (Nat.lt_of_lt_of_le hlt hheader.size_le) hhi ih fun c hc hb =>
      ⟨ite_self _, hbodies c (List.mem_filter.mpr ⟨hc, hb⟩)⟩
  rw [visit_of_opens?_eq_none hopens]
  exact (hheader.congr (scopes_place t n scope).symm rfl).trans hrest hlo hhi

/-- A statement without bodies binds where it ends. -/
private theorem growsInside_of_record (hreg : IsRegular n) (hopens : opens? n = none)
    (hchildren : ∀ c ∈ n.children, BindsAt n.endByte c)
    (hrecord : ∀ (t : Table) (parent : Option Node) (scope : Nat), scope < t.scopes.size →
      t.Grows scope n.endByte n.endByte (t.record catalog parent n scope)) :
    GrowsInside catalog n := by
  intro t parent scope hlt
  have hown := hrecord (t.place n scope) parent scope hlt
  have hrest : ((t.place n scope).record catalog parent n scope).Grows scope n.endByte n.endByte
      (visitAll catalog (some n) scope scope ((t.place n scope).record catalog parent n scope)
        n.children) := by
    rw [visitAll_eq_foldl]
    refine Grows.foldl_at (Nat.lt_of_lt_of_le hlt hown.size_le) fun c hc u hu => ?_
    rw [ite_self]
    exact grows_visit_of_bindsAt (hchildren c hc) hu
  rw [visit_of_opens?_eq_none hopens]
  have hall := (hown.congr (scopes_place t n scope).symm rfl).trans hrest (Nat.le_refl _)
    (Nat.le_refl _)
  exact hall.mono hreg.laidOut.forwards (Nat.le_refl _)

private theorem growsInside_of_with (hreg : IsRegular n) (hk : n.kind = "with_statement")
    (ih : ∀ c ∈ n.children, GrowsInside catalog c) : GrowsInside catalog n := by
  have hparts : bindingParts n = withItemsAll n.children := by simp only [bindingParts, hk]
  refine growsInside_of_compound hreg (by simp [compoundKinds, hk]) (by simp [opens?, hk]) ih
    (fun p hp => ?_) fun t parent scope mid hlt hlo hmid => ?_
  · have h := encloses_of_mem_withItemsAll hreg (hparts ▸ hp)
    exact ⟨Nat.le_trans h.1 h.2.1, h.2.2⟩
  · simp only [record, hk]
    refine grows_recordWith hlt hlo (fun i hi => ?_) ?_
    · have h := encloses_of_mem_withItemsAll hreg hi
      exact ⟨Nat.le_trans h.1 h.2.1, hmid i (hparts ▸ hi)⟩
    · exact (pairwise_withItemsAll hreg).imp_of_mem fun _ hb hab =>
        Nat.le_trans hab (encloses_of_mem_withItemsAll hreg hb).2.1

private theorem growsInside_of_for (hreg : IsRegular n) (hk : n.kind = "for_statement")
    (ih : ∀ c ∈ n.children, GrowsInside catalog c) : GrowsInside catalog n := by
  have hparts : bindingParts n = (n.childByField? "left").toList := by
    simp only [bindingParts, hk]
  have hleft : ∀ l, n.childByField? "left" = some l →
      n.startByte ≤ l.endByte ∧ l.endByte ≤ n.endByte := fun l hl => by
    have hc := List.mem_of_find?_eq_some hl
    have hin := hreg.laidOut.inside l hc
    exact ⟨Nat.le_trans hin.1 (hreg.child hc).laidOut.forwards, hin.2⟩
  refine growsInside_of_compound hreg (by simp [compoundKinds, hk]) (by simp [opens?, hk]) ih
    (fun p hp => ?_) fun t parent scope mid hlt hlo hmid => ?_
  · exact hleft p (by simpa [hparts] using hp)
  · simp only [record, hk]
    split
    · next l hl =>
      have hend := hmid l (by simp [hparts, hl])
      exact (grows_shadowTargets hlt).mono (hleft l hl).1 hend
    · exact (Grows.refl hlt).mono hlo (Nat.le_refl _)

/-- The bodies of a definition belong to the scope that it opens. -/
private theorem grows_bodies (scope : Nat) {kind : ScopeKind} (hreg : IsRegular n)
    (hopens : opens? n = some kind) (ih : ∀ c ∈ n.children, GrowsInside catalog c)
    (hinner : inner < t.scopes.size) (hlo : lo ≤ n.endByte)
    (hstart : ∀ c ∈ n.children, isBody n c = true → lo ≤ c.startByte) :
    t.Grows inner lo n.endByte (visitAll catalog (some n) scope inner t n.children) :=
  grows_visitAll_of_compound _ _ _ hreg (compound_of_opens? hopens) hinner hlo ih fun c hc hb =>
    ⟨by rw [if_pos (isInner_of_isBody hopens hb)], hstart c hc hb⟩

/-- What a definition contains, in the scope that it opens: first the parameters, then the
bodies. -/
private theorem grows_contents {kind : ScopeKind} (hreg : IsRegular n)
    (hopens : opens? n = some kind) (ih : ∀ c ∈ n.children, GrowsInside catalog c) (scope : Nat) :
    ∃ lo hi, (t.openScope kind scope n).Grows t.scopes.size lo hi
      (visitAll catalog (some n) scope t.scopes.size (t.enter catalog kind scope n)
        n.children) := by
  have hinner : t.scopes.size < (t.openScope kind scope n).scopes.size := by simp [openScope]
  have hbodies := grows_bodies scope hreg hopens ih hinner hreg.laidOut.forwards
    fun c hc _ => (hreg.laidOut.inside c hc).1
  rcases kind_of_opens? hopens with ⟨rfl, hk⟩ | ⟨rfl, -⟩
  · rw [enter_function]
    cases hlist : n.childByField? "parameters" with
    | none =>
      rw [bindParameters_of_none hlist]
      exact ⟨_, _, hbodies⟩
    | some list =>
      have hc := List.mem_of_find?_eq_some hlist
      have hforwards := (hreg.child hc).laidOut.forwards
      have hend := (hreg.laidOut.inside list hc).2
      have hbind := grows_bindParameters catalog scope hlist hinner
      have hbehind := hreg.keepsStatements.headerFirst (compound_of_opens? hopens) list
        (by simp [bindingParts, hk, hlist])
      have hrest := grows_bodies scope hreg hopens ih
        (Nat.lt_of_lt_of_le hinner hbind.size_le) hend hbehind
      exact ⟨_, _, (hbind.mono (Nat.le_refl _) hforwards).trans hrest hforwards hend⟩
  · rw [enter_classBody]
    exact ⟨_, _, hbodies⟩

/-- A definition binds its name where it ends; everything else belongs to the scope it opens. -/
private theorem grows_visit_of_definition {kind : ScopeKind} (parent : Option Node)
    (hreg : IsRegular n) (hopens : opens? n = some kind)
    (ih : ∀ c ∈ n.children, GrowsInside catalog c) (hlt : scope < t.scopes.size) :
    t.Grows scope n.endByte n.endByte (visit catalog parent scope t n) := by
  have hname : (t.place n scope).Grows scope n.endByte n.endByte
      ((t.place n scope).record catalog parent n scope) := grows_record_of_opens? hopens hlt
  obtain ⟨lo, hi, hcontents⟩ := grows_contents hreg hopens ih scope
  rw [visit_of_opens? hopens]
  exact (hname.congr (scopes_place t n scope).symm rfl).trans
    (grows_openScope n.endByte (Nat.lt_of_lt_of_le hlt hname.size_le) hcontents)
    (Nat.le_refl _) (Nat.le_refl _)

/-- **One visit.** In a regular tree visiting a node binds names in its scope from positions inside
the node, one behind the other. -/
theorem grows_visit (hreg : IsRegular n) (hlt : scope < t.scopes.size) :
    t.Grows scope n.startByte n.endByte (visit catalog parent scope t n) := by
  suffices h : GrowsInside catalog n from h t parent scope hlt
  clear hlt
  induction n using Node.rec_children with
  | step n ih =>
    have ih' := fun c hc => ih c hc (hreg.child hc)
    cases hb : isBinder n with
    | false =>
      intro t parent scope hlt
      rw [visit_of_opens?_eq_none (opens?_eq_none_of_not_isBinder hb), record_of_not_isBinder hb]
      have hchildren := grows_visitAll (t := t.place n scope) (some n) scope scope hreg hlt
        hreg.laidOut.forwards ih' fun c hc _ => ⟨ite_self _, hreg.laidOut.inside c hc⟩
      exact hchildren.congr (scopes_place t n scope).symm rfl
    | true =>
      simp only [isBinder, Bool.or_eq_true, beq_iff_eq] at hb
      -- without bodies everything is bound where the node ends; bodies come behind the header
      rcases hb with (hk | hk) | hk
      · refine growsInside_of_record hreg ?_ (fun c hc m hm hbm => ?_)
          fun t parent scope hlt => grows_record_of_simple hk hlt
        · simp [simpleKinds] at hk
          rcases hk with hk | hk | hk <;> simp [opens?, hk]
        · have hno := hreg.keepsStatements.ofSimple hk c hc m hm
          simp [hno] at hbm
      · exact growsInside_of_record hreg (by simp [opens?, hk])
          (hreg.keepsStatements.ofAssignment hk)
          fun t parent scope hlt => grows_record_of_assignment hk hlt
      · have hk' := hk
        simp [compoundKinds] at hk'
        rcases hk' with hk' | hk' | hk' | hk'
        · exact growsInside_of_with hreg hk' ih'
        · exact growsInside_of_for hreg hk' ih'
        all_goals
          obtain ⟨kind, hopens⟩ : ∃ kind, opens? n = some kind := by simp [opens?, hk']
          exact fun t parent scope hlt =>
            (grows_visit_of_definition parent hreg hopens ih' hlt).mono
              hreg.laidOut.forwards (Nat.le_refl _)

/-- Visiting a definition binds nothing in the scope around it but its name where it ends. -/
theorem grows_visit_of_opens? {kind : ScopeKind} (hreg : IsRegular n)
    (hopens : opens? n = some kind) (hlt : scope < t.scopes.size) :
    t.Grows scope n.endByte n.endByte (visit catalog parent scope t n) :=
  grows_visit_of_definition parent hreg hopens
    (fun _ hc _ _ _ h => grows_visit (hreg.child hc) h) hlt

/-! ### The whole pass -/

/-- In every scope the bindings stand in the order in which they become visible, and every scope
stands behind the one around it. -/
structure IsChronological (t : Table) : Prop where
  entries : ∀ (i : Nat) (s : Scope), t.scopes[i]? = some s → Chronological s.entries
  parent_lt : ∀ (i : Nat) (s : Scope) (p : Nat), t.scopes[i]? = some s → s.parent = some p → p < i

/-- **The order of bindings.** The table of a regular tree is chronological. -/
theorem isChronological_build {tree : Tree} (h : IsRegular tree.root) (catalog : Catalog) :
    (build tree catalog).IsChronological := by
  have hgrows : (initial tree).Grows moduleScope tree.root.startByte tree.root.endByte
      (build tree catalog) := grows_visit h (by simp [initial, moduleScope])
  have hmodule : ∃ s, (build tree catalog).scopes[moduleScope]? = some s ∧
      Chronological s.entries ∧ s.parent = none := by
    obtain ⟨s, added, hs, hs', hchr, -⟩ := hgrows.own
    obtain rfl : (⟨.module, none, tree.root, []⟩ : Scope) = s := by
      simpa [initial, moduleScope] using hs
    exact ⟨_, hs', by simpa using hchr, rfl⟩
  obtain ⟨root, hroot, hchr, hparent⟩ := hmodule
  have hother : ∀ i s, i ≠ moduleScope → (build tree catalog).scopes[i]? = some s →
      Chronological s.entries ∧ ∀ p, s.parent = some p → p < i := fun i s hi hs =>
    hgrows.opened i s (by simp [initial, moduleScope] at hi ⊢; omega) hs
  constructor
  · intro i s hs
    by_cases hi : i = moduleScope
    · exact Option.some.inj (hroot.symm.trans (hi ▸ hs)) ▸ hchr
    · exact (hother i s hi hs).1
  · intro i s p hs hp
    by_cases hi : i = moduleScope
    · obtain rfl := Option.some.inj (hroot.symm.trans (hi ▸ hs))
      simp [hparent] at hp
    · exact (hother i s hi hs).2 p hp

end Table

end ApiSurface.Binding
