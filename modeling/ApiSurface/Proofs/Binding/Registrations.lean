import ApiSurface.Proofs.Binding.Stability

/-!
# Registrations

A definition is recorded together with those of its decorators that are members of a route group or
of a tool server. Which they are is decided when the definition is visited, and is the same in the
finished table when decorators stand first (`HasDecoratorsFirst.registrations_placed`). The finished
table has every definition with a name (`exists_definitionOf?`) and no other (`exists_isRecordedAt`).
-/

namespace ApiSurface.Binding

open ApiSurface.Syntax (Node Tree)
open ApiSurface.Expr (stripAwait stripParens stripKind_mem_descendants)

variable {tree : Tree} {t : Table} {catalog : Catalog} {parent : Option Node} {n d : Node}
  {name : String} {scope : Nat} {e : Entry} {D : Definition} {w : Visit}

/-! ### Decorators -/

/-- The decorators among the children of a node. -/
def decorators (n : Node) : List Node := n.children.filter fun c => c.kind == "decorator"

/-- The decorators of the definition under a node, if it is there to decorate it. -/
def decoratorsUnder : Option Node → List Node
  | some p => if p.kind = "decorated_definition" then decorators p else []
  | none => []

/-- What a decorator calls, or the decorator itself when it is not called. -/
def target? (decorator : Node) : Option Node :=
  (decorator.firstNamed?.map stripParens).bind fun expr =>
    if expr.kind = "call" then (expr.childByField? "function").map stripParens else some expr

/-- The object that a decorator is a member of. -/
def receiver? (decorator : Node) : Option Node :=
  (target? decorator).bind fun target =>
    if target.kind = "attribute" then target.childByField? "object" else none

/-- Whether functions can be registered on the object. -/
def Instance.takesFunctions (i : Instance) : Bool := i.role.isRouteGroup || i.role.isToolServer

theorem target?_mem_descendants {target : Node} (h : target? d = some target) :
    target ∈ d.descendants := by
  have hstrip := fun m => stripKind_mem_descendants "parenthesized_expression" m
  obtain ⟨_, hmap, h⟩ := Option.bind_eq_some_iff.mp h
  obtain ⟨expr, hexpr, rfl⟩ := Option.map_eq_some_iff.mp hmap
  have hin := Node.mem_descendants_trans
    (Node.namedChild_mem_descendants (List.mem_of_head? hexpr)) (hstrip expr)
  split at h
  · obtain ⟨function, hfunction, rfl⟩ := Option.map_eq_some_iff.mp h
    exact Node.mem_descendants_trans hin (Node.mem_descendants_trans
      (Node.childByField?_mem_descendants hfunction) (hstrip function))
  · exact Option.some.inj h ▸ hin

theorem receiver?_mem_descendants {object : Node} (h : receiver? d = some object) :
    object ∈ d.descendants := by
  obtain ⟨target, htarget, h⟩ := Option.bind_eq_some_iff.mp h
  split at h
  · exact Node.mem_descendants_trans (target?_mem_descendants htarget)
      (Node.childByField?_mem_descendants h)
  · simp at h

namespace Table

theorem registers_eq (t : Table) (catalog : Catalog) (d : Node) :
    t.registers catalog d
      = ((receiver? d).bind (t.resolve? catalog)).any Instance.takesFunctions := by
  unfold registers receiver? target?
  cases d.firstNamed? with
  | none => rfl
  | some expr =>
    by_cases hk : (stripParens expr).kind = "call"
    · simp only [hk, if_true, Option.map_some, Option.bind_eq_bind, Option.bind_some]
      generalize Option.bind _ (t.resolve? catalog) = object
      cases object <;> rfl
    · simp only [hk, if_false, Option.map_some, Option.bind_eq_bind, Option.bind_some]
      generalize Option.bind _ (t.resolve? catalog) = object
      cases object <;> rfl

theorem registrations_eq (t : Table) (catalog : Catalog) (parent : Option Node) :
    t.registrations catalog parent = (decoratorsUnder parent).filter (t.registers catalog) := by
  cases parent with
  | none => rfl
  | some p =>
    simp only [registrations, decoratorsUnder]
    split <;> rfl

/-! ### What is recorded -/

theorem boundToCall_ne_definition {call statement : Node} :
    t.boundToCall catalog name call statement scope ≠ .definition D := by
  intro h
  rw [boundToCall] at h
  split at h
  · split at h
    · split at h <;> cases h
    · cases h
  · cases h

theorem boundToValue_ne_definition {value statement : Node} :
    t.boundToValue catalog name value statement scope ≠ .definition D := by
  intro h
  unfold boundToValue at h
  split at h
  · exact boundToCall_ne_definition h
  · split at h <;> cases h
  · split at h <;> cases h
  · split at h <;> cases h
  · split at h <;> cases h
  · cases h

/-- Only a definition statement records a definition, which is its own. -/
theorem Recorded.eq_of_definition (h : t.Recorded catalog parent n scope e)
    (hD : e.bound = .definition D) :
    (opens? n).isSome ∧ D.node = n ∧ D.registrations = t.registrations catalog parent := by
  cases h with
  | imported | declared | unpacked | itemValue | loopTarget | typeStatement => nomatch hD
  | assigned => exact absurd hD boundToValue_ne_definition
  | @itemCall item expr target u =>
    refine absurd (?_ : u.boundToCall catalog target.text (stripAwait expr) item scope
      = .definition D) boundToCall_ne_definition
    revert hD
    cases u.boundToCall catalog target.text (stripAwait expr) item scope <;> simp [asScoped]
  | definition kind hopens hname =>
    cases hD
    exact ⟨hopens, rfl, rfl⟩

/-- A definition statement with a name records a definition. -/
theorem exists_record_eq (t : Table) (catalog : Catalog) (parent : Option Node) (scope : Nat)
    {name : Node} (hopens : (opens? n).isSome)
    (hname : n.childByField? "name" = some name) :
    ∃ D : Definition, D.node = n ∧
      t.record catalog parent n scope = t.bind scope name.text n.endByte none (.definition D) := by
  have hdefinition : ∀ kind, ∃ D : Definition, D.node = n ∧
      t.recordDefinition catalog parent n scope kind
        = t.bind scope name.text n.endByte none (.definition D) := fun kind =>
    ⟨_, rfl, by rw [recordDefinition, hname]⟩
  rw [opens?] at hopens
  split at hopens
  · next hk => simpa only [record, hk] using hdefinition .function
  · next hk => simpa only [record, hk] using hdefinition .classType
  · simp at hopens

theorem exists_has_of_definitionOf? (h : t.definitionOf? n = some D) :
    ∃ e, t.Has e ∧ e.bound = .definition D ∧ D.node.id = n.id := by
  simp only [definitionOf?, Option.bind_eq_bind, Option.bind_eq_some_iff] at h
  obtain ⟨name, -, s, hs, h⟩ := h
  obtain ⟨e, he, h⟩ := List.exists_of_findSome?_eq_some h
  refine ⟨e, ⟨_, s, hs, List.mem_reverse.mp he⟩, ?_⟩
  split at h
  · next D' hD =>
    split at h
    · next hsame =>
      obtain rfl := Option.some.inj h
      exact ⟨hD, hsame.2⟩
    · simp at h
  · simp at h

end Table

/-! ### What the finished table has -/

/-- The definition is recorded when its statement is visited. -/
structure Definition.IsRecordedAt (catalog : Catalog) (D : Definition) (w : Visit) : Prop where
  opens : (Table.opens? w.node).isSome
  node_eq : D.node = w.node
  registrations_eq : D.registrations = w.placed.registrations catalog w.parent

/-- The finished table has no other definitions than those of definition statements. -/
theorem exists_isRecordedAt (he : (Table.build tree catalog).Has e) (hD : e.bound = .definition D) :
    ∃ w, Visit.Within catalog (Visit.start tree) w ∧ D.IsRecordedAt catalog w := by
  suffices h : ∀ e, (Table.build tree catalog).Has e → ∀ D, e.bound = .definition D →
      ∃ w, Visit.Within catalog (Visit.start tree) w ∧ D.IsRecordedAt catalog w from h e he D hD
  clear he hD
  refine (Visit.start tree).forall_has_result (fun e he => absurd he (Visit.not_has_start tree e))
    fun w hw ht e he D hD => ?_
  have hrecorded : (w.recorded catalog).Has e →
      ∃ w, Visit.Within catalog (Visit.start tree) w ∧ D.IsRecordedAt catalog w := fun he => by
    rcases w.recorded_adds.has he with he | he
    · exact ht e he D hD
    · obtain ⟨hopens, hnode, hregistrations⟩ := he.eq_of_definition hD
      exact ⟨w, hw, hopens, hnode, hregistrations⟩
  rcases w.entered_cases catalog with ⟨-, heq⟩ | ⟨kind, -, hadds⟩
  · exact hrecorded (heq ▸ he)
  · rcases hadds.has he with he | ⟨-, -, -, p, hp⟩
    · exact hrecorded (Table.has_of_openScope he)
    · exact nomatch hp.symm.trans hD

/-- What a definition statement records stays in the scope of the statement. -/
theorem exists_definitionOf? (catalog : Catalog) {name : Node} (hreg : IsRegular tree.root)
    (hnum : tree.IsNumbered) (hn : n ∈ tree.nodes) (hopens : (Table.opens? n).isSome)
    (hname : n.childByField? "name" = some name) :
    ∃ D, (Table.build tree catalog).definitionOf? n = some D := by
  obtain ⟨w, hw, rfl⟩ := Visit.Within.exists_of_mem_descendants catalog (Visit.start tree) hn
  have hstart := Visit.isSound_start hreg hnum
  have hsound := hw.isSound hstart
  obtain ⟨D, hnode, hrecord⟩ :=
    Table.exists_record_eq w.placed catalog w.parent w.scope hopens hname
  have hrecorded : w.recorded catalog
      = w.placed.push w.scope [⟨name.text, w.node.endByte, none, .definition D⟩] := hrecord
  obtain ⟨s, hs, he⟩ := hw.exists_mem_entries hstart hrecorded List.mem_cons_self
  rw [Visit.result_start] at hs
  simp only [← Option.isSome_iff_exists, Table.definitionOf?, hname, hs,
    Visit.scopeOf_eq hreg hnum hw, Option.bind_eq_bind, Option.bind_some,
    List.findSome?_isSome_iff]
  exact ⟨_, List.mem_reverse.mpr he, by simp [hnode]⟩

/-! ### Settled registrations -/

/-- A tree in which decorators stand before the definitions that they decorate, and no decorated
definition is empty. -/
structure HasDecoratorsFirst (tree : Tree) : Prop where
  regular : IsRegular tree.root
  numbered : tree.IsNumbered
  nonempty : ∀ n ∈ tree.nodes, n.kind = "decorated_definition" →
    ∀ c ∈ n.children, (Table.opens? c).isSome → c.startByte < c.endByte
  inOrder : ∀ n ∈ tree.nodes, n.kind = "decorated_definition" →
    n.children.Pairwise fun c d => (Table.opens? c).isSome → d.kind ≠ "decorator"

instance (tree : Tree) : Decidable (HasDecoratorsFirst tree) :=
  decidable_of_iff
    (IsRegular tree.root ∧ tree.IsNumbered ∧
      (∀ n ∈ tree.nodes, n.kind = "decorated_definition" →
        ∀ c ∈ n.children, (Table.opens? c).isSome → c.startByte < c.endByte) ∧
      ∀ n ∈ tree.nodes, n.kind = "decorated_definition" →
        n.children.Pairwise fun c d => (Table.opens? c).isSome → d.kind ≠ "decorator")
    ⟨fun ⟨h₁, h₂, h₃, h₄⟩ => ⟨h₁, h₂, h₃, h₄⟩,
      fun h => ⟨h.regular, h.numbered, h.nonempty, h.inOrder⟩⟩

theorem IsGrammatical.hasDecoratorsFirst (h : IsGrammatical tree) : HasDecoratorsFirst tree where
  regular := h.regular
  numbered := h.numbered
  nonempty n hn _ c hc _ := h.nonempty n hn c hc
  inOrder n hn hk := by
    refine (h.regular n hn).1.inOrder.imp_of_mem fun {c d} hc hd hcd hopens hdk => ?_
    have hfirst := h.decoratorsFirst n hn hk d hd hdk c hc hopens
    have hnonempty := h.nonempty n hn d hd
    have hforwards := h.nonempty n hn c hc
    omega

namespace HasDecoratorsFirst

/-- What a decorator asks for when the definition is visited is settled. -/
theorem agreesAround {p : Node} (h : HasDecoratorsFirst tree)
    (hw : Visit.Within catalog (Visit.start tree) w) (hopens : (Table.opens? w.node).isSome)
    (hp : w.parent = some p) (hk : p.kind = "decorated_definition") (hd : d ∈ decorators p) :
    w.placed.AgreesAround (Table.build tree catalog) d := by
  obtain ⟨v, hv, ⟨before, c, after, hsplit, rfl⟩, rfl⟩ := Visit.exists_calls_of_parent hw hp
  obtain ⟨hdn, hdk⟩ := List.mem_filter.mp hd
  have hne := h.nonempty v.node hv.node_mem_descendants hk c (by simp [hsplit]) hopens
  have hord := h.inOrder v.node hv.node_mem_descendants hk
  rw [hsplit] at hdn hord
  refine Visit.agreesAround_of_before h.regular h.numbered hv hsplit hopens hne ?_
  rcases List.mem_append.mp hdn with hd | hd
  · exact hd
  · rcases List.mem_cons.mp hd with rfl | hd
    · change (Table.opens? d).isSome at hopens
      simp [Table.opens?, beq_iff_eq.mp hdk] at hopens
    · have hbehind := (List.pairwise_cons.mp (List.pairwise_append.mp hord).2.1).1 d hd
      exact absurd (beq_iff_eq.mp hdk) (hbehind hopens)

/-- The decorators that register a definition are the same on the finished table. -/
theorem registrations_placed (h : HasDecoratorsFirst tree)
    (hw : Visit.Within catalog (Visit.start tree) w) (hopens : (Table.opens? w.node).isSome) :
    w.placed.registrations catalog w.parent
      = (decoratorsUnder w.parent).filter ((Table.build tree catalog).registers catalog) := by
  rw [Table.registrations_eq]
  refine List.filter_congr fun d hd => ?_
  have hobject : (receiver? d).bind (w.placed.resolve? catalog)
      = (receiver? d).bind ((Table.build tree catalog).resolve? catalog) := by
    cases hparent : w.parent with
    | none => simp [hparent, decoratorsUnder] at hd
    | some p =>
      rw [hparent, decoratorsUnder] at hd
      split at hd
      · next hk =>
        have hagrees := h.agreesAround hw hopens hparent hk hd
        exact Option.bind_congr fun object hobject =>
          Table.resolve?_congr (hagrees.below (receiver?_mem_descendants hobject))
      · simp at hd
  rw [Table.registers_eq, Table.registers_eq, hobject]

/-- A definition with a name is found, with the decorators that register it. -/
theorem exists_definitionOf?_eq (catalog : Catalog) {name : Node} (h : HasDecoratorsFirst tree)
    (hn : n ∈ tree.nodes) (hopens : (Table.opens? n).isSome)
    (hname : n.childByField? "name" = some name) :
    ∃ D, (Table.build tree catalog).definitionOf? n = some D ∧ D.node = n ∧
      D.registrations = (decoratorsUnder (tree.parent? n)).filter
        ((Table.build tree catalog).registers catalog) := by
  obtain ⟨D, hD⟩ := exists_definitionOf? catalog h.regular h.numbered hn hopens hname
  obtain ⟨e, he, hbound, hid⟩ := Table.exists_has_of_definitionOf? hD
  obtain ⟨w, hw, hrecorded⟩ := exists_isRecordedAt he hbound
  have hnode : w.node = n := h.numbered.eq_of_id_eq hw.node_mem_descendants hn
    (hrecorded.node_eq ▸ hid)
  refine ⟨D, hD, hrecorded.node_eq.trans hnode, ?_⟩
  rw [hrecorded.registrations_eq, h.registrations_placed hw hrecorded.opens,
    Visit.parent_eq h.numbered hw, hnode]

end HasDecoratorsFirst

theorem exists_definitionOf?_eq (catalog : Catalog) {name : Node} (h : IsGrammatical tree)
    (hn : n ∈ tree.nodes) (hopens : (Table.opens? n).isSome)
    (hname : n.childByField? "name" = some name) :
    ∃ D, (Table.build tree catalog).definitionOf? n = some D ∧ D.node = n ∧
      D.registrations = (decoratorsUnder (tree.parent? n)).filter
        ((Table.build tree catalog).registers catalog) :=
  h.hasDecoratorsFirst.exists_definitionOf?_eq catalog hn hopens hname

end ApiSurface.Binding
