import ApiSurface.Proofs.Binding.Aliases
import ApiSurface.Proofs.Binding.ParameterScope

/-!
# Look-ups during the pass

The pass asks the table that it has so far: for the callee of a call that is assigned or bound by a
`with` statement, for the original of a copied name, for the class in the annotation of a parameter,
and for the objects that decorators are members of. The finished table gives the same answers
(`Visit.isSettled`). What is bound after a look-up becomes visible behind its place, or stands in a
scope that the look-up does not come to.

Look-ups at the places of nodes depend on the table only through the names that they look up, so
what the pass decides is the same as well.
-/

namespace ApiSurface.Binding

open ApiSurface.Syntax (Node Tree)
open ApiSurface.Expr (stripParens stripAwait stripType stripType_mem_descendants
  stripAwait_mem_descendants)

variable {t u : Table} {catalog : Catalog} {n m c : Node} {name : String} {scope pos lo : Nat}

namespace Table

/-! ### Agreement -/

/-- Look-ups from the scope at the position have the same results in both tables. -/
def Agrees (t u : Table) (scope pos : Nat) : Prop :=
  ∀ name, t.lookupAt name scope pos = u.lookupAt name scope pos

/-- Look-ups from the scope at the places of the node and of all nodes below it have the same
results in both tables. -/
def AgreesIn (t u : Table) (scope : Nat) (n : Node) : Prop :=
  ∀ m ∈ n.descendants, t.Agrees u scope m.startByte

/-- The node and all nodes below it belong to the same scopes in both tables, and look-ups at their
places have the same results. -/
def AgreesAround (t u : Table) (n : Node) : Prop :=
  ∀ m ∈ n.descendants, t.scopeOf m = u.scopeOf m ∧ t.Agrees u (t.scopeOf m) m.startByte

theorem Agrees.trans {v : Table} (h : t.Agrees u scope pos) (h' : u.Agrees v scope pos) :
    t.Agrees v scope pos := fun name => (h name).trans (h' name)

theorem Agrees.symm (h : t.Agrees u scope pos) : u.Agrees t scope pos := fun name => (h name).symm

theorem AgreesIn.below (h : t.AgreesIn u scope n) (hm : m ∈ n.descendants) :
    t.AgreesIn u scope m := fun k hk => h k (Node.mem_descendants_trans hm hk)

theorem AgreesIn.self (h : t.AgreesIn u scope n) : t.Agrees u scope n.startByte :=
  h n n.self_mem_descendants

theorem find?_append_of_behind {s : Scope} {added : List Entry}
    (h : ∀ e ∈ added, lo ≤ e.visibleFrom) (hpos : pos < lo) :
    Scope.find? { s with entries := added ++ s.entries } name pos = s.find? name pos := by
  have hnone : added.find? (fun e => e.name == name && e.visibleAt pos) = none := by
    rw [List.find?_eq_none]
    intro e he hoffers
    simp only [Entry.visibleAt, Bool.and_eq_true, decide_eq_true_eq] at hoffers
    exact Nat.not_le_of_lt hpos (Nat.le_trans (h e he) hoffers.2.1)
  rw [Scope.find?, Scope.find?, List.find?_append, hnone, Option.none_or]

/-- What becomes visible later makes no difference before. -/
theorem Later.agrees (h : t.Later lo u) (hscope : scope < t.scopes.size) (hpos : pos < lo) :
    t.Agrees u scope pos := by
  intro name
  suffices hfrom : ∀ start, t.findFrom name pos start scope = u.findFrom name pos start scope from
    hfrom scope
  intro start
  induction scope using Nat.strongRecOn with
  | ind id ih =>
    have hs := Array.getElem?_eq_getElem hscope
    obtain ⟨added, hs', hadded⟩ := h.scopes id _ hs
    have hsees : ∀ s : Scope, sees start id { s with entries := added ++ s.entries }
        = sees start id s := fun _ => rfl
    rw [findFrom, findFrom, hs, hs']
    simp only [hsees, find?_append_of_behind hadded hpos]
    split
    · rfl
    · split
      · split
        · next p _ hlt => exact ih p hlt (Nat.lt_trans hlt hscope)
        · rfl
      · rfl

/-! ### What depends on look-ups -/

theorem qualifyAt_congr (h : t.Agrees u scope pos) (n : Node) :
    t.qualifyAt n scope pos = u.qualifyAt n scope pos := by
  have hhead : ∀ name, t.headPath? name scope pos = u.headPath? name scope pos := fun name => by
    rw [headPath?, headPath?, h name]
  simp only [qualifyAt, hhead]

theorem boundToCall_congr {call statement : Node} (h : t.Agrees u scope call.startByte) :
    t.boundToCall catalog name call statement scope
      = u.boundToCall catalog name call statement scope := by
  simp only [boundToCall, qualifyAt_congr h]

theorem looksLikeType_congr (h : t.AgreesIn u scope n) :
    t.looksLikeType scope n = u.looksLikeType scope n := by
  induction n using Node.rec_children with
  | step n ih =>
    have hchild : ∀ {field c}, n.childByField? field = some c →
        t.AgreesIn u scope c ∧ t.looksLikeType scope c = u.looksLikeType scope c := by
      intro field c hc
      have hmem : c ∈ n.children := List.mem_of_find?_eq_some hc
      have hbelow := h.below (Node.child_mem_descendants hmem)
      exact ⟨hbelow, ih c hmem hbelow⟩
    rw [looksLikeType, looksLikeType]
    split
    · simp only [qualifyAt_congr h.self]
    · simp only [qualifyAt_congr h.self]
    · congr 1
      · congr 1
        split
        · next l hl =>
          obtain ⟨hbelow, hsame⟩ := hchild hl
          simp only [qualifyAt_congr hbelow.self, hsame]
        · rfl
      · split
        · next r hr =>
          obtain ⟨hbelow, hsame⟩ := hchild hr
          simp only [qualifyAt_congr hbelow.self, hsame]
        · rfl
    · rfl

theorem boundToValue_congr {value statement : Node} (h : t.AgreesIn u scope value) :
    t.boundToValue catalog name value statement scope
      = u.boundToValue catalog name value statement scope := by
  simp only [boundToValue, boundToCall_congr h.self, looksLikeType_congr h, h.self value.text]

theorem hintPath?_congr {hint : Node} (h : t.AgreesIn u scope hint) :
    t.hintPath? hint scope = u.hintPath? hint scope := by
  have hstrip := stripType_mem_descendants hint
  have hoptional : t.stripOptional (stripType hint) scope = u.stripOptional (stripType hint) scope ∧
      t.stripOptional (stripType hint) scope ∈ hint.descendants := by
    rw [stripOptional, stripOptional]
    split
    · split
      · next value inner hvalue hinner =>
        have hagrees := h value
          (Node.mem_descendants_trans hstrip (Node.childByField?_mem_descendants hvalue))
        have hin := Node.mem_descendants_trans hstrip (Node.mem_descendants_trans
          (Node.childByField?_mem_descendants hinner) (stripType_mem_descendants inner))
        rw [qualifyAt_congr hagrees]
        refine ⟨rfl, ?_⟩
        split
        · split
          · exact hin
          · exact hstrip
        · exact hstrip
      · exact ⟨rfl, hstrip⟩
    · exact ⟨rfl, hstrip⟩
  rw [hintPath?, hintPath?, ← hoptional.1]
  exact qualifyAt_congr (h _ hoptional.2) _

theorem AgreesAround.below (h : t.AgreesAround u n) (hm : m ∈ n.descendants) :
    t.AgreesAround u m := fun k hk => h k (Node.mem_descendants_trans hm hk)

theorem qualify_congr (h : t.AgreesAround u n) : t.qualify n = u.qualify n := by
  obtain ⟨hscope, hagrees⟩ := h n n.self_mem_descendants
  rw [qualify, qualify, ← hscope, qualifyAt_congr hagrees]

theorem resolve?_congr (h : t.AgreesAround u n) : t.resolve? catalog n = u.resolve? catalog n := by
  have hstrip := h.below (stripAwait_mem_descendants n)
  have hlookup : ∀ name, t.lookup name (stripAwait n) = u.lookup name (stripAwait n) := by
    intro name
    obtain ⟨hscope, hagrees⟩ := hstrip _ (stripAwait n).self_mem_descendants
    rw [lookup, lookup, ← hscope, hagrees name]
  rw [resolve?, resolve?]
  simp only [hlookup]
  split
  · rfl
  · split
    · cases hfunction : (stripAwait n).childByField? "function" with
      | none => rfl
      | some function =>
        have hbelow := hstrip.below (Node.childByField?_mem_descendants hfunction)
        simp only [Option.bind_eq_bind, Option.bind_some, qualify_congr hbelow]
    · rfl

/-! ### Steps of statements -/

/-- Record what one item of a `with` statement binds. -/
def recordItem (catalog : Catalog) (statement : Node) (scope : Nat) (t : Table) (item : Node) :
    Table :=
  match withParts? item with
  | none => t
  | some (expr, target) =>
    if target.kind = "identifier" then
      let expr := stripAwait expr
      let bound :=
        if expr.kind = "call" then asScoped (t.boundToCall catalog target.text expr item scope)
        else plainValue target.text expr item
      t.bind scope target.text item.endByte (some statement.endByte) bound
    else t

/-- Bind one parameter of a function. -/
def bindParameter (catalog : Catalog) (function list : Node) (scope outer : Nat) (t : Table)
    (param : Node) : Table :=
  match parameterParts? param with
  | none => t
  | some (name, hint) =>
    let path := hint.bind fun a => t.hintPath? a outer
    t.bind scope name.text list.startByte none
      (.parameter ⟨function, param, hint, path, path.bind catalog.constructorRole?⟩)

theorem bindParameters_eq_foldl {function list : Node} {outer : Nat} (t : Table)
    (catalog : Catalog) (hlist : function.childByField? "parameters" = some list) :
    t.bindParameters catalog function scope outer
      = list.namedChildren.foldl (bindParameter catalog function list scope outer) t := by
  rw [bindParameters, hlist]
  rfl

/-- Items that end at or behind a position are bound from there on. -/
theorem later_recordItems {items : List Node} {statement : Node}
    (hlo : ∀ item ∈ items, lo ≤ item.endByte) (hlt : scope < t.scopes.size) :
    t.Later lo (items.foldl (recordItem catalog statement scope) t) := by
  induction items generalizing t with
  | nil => exact .refl
  | cons item items ih =>
    have hitem : t.Grows scope item.endByte item.endByte
        (recordItem catalog statement scope t item) := by
      rw [recordItem]
      split
      · exact .refl hlt
      · split
        · exact grows_bind hlt
        · exact .refl hlt
    rw [List.foldl_cons]
    exact (hitem.later.mono (hlo item List.mem_cons_self)).trans
      (ih (fun i hi => hlo i (List.mem_cons_of_mem item hi))
        (Nat.lt_of_lt_of_le hlt hitem.size_le))

theorem adds_bindParameters_prefix {function list : Node} {outer : Nat} (params : List Node) :
    t.Adds scope (fun _ => True)
      (params.foldl (bindParameter catalog function list scope outer) t) := by
  refine .foldl fun param _ t => ?_
  rw [bindParameter]
  split
  · exact .refl
  · exact adds_bind trivial

end Table

/-- A tree as the grammar produces it: regular, numbered in source order, with no empty node but the
root, and with decorators before what they decorate. -/
structure IsGrammatical (tree : Tree) : Prop where
  regular : IsRegular tree.root
  numbered : tree.IsNumbered
  nonempty : ∀ n ∈ tree.nodes, ∀ c ∈ n.children, c.startByte < c.endByte
  decoratorsFirst : ∀ n ∈ tree.nodes, n.kind = "decorated_definition" →
    ∀ d ∈ n.children, d.kind = "decorator" → ∀ c ∈ n.children, (Table.opens? c).isSome →
      d.endByte ≤ c.startByte

instance (tree : Tree) : Decidable (IsGrammatical tree) :=
  decidable_of_iff
    (IsRegular tree.root ∧ tree.IsNumbered ∧
      (∀ n ∈ tree.nodes, ∀ c ∈ n.children, c.startByte < c.endByte) ∧
      ∀ n ∈ tree.nodes, n.kind = "decorated_definition" → ∀ d ∈ n.children,
        d.kind = "decorator" → ∀ c ∈ n.children, (Table.opens? c).isSome →
          d.endByte ≤ c.startByte)
    ⟨fun ⟨h₁, h₂, h₃, h₄⟩ => ⟨h₁, h₂, h₃, h₄⟩,
      fun h => ⟨h.regular, h.numbered, h.nonempty, h.decoratorsFirst⟩⟩

theorem IsGrammatical.nested {tree : Tree} (h : IsGrammatical tree) : tree.IsNested :=
  ⟨fun n hn => (h.regular n hn).1.inside, h.nonempty⟩

namespace Visit

variable {tree : Tree} {w : Visit} {d list : Node} {before after : List Node}

/-- The table when the parameters of a function are bound. -/
def opened (catalog : Catalog) (v : Visit) : Table :=
  (v.recorded catalog).openScope .function v.scope v.node

/-- The table behind the first items of a `with` statement. -/
def behindItems (catalog : Catalog) (v : Visit) (before : List Node) : Table :=
  before.foldl (Table.recordItem catalog v.node v.scope) v.placed

/-- The table behind the first parameters in the list of a function. -/
def behindParameters (catalog : Catalog) (v : Visit) (list : Node) (before : List Node) : Table :=
  before.foldl (Table.bindParameter catalog v.node list (v.recorded catalog).scopes.size v.scope)
    (v.opened catalog)

theorem behindItems_all (hk : w.node.kind = "with_statement") :
    w.behindItems catalog (withItemsAll w.node.children) = w.recorded catalog := by
  rw [recorded, Table.record]
  simp only [hk]
  rfl

theorem behindParameters_all (hk : w.node.kind = "function_definition")
    (hlist : w.node.childByField? "parameters" = some list) :
    w.behindParameters catalog list list.namedChildren = w.entered catalog := by
  have hopens : Table.opens? w.node = some .function := by simp [Table.opens?, hk]
  rw [entered, hopens, behindParameters, ← Table.bindParameters_eq_foldl _ catalog hlist]
  rfl

/-! ### What comes later -/

theorem bindsAt_of_assignment (h : IsRegular n) (hk : n.kind = "assignment") :
    BindsAt n.endByte n := fun m hm hb => by
  rcases Node.mem_descendants_iff.mp hm with rfl | ⟨c, hc, hm⟩
  · exact ⟨hk, rfl⟩
  · exact h.keepsStatements.ofAssignment hk c hc m hm hb

/-- All of an assignment belongs to one scope. -/
theorem scopeOf_of_assignment {m : Node} (hreg : IsRegular tree.root) (hnum : tree.IsNumbered)
    (hw : Within catalog (start tree) w) (hk : w.node.kind = "assignment")
    (hm : m ∈ w.node.descendants) : (Table.build tree catalog).scopeOf m = w.scope := by
  have hsound := hw.isSound (isSound_start hreg hnum)
  obtain ⟨v, hv, rfl⟩ := Within.exists_of_mem_descendants catalog w hm
  rw [scopeOf_eq hreg hnum (hw.trans hv)]
  exact hv.scope_eq_of_opens? fun k hk' =>
    Table.opens?_eq_none_of_bindsAt (bindsAt_of_assignment hsound.regular hk) hk'

theorem later_of_assignment (hreg : IsRegular tree.root) (hnum : tree.IsNumbered)
    (hw : Within catalog (start tree) w) (hk : w.node.kind = "assignment") :
    w.placed.Later w.node.endByte (Table.build tree catalog) := by
  have hstart := isSound_start hreg hnum
  have hsound := hw.isSound hstart
  have hown : w.table.Later w.node.endByte (w.result catalog) :=
    (Table.grows_visit_of_bindsAt (bindsAt_of_assignment hsound.regular hk) hsound.scope_lt).later
  have hplaced : w.placed.Later w.node.endByte w.table := Table.later_of_scopes_eq rfl
  exact hplaced.trans (hown.trans (hw.later hstart))

theorem later_of_opens? (hreg : IsRegular tree.root) (hnum : tree.IsNumbered)
    (hw : Within catalog (start tree) w) (hopens : (Table.opens? w.node).isSome) :
    w.table.Later w.node.endByte (Table.build tree catalog) := by
  obtain ⟨kind, hkind⟩ := Option.isSome_iff_exists.mp hopens
  have hstart := isSound_start hreg hnum
  have hsound := hw.isSound hstart
  have hown : w.table.Later w.node.endByte (w.result catalog) :=
    (Table.grows_visit_of_opens? hsound.regular hkind hsound.scope_lt).later
  exact hown.trans (hw.later hstart)

theorem lt_behindItems (catalog : Catalog) (before : List Node) (hw : w.IsSound) :
    w.scope < (w.behindItems catalog before).scopes.size := by
  have hbefore : w.placed.Later 0 (w.behindItems catalog before) :=
    Table.later_recordItems (fun _ _ => Nat.zero_le _) hw.scope_lt
  exact Nat.lt_of_lt_of_le hw.scope_lt hbefore.size_le

/-- The items from one on end behind the end of this one. -/
theorem later_behindItems {item : Node} (hw : w.IsSound) (hk : w.node.kind = "with_statement")
    (hsplit : withItemsAll w.node.children = before ++ item :: after) :
    (w.behindItems catalog before).Later item.endByte (w.recorded catalog) := by
  have hrecorded : w.recorded catalog = (item :: after).foldl
      (Table.recordItem catalog w.node w.scope) (w.behindItems catalog before) := by
    rw [← behindItems_all hk, hsplit, behindItems, behindItems, List.foldl_append]
  have hord := pairwise_withItemsAll hw.regular
  rw [hsplit] at hord
  have hbehind := (List.pairwise_cons.mp (List.pairwise_append.mp hord).2.1).1
  rw [hrecorded]
  refine Table.later_recordItems (fun i hi => ?_) (lt_behindItems catalog before hw)
  rcases List.mem_cons.mp hi with rfl | hi
  · exact Nat.le_refl _
  · have hin := encloses_of_mem_withItemsAll hw.regular (m := i) (by simp [hsplit, hi])
    exact Nat.le_trans (hbehind i hi) hin.2.1

/-- The bodies of a `with` statement start behind its items. -/
theorem later_recorded_of_item {item : Node} (hw : w.IsSound)
    (hk : w.node.kind = "with_statement") (hitem : item ∈ withItemsAll w.node.children) :
    (w.recorded catalog).Later item.endByte (w.result catalog) := by
  have hcompound : compoundKinds.contains w.node.kind = true := by simp [compoundKinds, hk]
  have hopens : Table.opens? w.node = none := by simp [Table.opens?, hk]
  have hscope : w.scope < (w.recorded catalog).scopes.size := by
    rw [size_recorded]
    exact hw.scope_lt
  rw [result_eq, entered, inner, hopens]
  refine Table.later_visitAll (fun c hc => hw.regular.child hc) (fun c hc => ?_) hscope hscope
  cases hbody : isBody w.node c with
  | false => exact .inl (hw.regular.keepsStatements.ofHeader hcompound c hc hbody)
  | true =>
    exact .inr (hw.regular.keepsStatements.headerFirst hcompound item
      (by simpa only [bindingParts, hk] using hitem) c hc hbody)

theorem later_of_item {item : Node} (hreg : IsRegular tree.root) (hnum : tree.IsNumbered)
    (hw : Within catalog (start tree) w) (hk : w.node.kind = "with_statement")
    (hsplit : withItemsAll w.node.children = before ++ item :: after) :
    (w.behindItems catalog before).Later item.endByte (Table.build tree catalog) := by
  have hstart := isSound_start hreg hnum
  have hsound := hw.isSound hstart
  have hitem : item ∈ withItemsAll w.node.children := by simp [hsplit]
  have hend := (encloses_of_mem_withItemsAll hsound.regular hitem).2.2
  exact (later_behindItems hsound hk hsplit).trans
    ((later_recorded_of_item hsound hk hitem).trans ((hw.later hstart).mono hend))

/-- Annotations of parameters are looked up around the function, where neither the function nor its
parameters are in sight yet. -/
theorem agrees_of_parameter (h : IsGrammatical tree) (hw : Within catalog (start tree) w)
    (hopens : Table.opens? w.node = some .function) (hpos : pos < w.node.endByte) :
    (w.behindParameters catalog list before).Agrees (Table.build tree catalog) w.scope pos := by
  have hsound := hw.isSound (isSound_start h.regular h.numbered)
  have hplaced : w.placed.Grows w.scope w.node.endByte w.node.endByte (w.recorded catalog) :=
    Table.grows_record_of_opens? hopens hsound.scope_lt
  have hrecorded : w.table.Later w.node.endByte (w.recorded catalog) :=
    (hplaced.congr (Table.scopes_place w.table w.node w.scope).symm rfl).later
  have hparams : (w.opened catalog).Adds (w.recorded catalog).scopes.size (fun _ => True)
      (w.behindParameters catalog list before) := Table.adds_bindParameters_prefix before
  have hlater := hrecorded.trans (Table.later_of_adds_openScope hparams)
  have hfinal := later_of_opens? h.regular h.numbered hw (by rw [hopens]; rfl)
  exact (hlater.agrees hsound.scope_lt hpos).symm.trans (hfinal.agrees hsound.scope_lt hpos)

/-- What ends before a child stands among the children before it. -/
theorem mem_before_of_endByte_le {v : Visit} (hv : v.IsSound)
    (hnonempty : ∀ c ∈ v.node.children, c.startByte < c.endByte)
    (hsplit : v.node.children = before ++ c :: after) (hd : d ∈ v.node.children)
    (hle : d.endByte ≤ c.startByte) : d ∈ before := by
  have hlt := hnonempty d hd
  have hord := hv.regular.laidOut.inOrder
  rw [hsplit] at hd hord
  rcases List.mem_append.mp hd with hd | hd
  · exact hd
  · rcases List.mem_cons.mp hd with rfl | hd
    · exact absurd hlt (Nat.not_lt_of_le hle)
    · have hbehind := (List.pairwise_cons.mp (List.pairwise_append.mp hord).2.1).1 d hd
      have hforwards := (hv.regular.child (c := c) (by simp [hsplit])).laidOut.forwards
      omega

/-- When a child is visited, what stands below the children before it belongs to its scope already,
which is there. -/
theorem scopeOf_placed_of_before {v : Visit} (hreg : IsRegular tree.root)
    (hnum : tree.IsNumbered) (hv : Within catalog (start tree) v)
    (hsplit : v.node.children = before ++ c :: after) (hd : d ∈ before) (hm : m ∈ d.descendants) :
    (v.child catalog before c).placed.scopeOf m = (Table.build tree catalog).scopeOf m ∧
      (v.child catalog before c).placed.scopeOf m
        < (v.child catalog before c).table.scopes.size := by
  have hstart := isSound_start hreg hnum
  have hvsound := hv.isSound hstart
  obtain ⟨scope, hscope, hlt, hresult⟩ :=
    exists_nodeScope_of_before catalog hvsound hsplit hd hm
  have hne : c.id ≠ m.id := by
    obtain ⟨front, between, rfl⟩ := List.append_of_mem hd
    have hsplit' : v.node.children = front ++ d :: (between ++ c :: after) := by simpa using hsplit
    exact (hvsound.distinct.ne_of_split hsplit' (by simp) hm c.self_mem_descendants).symm
  have hplaced : (v.child catalog before c).placed.nodeScope[m.id]? = some scope :=
    (Array.getElem?_setIfInBounds_ne hne).trans hscope
  have hmv : m ∈ v.node.descendants :=
    Node.mem_descendants_of_mem_children (hsplit ▸ List.mem_append_left _ hd) hm
  have hbuild : (Table.build tree catalog).nodeScope[m.id]? = some scope :=
    (hv.nodeScope_result_eq hstart hmv).trans hresult
  rw [Table.scopeOf, Table.scopeOf, hplaced, hbuild]
  exact ⟨rfl, hlt⟩

/-- The names in what stands before a definition belong to scopes that are there when the definition
is visited, and are looked up before it. -/
theorem agreesAround_of_before {v : Visit} (hreg : IsRegular tree.root) (hnum : tree.IsNumbered)
    (hv : Within catalog (start tree) v) (hsplit : v.node.children = before ++ c :: after)
    (hopens : (Table.opens? c).isSome) (hne : c.startByte < c.endByte) (hd : d ∈ before) :
    (v.child catalog before c).placed.AgreesAround (Table.build tree catalog) d := by
  intro m hm
  have hvsound := hv.isSound (isSound_start hreg hnum)
  have hdn : d ∈ v.node.children := by simp [hsplit, hd]
  obtain ⟨hsame, hlt⟩ := scopeOf_placed_of_before hreg hnum hv hsplit hd hm
  have hpos : m.startByte < c.endByte := by
    have hord := hvsound.regular.laidOut.inOrder
    rw [hsplit] at hord
    have hfirst := (List.pairwise_append.mp hord).2.2 d hd c List.mem_cons_self
    have hin := (hvsound.regular.child hdn).encloses hm
    have hforwards := (hvsound.regular.child hdn m hm).1.forwards
    omega
  have hwithin : Within catalog (start tree) (v.child catalog before c) :=
    hv.tail ⟨before, c, after, hsplit, rfl⟩
  have hplaced : (v.child catalog before c).placed.Later c.endByte
      (v.child catalog before c).table := Table.later_of_scopes_eq rfl
  exact ⟨hsame, (hplaced.trans (later_of_opens? hreg hnum hwithin hopens)).agrees hlt hpos⟩

theorem agreesAround_of_decorator {p : Node} (h : IsGrammatical tree)
    (hw : Within catalog (start tree) w) (hopens : (Table.opens? w.node).isSome)
    (hp : w.parent = some p) (hk : p.kind = "decorated_definition") (hd : d ∈ p.children)
    (hdk : d.kind = "decorator") : w.placed.AgreesAround (Table.build tree catalog) d := by
  obtain ⟨v, hv, ⟨before, c, after, hsplit, rfl⟩, rfl⟩ := exists_calls_of_parent hw hp
  have hvsound := hv.isSound (isSound_start h.regular h.numbered)
  have hc : c ∈ v.node.children := by simp [hsplit]
  have hfirst : d.endByte ≤ c.startByte :=
    h.decoratorsFirst v.node hv.node_mem_descendants hk d hd hdk c hc hopens
  have hnonempty := h.nonempty v.node hv.node_mem_descendants
  exact agreesAround_of_before h.regular h.numbered hv hsplit hopens (hnonempty c hc)
    (mem_before_of_endByte_le hvsound hnonempty hsplit hd hfirst)

/-! ### All look-ups -/

/-- What the pass asks its table when it comes to the node, the table `u` answers alike. The items
of a `with` statement and the parameters of a function are taken one after the other, each with the
table behind those before it. -/
structure IsSettled (catalog : Catalog) (u : Table) (w : Visit) : Prop where
  scope : u.scopeOf w.node = w.scope
  items : w.node.kind = "with_statement" →
    w.behindItems catalog (withItemsAll w.node.children) = w.recorded catalog
  parameters : w.node.kind = "function_definition" → ∀ list,
    w.node.childByField? "parameters" = some list →
    w.behindParameters catalog list list.namedChildren = w.entered catalog
  /-- What is assigned: the callee of a call, the original of a name, the parts of a type. -/
  assignment : w.node.kind = "assignment" → ∀ value, value.IsBelow w.node →
    w.placed.AgreesIn u w.scope value ∧
    ∀ name, w.placed.boundToValue catalog name value w.node w.scope
      = u.boundToValue catalog name value w.node w.scope
  /-- The callee of a call in an item of a `with` statement, behind the items before it. -/
  item : w.node.kind = "with_statement" → ∀ before item after,
    withItemsAll w.node.children = before ++ item :: after → ∀ expr ∈ item.descendants,
    (w.behindItems catalog before).AgreesIn u w.scope expr ∧
    ∀ name, (w.behindItems catalog before).boundToCall catalog name expr item w.scope
      = u.boundToCall catalog name expr item w.scope
  /-- The class in the annotation of a parameter, behind the parameters before it. -/
  parameter : w.node.kind = "function_definition" → ∀ list,
    w.node.childByField? "parameters" = some list → ∀ before param after,
    list.namedChildren = before ++ param :: after → ∀ hint ∈ param.descendants,
    (w.behindParameters catalog list before).AgreesIn u w.scope hint ∧
    (w.behindParameters catalog list before).hintPath? hint w.scope = u.hintPath? hint w.scope
  /-- The object that a decorator is a member of. -/
  decorator : (Table.opens? w.node).isSome → ∀ p, w.parent = some p →
    p.kind = "decorated_definition" → ∀ d ∈ p.children, d.kind = "decorator" →
    w.placed.AgreesAround u d ∧
    ∀ n ∈ d.descendants, w.placed.resolve? catalog n = u.resolve? catalog n

/-- **Look-ups are settled.** What the pass looks up on its way through a tree of the grammar has
the same result in the finished table. -/
theorem isSettled (h : IsGrammatical tree) (hw : Within catalog (start tree) w) :
    w.IsSettled catalog (Table.build tree catalog) := by
  have hsound := hw.isSound (isSound_start h.regular h.numbered)
  have hnode := hw.node_mem_descendants
  have hlt : ∀ {n m : Node}, n ∈ tree.nodes → m.IsBelow n → m.startByte < n.endByte :=
    fun hn hm => Nat.lt_of_lt_of_le (h.nested.lt_of_isBelow (hm.above hn))
      (h.nested.encloses hn hm.mem_descendants).2
  refine ⟨scopeOf_eq h.regular h.numbered hw, behindItems_all,
    fun hk _ hlist => behindParameters_all hk hlist, fun hk value hvalue => ?_,
    fun hk before item after hsplit expr hexpr => ?_,
    fun hk list hlist before param after hsplit hint hhint => ?_,
    fun hopens p hp hpk d hd hdk => ?_⟩
  · have hagrees : w.placed.AgreesIn (Table.build tree catalog) w.scope value := fun m hm =>
      (later_of_assignment h.regular h.numbered hw hk).agrees hsound.scope_lt
        (hlt hnode (hvalue.of_mem_descendants hm))
    exact ⟨hagrees, fun _ => Table.boundToValue_congr hagrees⟩
  · have hscope := lt_behindItems catalog before hsound
    have hbelow : item.IsBelow w.node := isBelow_of_mem_withItemsAll (by simp [hsplit])
    have hitem := Node.mem_descendants_trans hnode hbelow.mem_descendants
    have hagrees : (w.behindItems catalog before).AgreesIn (Table.build tree catalog) w.scope
        expr := fun m hm => by
      have hm' := Node.mem_descendants_trans hexpr hm
      refine (later_of_item h.regular h.numbered hw hk hsplit).agrees hscope
        (Nat.lt_of_lt_of_le ?_ (h.nested.encloses hitem hm').2)
      exact h.nested.lt_of_isBelow ((hbelow.of_mem_descendants hm').above hnode)
    exact ⟨hagrees, fun _ => Table.boundToCall_congr hagrees.self⟩
  · have hopens : Table.opens? w.node = some .function := by simp [Table.opens?, hk]
    have hnamed : param ∈ list.namedChildren := by simp [hsplit]
    have hparam : param ∈ list.children := (List.mem_filter.mp hnamed).1
    have hbelow : param.IsBelow w.node := ⟨list, List.mem_of_find?_eq_some hlist,
      Node.child_mem_descendants hparam⟩
    have hagrees : (w.behindParameters catalog list before).AgreesIn (Table.build tree catalog)
        w.scope hint := fun m hm => agrees_of_parameter h hw hopens
        (hlt hnode (hbelow.of_mem_descendants (Node.mem_descendants_trans hhint hm)))
    exact ⟨hagrees, Table.hintPath?_congr hagrees⟩
  · have hagrees := agreesAround_of_decorator h hw hopens hp hpk hd hdk
    exact ⟨hagrees, fun n hn => Table.resolve?_congr (hagrees.below hn)⟩

end Visit

end ApiSurface.Binding
