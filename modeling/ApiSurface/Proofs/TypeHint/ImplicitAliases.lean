import ApiSurface.Proofs.Binding.Copies
import ApiSurface.Proofs.Routing.Decorators
import ApiSurface.Proofs.TypeHint.AliasGuard
import ApiSurface.Proofs.TypeHint.DottedNames
import ApiSurface.Proofs.TypeHint.LocalClasses
import ApiSurface.Proofs.Types.Canonical

/-!
# Implicit aliases

An assignment makes its target an alias when what is assigned looks like a type. A subscript does
by its head alone, whatever its arguments are. A union that is written with bars does only if all
its operands do, and of the names only those in the tables of type names. So `Union[Cat, None]`
makes an alias for every class `Cat`, and `Cat | None` makes a value about which nothing is known:
annotations that name the two targets read alike exactly when all operands are in the tables
(`typeWithin_alias_eq_iff`).
-/

namespace ApiSurface.Binding.Table

open ApiSurface.Syntax (Node)

variable {t : Table} {n l r : Node} {scope : Nat}

/-- Whether an operand of a union that is written with bars looks like a type. -/
def operandLooksLikeType (t : Table) (scope : Nat) (m : Node) : Bool :=
  match m.kind with
  | "none" => true
  | "binary_operator" | "subscript" | "generic_type" => t.looksLikeType scope m
  | "identifier" | "attribute" =>
    match t.qualifyAt m scope m.startByte with
    | some path => TypeHint.isTypeName path
    | none => false
  | _ => false

/-- The node is two operands with a bar between them. -/
structure IsBar (n l r : Node) : Prop where
  kind : n.kind = "binary_operator"
  bar : n.hasToken "|" = true
  left : n.childByField? "left" = some l
  right : n.childByField? "right" = some r
  namedChildren : n.namedChildren = [l, r]

theorem looksLikeType_of_isBar (h : IsBar n l r) :
    t.looksLikeType scope n
      = (t.operandLooksLikeType scope l && t.operandLooksLikeType scope r) := by
  rw [looksLikeType]
  simp only [h.kind, h.bar, Bool.true_and]
  congr 1
  · split
    · next l' hl =>
      obtain rfl := Option.some.inj (h.left.symm.trans hl)
      rfl
    · next hl => simp [h.left] at hl
  · split
    · next r' hr =>
      obtain rfl := Option.some.inj (h.right.symm.trans hr)
      rfl
    · next hr => simp [h.right] at hr

end ApiSurface.Binding.Table

namespace ApiSurface.TypeHint

open ApiSurface.Syntax (Node Tree)
open ApiSurface.Expr (stripAwait stripAwait_mem_descendants stripType stripType_of_ne)
open ApiSurface.Text (IsWord compactString dotted)
open ApiSurface.Binding (Bound Table Visit assignedValue? isBelow_of_assignedValue?)
open ApiSurface.Descriptor (unionOf)

variable {s s' : Source} {look look' : Look} {n n' base l r : Node} {path written : String}
  {depth : Nat}

/-! ### Operands -/

/-- What an operand of a union is written as. -/
inductive Operand where
  /-- `None` -/
  | absent
  /-- A name, as it is written and as the path that it stands for. -/
  | named (path written : String)
deriving DecidableEq, Repr

namespace Operand

/-- The type of an operand. -/
def type : Operand → Descriptor
  | absent => .none
  | named path written => (ofPath path written).descriptor

/-- Whether an operand looks like a type: its path is in a table of type names. -/
def isKnown : Operand → Bool
  | absent => true
  | named path _ => isTypeName path

/-- What is in no table is taken for a class. -/
theorem type_of_not_isKnown {o : Operand} (h : o.isKnown = false) :
    ∃ name, o.type = .reference name := by
  cases o with
  | absent => simp [isKnown] at h
  | named path written =>
    have hknown : form? path = Option.none ∧ primitive? path = Option.none := by
      simpa [isKnown, isTypeName, isTypeConstructor] using h
    exact ⟨Text.afterLastString '.' written, by simp [type, ofPath, hknown, TypeInfo.of]⟩

end Operand

/-- The node stands for the operand: it is `None`, the name of a class of the file, a name that
nothing binds, an imported name, or a member of a module. -/
inductive Stands (s : Source) : Operand → Node → Prop
  | absent {n : Node} (hk : n.kind = "none") : Stands s .absent n
  | ofClass {n : Node} (h : NamesClass s .initial n) : Stands s (.named n.text n.text) n
  | unbound {n : Node} (hk : n.kind = "identifier") (hword : IsWord n.text)
    (h : s.table.lookup n.text n = none) : Stands s (.named n.text n.text) n
  | imported {n : Node} {i : Binding.Import} (hword : IsWord n.text) (h : s.Imports n i) :
    Stands s (.named i.path n.text) n
  | member {n base : Node} {attrs : List String} {head : String} (hk : n.kind = "attribute")
    (hchain : Table.chain? n = some (base, attrs)) (hne : attrs ≠ []) (hword : IsWord base.text)
    (htext : compactString n.text = dotted base.text attrs)
    (hhead : s.table.headPath? base.text (s.table.scopeOf n) n.startByte = some head) :
    Stands s (.named (dotted head attrs) (compactString n.text)) n

/-- What the readings of a name depend on: the path that it stands for is the same whether the table
or an annotation follows it, and it is no alias. -/
structure NamesType (s : Source) (n : Node) (path written : String) : Prop where
  kind : n.kind = "identifier" ∨ n.kind = "attribute"
  written_eq : compactString n.text = written
  qualify : s.table.qualify n = some path
  pathOf? : pathOf? s written (anchorOf s .initial n) = some path
  noAlias : aliasAt? s .initial n = none

theorem NamesType.stripType (h : NamesType s n path written) : stripType n = n := by
  rcases h.kind with hk | hk <;> exact stripType_of_ne (by simp [hk]) (by simp [hk])

/-- A name that stands for a path is read as the path: neither a value nor a parameter has one. -/
theorem NamesType.ofName_eq (h : NamesType s n path written) (below : Below) :
    ofName s below .initial n = ofPath path written := by
  have hk : nameKinds.contains n.kind = true := by
    rcases h.kind with hk | hk <;> simp [nameKinds, hk]
  have hpath := h.pathOf?
  have halias := h.noAlias
  simp only [aliasAt?, h.stripType, hk, h.written_eq, Bool.true_and] at halias
  simp only [ofName, h.written_eq, hpath]
  split
  · rfl
  · next hdot =>
    rw [pathOf?_of_not_hasDot (Bool.eq_false_iff.mpr hdot), Table.headPath?] at hpath
    split
    · next a hfound => simp [hdot, hfound] at halias
    · next v hfound => simp [hfound] at hpath
    · next p hfound => simp [hfound] at hpath
    · rfl

/-- A word that stands for a path names it everywhere. -/
theorem namesType_of_word (hk : n.kind = "identifier") (hword : IsWord n.text)
    (hpath : s.table.headPath? n.text (s.table.scopeOf n) n.startByte = some path)
    (halias : ∀ a, s.table.lookup n.text n ≠ some (.typeAlias a)) :
    NamesType s n path n.text where
  kind := .inl hk
  written_eq := Text.compactString_of_isWord hword
  qualify := by
    simp [Table.qualify, Table.qualifyAt, Table.chain?_of_identifier hk, hpath]
  pathOf? := by
    rw [TypeHint.pathOf?, Text.splitFirstString_of_isWord hword]
    exact hpath
  noAlias := by
    have hstrip : Expr.stripType n = n := stripType_of_ne (by simp [hk]) (by simp [hk])
    refine Option.eq_none_iff_forall_ne_some.mpr fun a ha => halias a ?_
    have hfound := (aliasAt?_eq_some_iff.mp ha).2.2
    rwa [hstrip, Text.compactString_of_isWord hword] at hfound

theorem Stands.namesType (h : Stands s (.named path written) n) : NamesType s n path written := by
  cases h with
  | ofClass h =>
    obtain ⟨d, hd⟩ := exists_definition_of_isClass h.isClass
    have hlookup : s.table.lookup n.text n = some (.definition d) := hd
    rw [Table.lookup] at hlookup
    exact namesType_of_word h.identifier h.isWord (by simp only [Table.headPath?, hlookup])
      (by simp [Table.lookup, hlookup])
  | unbound hk hword h =>
    rw [Table.lookup] at h
    exact namesType_of_word hk hword (by simp only [Table.headPath?, h]) (by simp [Table.lookup, h])
  | imported hword h =>
    have hlookup := h.lookup
    rw [Table.lookup] at hlookup
    exact namesType_of_word h.identifier hword (by simp only [Table.headPath?, hlookup])
      (by simp [Table.lookup, hlookup])
  | @member _ base attrs head hk hchain hne hword htext hhead =>
    have hpath := Binding.map_headPath? s.table base.text attrs (s.table.scopeOf n) n.startByte
    rw [hhead] at hpath
    have hdot : Text.hasDot (compactString n.text) = true := by
      obtain ⟨rest, hrest⟩ := Text.exists_dotted_eq hne
      simp [htext, hrest, Text.hasDot]
    have hstrip : Expr.stripType n = n := stripType_of_ne (by simp [hk]) (by simp [hk])
    refine ⟨.inr hk, rfl, ?_, ?_, ?_⟩
    · exact (Binding.qualifyAt_of_chain? hchain).trans hpath.symm
    · rw [htext]
      exact (pathOf?_dotted s attrs hword.noDot _).trans hpath.symm
    · refine Option.eq_none_iff_forall_ne_some.mpr fun a ha => ?_
      have hplain := (aliasAt?_eq_some_iff.mp ha).2.1
      rw [hstrip, hdot] at hplain
      exact Bool.noConfusion hplain

namespace Stands

variable {o : Operand}

theorem kind (h : Stands s o n) :
    n.kind = "none" ∨ n.kind = "identifier" ∨ n.kind = "attribute" := by
  cases o with
  | absent =>
    cases h with
    | absent hk => exact .inl hk
  | named path written => exact .inr h.namesType.kind

theorem stripType_eq (h : Stands s o n) : stripType n = n := by
  rcases h.kind with hk | hk | hk <;> exact stripType_of_ne (by simp [hk]) (by simp [hk])

/-- The type of an operand needs one level. -/
theorem typeWithin_eq (h : Stands s o n) (depth : Nat) :
    typeWithin s (depth + 1) .initial n = o.type := by
  rw [typeWithin, readWithin, level, h.stripType_eq]
  cases o with
  | absent =>
    cases h with
    | absent hk => simp only [hk, Operand.type, TypeInfo.of]
  | named path written =>
    have hname := h.namesType
    rcases hname.kind with hk | hk <;> simp only [hk, hname.ofName_eq, Operand.type]

theorem unionLeaves_eq (h : Stands s o n) : unionLeaves n = [n] := by
  rw [unionLeaves_of_not_isUnion, h.stripType_eq]
  rcases h.kind with hk | hk | hk <;> simp [isUnion, h.stripType_eq, hk]

/-- An operand looks like a type when its path is in the tables. -/
theorem operandLooksLikeType_eq (h : Stands s o n) :
    s.table.operandLooksLikeType (s.table.scopeOf n) n = o.isKnown := by
  cases o with
  | absent =>
    cases h with
    | absent hk => simp only [Table.operandLooksLikeType, hk, Operand.isKnown]
  | named path written =>
    have hqualify := h.namesType.qualify
    rw [Table.qualify] at hqualify
    rcases h.namesType.kind with hk | hk <;>
      simp only [Table.operandLooksLikeType, hk, hqualify, Operand.isKnown]

end Stands

/-! ### The two spellings -/

/-- The node spells the operands with bars between them, grouped from the left. -/
inductive Barred (s : Source) : Node → List Operand → Prop
  | two {n l r : Node} {o o' : Operand} (hbar : Table.IsBar n l r) (hl : Stands s o l)
    (hr : Stands s o' r) : Barred s n [o, o']
  | more {n l r : Node} {ops : List Operand} {o : Operand} (hbar : Table.IsBar n l r)
    (hl : Barred s l ops) (hr : Stands s o r) : Barred s n (ops ++ [o])

/-- The node applies `Union` to the operands. -/
structure Applied (s : Source) (n : Node) (ops : List Operand) : Prop where
  kind : n.kind = "subscript"
  head : ∃ base path written, n.childByField? "value" = some base ∧
    base.startByte = n.startByte ∧ Stands s (.named path written) base ∧ form? path = some .union
  operands : List.Forall₂ (Stands s) ops (n.childrenByField "subscript")

section Spellings

variable {ops : List Operand} {nodes : List Node} {scope : Nat}

theorem map_typeWithin_of_forall₂ (h : List.Forall₂ (Stands s) ops nodes) (depth : Nat) :
    nodes.map (typeWithin s (depth + 1) .initial) = ops.map Operand.type := by
  induction h with
  | nil => rfl
  | cons ho _ ih => rw [List.map_cons, List.map_cons, ho.typeWithin_eq, ih]

theorem isUnion_of_isBar (h : Table.IsBar n l r) : isUnion n = true := by
  simp [isUnion, h.kind, h.bar]

theorem stripType_of_isBar (h : Table.IsBar n l r) : stripType n = n :=
  stripType_of_ne (by simp [h.kind]) (by simp [h.kind])

theorem unionLeaves_of_isBar (h : Table.IsBar n l r) :
    unionLeaves n = unionLeaves l ++ unionLeaves r := by
  rw [unionLeaves_of_isUnion (by rw [stripType_of_isBar h, isUnion_of_isBar h]),
    stripType_of_isBar h, h.namedChildren]
  simp

namespace Barred

theorem isBar (h : Barred s n ops) : ∃ l r, Table.IsBar n l r := by
  cases h with
  | two hbar | more hbar => exact ⟨_, _, hbar⟩

/-- All operands have to look like types. -/
theorem looksLikeType_eq (h : Barred s n ops)
    (hscope : ∀ m ∈ n.descendants, s.table.scopeOf m = scope) :
    s.table.looksLikeType scope n = ops.all Operand.isKnown := by
  have hoperand : ∀ {o m}, Stands s o m → m ∈ n.descendants →
      s.table.operandLooksLikeType scope m = o.isKnown := fun ho hm =>
    hscope _ hm ▸ ho.operandLooksLikeType_eq
  induction h with
  | two hbar hl hr =>
    rw [Table.looksLikeType_of_isBar hbar,
      hoperand hl (Node.childByField?_mem_descendants hbar.left),
      hoperand hr (Node.childByField?_mem_descendants hbar.right)]
    simp
  | @more n l r ops o hbar hl hr ih =>
    have hmem := Node.childByField?_mem_descendants hbar.left
    obtain ⟨l', r', hbar'⟩ := hl.isBar
    have hleft : s.table.operandLooksLikeType scope l = ops.all Operand.isKnown := by
      rw [Table.operandLooksLikeType]
      simp only [hbar'.kind]
      exact ih (fun m hm => hscope m (Node.mem_descendants_trans hmem hm))
        fun ho hm => hoperand ho (Node.mem_descendants_trans hmem hm)
    rw [Table.looksLikeType_of_isBar hbar, hleft,
      hoperand hr (Node.childByField?_mem_descendants hbar.right)]
    simp

theorem operands (h : Barred s n ops) : List.Forall₂ (Stands s) ops (unionLeaves n) := by
  induction h with
  | two hbar hl hr =>
    rw [unionLeaves_of_isBar hbar, hl.unionLeaves_eq, hr.unionLeaves_eq]
    exact .cons hl (.cons hr .nil)
  | more hbar hl hr ih =>
    rw [unionLeaves_of_isBar hbar, hr.unionLeaves_eq]
    exact List.rel_append ih (.cons hr .nil)

theorem typeWithin_eq (h : Barred s n ops) (depth : Nat) :
    typeWithin s (depth + 2) .initial n = unionOf (ops.map Operand.type) := by
  obtain ⟨l, r, hbar⟩ := h.isBar
  have hstrip := stripType_of_isBar hbar
  rw [typeWithin_of_isUnion (by rw [hstrip, isUnion_of_isBar hbar]), hstrip,
    map_typeWithin_of_forall₂ h.operands]

theorem boundToValue_eq (h : Barred s n ops) (catalog : Catalog) (name : String) (statement : Node)
    (hscope : ∀ m ∈ n.descendants, s.table.scopeOf m = scope) :
    s.table.boundToValue catalog name n statement scope
      = if ops.all Operand.isKnown then .typeAlias ⟨n, false⟩
        else Table.plainValue name n statement := by
  obtain ⟨l, r, hbar⟩ := h.isBar
  simp only [Table.boundToValue, hbar.kind, h.looksLikeType_eq hscope]

end Barred

namespace Applied

/-- The head alone is asked for. -/
theorem looksLikeType_eq (h : Applied s n ops)
    (hscope : ∀ m ∈ n.descendants, s.table.scopeOf m = scope) :
    s.table.looksLikeType scope n = true := by
  obtain ⟨base, path, written, hbase, hstart, hstands, hform⟩ := h.head
  have hqualify := hstands.namesType.qualify
  rw [Table.qualify, hscope base (Node.childByField?_mem_descendants hbase), hstart] at hqualify
  rw [Table.looksLikeType]
  simp [h.kind, hbase, hqualify, isTypeConstructor, hform]

theorem typeWithin_eq (h : Applied s n ops) (depth : Nat) :
    typeWithin s (depth + 2) .initial n = unionOf (ops.map Operand.type) := by
  obtain ⟨base, path, written, hbase, -, hstands, hform⟩ := h.head
  have hname := hstands.namesType
  have hstrip : stripType n = n := stripType_of_ne (by simp [h.kind]) (by simp [h.kind])
  have hparts : subscriptParts n = (some base, n.childrenByField "subscript") := by
    rw [subscriptParts, if_pos h.kind, hbase]
  have hconstruct : construct? s .initial n = some (.union, n.childrenByField "subscript") := by
    rw [construct?_eq_some_iff, hstrip]
    refine ⟨by simp [subscriptKinds, h.kind], base, path, hparts, ?_, hform⟩
    rw [hname.written_eq, hname.pathOf?]
  obtain ⟨last, hlevel⟩ := level_of_construct? (readWithin s (depth + 1)) hconstruct
  rw [typeWithin, readWithin, hlevel, ← map_typeWithin_of_forall₂ h.operands depth]
  rfl

theorem boundToValue_eq (h : Applied s n ops) (catalog : Catalog) (name : String)
    (statement : Node) (hscope : ∀ m ∈ n.descendants, s.table.scopeOf m = scope) :
    s.table.boundToValue catalog name n statement scope = .typeAlias ⟨n, false⟩ := by
  simp only [Table.boundToValue, h.kind, h.looksLikeType_eq hscope, if_true]

end Applied

end Spellings

/-! ### Assignments -/

/-- An assignment to a name, at the end of a chain or alone, that does not say that it makes an
alias. -/
structure Assignment (tree : Tree) where
  statement : Node
  target : Node
  /-- What is assigned, maybe inside parentheses. -/
  assigned : Node
  mem_nodes : statement ∈ tree.nodes
  isAssignment : statement.kind = "assignment"
  target_eq : statement.childByField? "left" = some target
  isName : target.kind = "identifier"
  assigned_eq : assignedValue? statement = some assigned
  notExplicit : Table.isExplicitAlias statement = false

namespace Assignment

variable {a : Assignment s.tree} {ops : List Operand} {b : Binding.TypeAlias} {v : Binding.Value}

/-- What is assigned, without what stands around it. -/
def value {tree : Tree} (a : Assignment tree) : Node := stripAwait a.assigned

/-- What the name is bound to. -/
def bound (s : Source) (a : Assignment s.tree) : Bound :=
  s.table.boundToValue s.catalog a.target.text a.value a.statement (s.table.scopeOf a.statement)

/-- The binding of the name, from the end of the statement on. -/
def entry (s : Source) (a : Assignment s.tree) : Binding.Entry :=
  ⟨a.target.text, a.statement.endByte, none, a.bound s⟩

/-- The finished table has the binding in the scope of the statement. -/
def IsRecorded (s : Source) (a : Assignment s.tree) : Prop :=
  ∃ scope, s.table.scopes[s.table.scopeOf a.statement]? = some scope ∧ a.entry s ∈ scope.entries

/-- The annotation is a name for which a look-up finds what the assignment binds. -/
structure Reads (s : Source) (a : Assignment s.tree) (look : Look) (n : Node) : Prop where
  kind : (stripType n).kind ∈ nameKinds
  noDot : Text.hasDot (compactString (stripType n).text) = false
  lookup_eq : s.table.lookupAt (compactString (stripType n).text)
    (anchorOf s look (stripType n)).scope (anchorOf s look (stripType n)).pos = some (a.bound s)

theorem value_isBelow (a : Assignment s.tree) : a.value.IsBelow a.statement :=
  (isBelow_of_assignedValue? a.assigned_eq).of_mem_descendants
    (stripAwait_mem_descendants a.assigned)

/-- All of the value belongs to the scope of the statement. -/
theorem scopeOf_value (hs : s.IsGrammatical) (a : Assignment s.tree) :
    ∀ m ∈ a.value.descendants, s.table.scopeOf m = s.table.scopeOf a.statement := by
  obtain ⟨w, hw, hnode⟩ :=
    Visit.Within.exists_of_mem_descendants s.catalog (Visit.start s.tree) a.mem_nodes
  have hscope : ∀ m ∈ a.statement.descendants, s.table.scopeOf m = w.scope := fun m hm =>
    hs.table_eq ▸ Visit.scopeOf_of_assignment hs.tree.regular hs.tree.numbered hw
      (hnode ▸ a.isAssignment) (hnode ▸ hm)
  intro m hm
  rw [hscope m (Node.mem_descendants_trans a.value_isBelow.mem_descendants hm),
    hscope _ a.statement.self_mem_descendants]

theorem isRecorded (hs : s.IsGrammatical) (a : Assignment s.tree) : a.IsRecorded s := by
  obtain ⟨scope, hget, hmem⟩ := Visit.exists_entry_of_assignment
    ⟨hs.table_eq, hs.tree.regular, hs.tree.numbered⟩ a.mem_nodes a.isAssignment a.target_eq a.isName
    a.assigned_eq fun w hw hnode => by
      have hsettled := Visit.isSettled hs.tree hw
      rw [← hs.table_eq] at hsettled
      exact hnode ▸ (hsettled.assignment (hnode ▸ a.isAssignment) a.value
        (hnode ▸ a.value_isBelow)).2 a.target.text
  refine ⟨scope, hget, ?_⟩
  rw [if_neg (by simp [a.notExplicit])] at hmem
  exact hmem

/-- A name in the scope of the assignment, behind it, stands for what it binds when nothing else
binds the name. -/
theorem reads_of_only (hs : s.IsGrammatical) (a : Assignment s.tree)
    (hk : (stripType n).kind ∈ nameKinds) (hword : IsWord a.target.text)
    (htext : (stripType n).text = a.target.text)
    (hscope : s.table.scopeOf (stripType n) = s.table.scopeOf a.statement)
    (hbehind : a.statement.endByte ≤ (stripType n).startByte)
    (honly : ∀ scope ∈ s.table.scopes[s.table.scopeOf a.statement]?, (scope.entries.filter fun e =>
      e.name == a.target.text && e.visibleAt (stripType n).startByte).length = 1) :
    a.Reads s .initial n := by
  have hcompact : compactString (stripType n).text = a.target.text := by
    rw [htext, Text.compactString_of_isWord hword]
  obtain ⟨scope, hget, hmem⟩ := a.isRecorded hs
  refine ⟨hk, by rw [hcompact, Text.hasDot_of_isWord hword], ?_⟩
  rw [hcompact]
  have hget' : s.table.scopes[s.table.scopeOf (stripType n)]? = some scope := hscope ▸ hget
  refine Table.lookupAt_of_only hget' hmem ⟨rfl, ?_⟩ (honly scope hget)
  simp [Binding.Entry.visibleAt, entry, anchorOf, Look.initial, hbehind]

/-- An annotation that names an alias reads as what is assigned, one level further down. -/
theorem Reads.typeWithin_eq (hs : s.IsGrammatical) (h : a.Reads s look n)
    (hreaches : Reaches s look n) (hbound : a.bound s = .typeAlias b) (depth : Nat) :
    typeWithin s (depth + 1) look n = typeWithin s depth .initial b.target := by
  have hnested : s.IsNested := ⟨hs.table_eq, hs.tree.nested, hs.tree.numbered⟩
  have halias : aliasAt? s look n = some b :=
    aliasAt?_eq_some_iff.mpr ⟨h.kind, h.noDot, hbound ▸ h.lookup_eq⟩
  exact readWithin_of_aliasAt? hnested (hreaches.isInside hnested) halias depth

/-- An annotation that names a value is not recognised. -/
theorem Reads.typeWithin_of_value (h : a.Reads s look n) (hbound : a.bound s = .value v)
    (hv : v.callee = none) (depth : Nat) : typeWithin s (depth + 1) look n = .unknown := by
  have hlookup := h.lookup_eq
  rw [hbound] at hlookup
  rw [typeWithin, readWithin, level_of_mem_nameKinds h.kind]
  simp [ofName, h.noDot, hlookup, isTypeVariable, hv, TypeInfo.unknown, TypeInfo.of]

end Assignment

/-! ### Both spellings -/

theorem unionOf_operands_ne_unknown {ops : List Operand} (h : ∃ o ∈ ops, o.isKnown = false) :
    unionOf (ops.map Operand.type) ≠ .unknown := by
  obtain ⟨o, ho, hknown⟩ := h
  obtain ⟨name, hname⟩ := o.type_of_not_isKnown hknown
  have hmem : Descriptor.reference name ∈ ops.map Operand.type := hname ▸ List.mem_map_of_mem ho
  exact Descriptor.unionOf_ne_unknown_of_mem hmem

/-- **Classes do not stand between bars.** An assignment of `Union[...]` to a name makes an alias.
One of the same operands between bars makes an alias exactly when all of them are in the tables of
type names, and otherwise a value. Both are in the finished table. Annotations that name the first
target read as the union of the operands, wherever they stand; those that name the second do so only
if it is an alias, and are not recognised otherwise. -/
theorem typeWithin_alias_eq_iff {ops : List Operand} (hs : s.IsGrammatical) (hs' : s'.IsGrammatical)
    (u : Assignment s.tree) (b : Assignment s'.tree) (hu : Applied s u.value ops)
    (hb : Barred s' b.value ops) :
    u.IsRecorded s ∧ b.IsRecorded s' ∧
    u.bound s = .typeAlias ⟨u.value, false⟩ ∧
    b.bound s' = (if ops.all Operand.isKnown then .typeAlias ⟨b.value, false⟩
      else Table.plainValue b.target.text b.value b.statement) ∧
    ∀ look n look' n' depth, Reaches s look n → Reaches s' look' n' → u.Reads s look n →
      b.Reads s' look' n' →
      typeWithin s (depth + 3) look n = unionOf (ops.map Operand.type) ∧
      typeWithin s' (depth + 3) look' n'
        = (if ops.all Operand.isKnown then unionOf (ops.map Operand.type) else .unknown) ∧
      (typeWithin s (depth + 3) look n = typeWithin s' (depth + 3) look' n'
        ↔ ∀ o ∈ ops, o.isKnown = true) := by
  have hbound : u.bound s = .typeAlias ⟨u.value, false⟩ :=
    hu.boundToValue_eq _ _ _ (u.scopeOf_value hs)
  have hbound' := hb.boundToValue_eq s'.catalog b.target.text b.statement (b.scopeOf_value hs')
  refine ⟨u.isRecorded hs, b.isRecorded hs', hbound, hbound', ?_⟩
  intro look n look' n' depth hreaches hreaches' hreads hreads'
  have htype : typeWithin s (depth + 3) look n = unionOf (ops.map Operand.type) := by
    rw [hreads.typeWithin_eq hs hreaches hbound, hu.typeWithin_eq]
  by_cases hknown : ops.all Operand.isKnown = true
  · rw [if_pos hknown] at hbound' ⊢
    have htype' : typeWithin s' (depth + 3) look' n' = unionOf (ops.map Operand.type) := by
      rw [hreads'.typeWithin_eq hs' hreaches' hbound', hb.typeWithin_eq]
    exact ⟨htype, htype', iff_of_true (htype.trans htype'.symm) (List.all_eq_true.mp hknown)⟩
  · rw [if_neg hknown] at hbound' ⊢
    have htype' : typeWithin s' (depth + 3) look' n' = .unknown :=
      hreads'.typeWithin_of_value hbound' rfl (depth + 2)
    have hnot : ¬ ∀ o ∈ ops, o.isKnown = true := mt List.all_eq_true.mpr hknown
    have hne : unionOf (ops.map Operand.type) ≠ .unknown :=
      unionOf_operands_ne_unknown (by simpa using hnot)
    exact ⟨htype, htype', iff_of_false (by rwa [htype, htype']) hnot⟩

section Unions

open ApiSurface.Syntax.ParseTree

/-- Two unions in both spellings, one of a builtin and one of a class of the file. -/
def unionsTree : Tree := Tree.lower
    ("class Cat: pass\nA = Union[int, None]\nB = int | None\nC = Union[Cat, None]\n" ++
      "D = Cat | None\na: A\nb: B\nc: C\nd: D") <|
  rule "module" none 0 107 [
    rule "class_definition" none 0 15 [
      token "class" 0 5,
      rule "identifier" "name" 6 9 [],
      token ":" 9 10,
      rule "block" "body" 11 15 [rule "pass_statement" none 11 15 [token "pass" 11 15]]],
    rule "expression_statement" none 16 36 [
      rule "assignment" none 16 36 [
        rule "identifier" "left" 16 17 [],
        token "=" 18 19,
        rule "subscript" "right" 20 36 [
          rule "identifier" "value" 20 25 [],
          token "[" 25 26,
          rule "identifier" "subscript" 26 29 [],
          token "," 29 30,
          rule "none" "subscript" 31 35 [],
          token "]" 35 36]]],
    rule "expression_statement" none 37 51 [
      rule "assignment" none 37 51 [
        rule "identifier" "left" 37 38 [],
        token "=" 39 40,
        rule "binary_operator" "right" 41 51 [
          rule "identifier" "left" 41 44 [],
          token "|" 45 46,
          rule "none" "right" 47 51 []]]],
    rule "expression_statement" none 52 72 [
      rule "assignment" none 52 72 [
        rule "identifier" "left" 52 53 [],
        token "=" 54 55,
        rule "subscript" "right" 56 72 [
          rule "identifier" "value" 56 61 [],
          token "[" 61 62,
          rule "identifier" "subscript" 62 65 [],
          token "," 65 66,
          rule "none" "subscript" 67 71 [],
          token "]" 71 72]]],
    rule "expression_statement" none 73 87 [
      rule "assignment" none 73 87 [
        rule "identifier" "left" 73 74 [],
        token "=" 75 76,
        rule "binary_operator" "right" 77 87 [
          rule "identifier" "left" 77 80 [],
          token "|" 81 82,
          rule "none" "right" 83 87 []]]],
    rule "expression_statement" none 88 92 [
      rule "assignment" none 88 92 [
        rule "identifier" "left" 88 89 [],
        token ":" 89 90,
        rule "type" "type" 91 92 [rule "identifier" none 91 92 []]]],
    rule "expression_statement" none 93 97 [
      rule "assignment" none 93 97 [
        rule "identifier" "left" 93 94 [],
        token ":" 94 95,
        rule "type" "type" 96 97 [rule "identifier" none 96 97 []]]],
    rule "expression_statement" none 98 102 [
      rule "assignment" none 98 102 [
        rule "identifier" "left" 98 99 [],
        token ":" 99 100,
        rule "type" "type" 101 102 [rule "identifier" none 101 102 []]]],
    rule "expression_statement" none 103 107 [
      rule "assignment" none 103 107 [
        rule "identifier" "left" 103 104 [],
        token ":" 104 105,
        rule "type" "type" 106 107 [rule "identifier" none 106 107 []]]]]

def unions : Source := .read (fun _ => unionsTree) .builtin "unions.py" ""

def unionsNode (i : Nat) : Node := (unionsTree.node? i).getD default

theorem isGrammatical_unions : unions.IsGrammatical := ⟨rfl, by decide +kernel⟩

/-- The assignment that is the node with the number. -/
def unionsAssignment (i : Nat) (hi : i ∈ [9, 20, 28, 39]) : Assignment unions.tree where
  statement := unionsNode i
  target := unionsNode (i + 1)
  assigned := unionsNode (i + 3)
  mem_nodes := by
    simp only [List.mem_cons, List.not_mem_nil, or_false] at hi
    rcases hi with rfl | rfl | rfl | rfl
    exacts [List.mem_of_getElem? (i := 9) (by rfl), List.mem_of_getElem? (i := 20) (by rfl),
      List.mem_of_getElem? (i := 28) (by rfl), List.mem_of_getElem? (i := 39) (by rfl)]
  isAssignment := by
    revert i
    decide +kernel
  target_eq := by
    simp only [List.mem_cons, List.not_mem_nil, or_false] at hi
    rcases hi with rfl | rfl | rfl | rfl <;> rfl
  isName := by
    revert i
    decide +kernel
  assigned_eq := by
    simp only [List.mem_cons, List.not_mem_nil, or_false] at hi
    rcases hi with rfl | rfl | rfl | rfl <;> with_unfolding_all rfl
  notExplicit := by
    revert i
    decide +kernel

/-- Nothing binds the names `Union` and `int` of the tree, and `Cat` names the class. -/
theorem stands_unions :
    (∀ p ∈ [(13, "Union"), (15, "int"), (24, "int"), (32, "Union")],
      Stands unions (.named p.2 p.2) (unionsNode p.1)) ∧
    ∀ i ∈ [34, 43], Stands unions (.named "Cat" "Cat") (unionsNode i) := by
  have hnames : (∀ p ∈ [(13, "Union"), (15, "int"), (24, "int"), (32, "Union")],
      (unionsNode p.1).text = p.2 ∧ (unionsNode p.1).kind = "identifier" ∧
      IsWord (unionsNode p.1).text ∧
      (unions.table.lookup (unionsNode p.1).text (unionsNode p.1)).isNone) ∧
      ∀ i ∈ [34, 43], (unionsNode i).text = "Cat" ∧
        NamesClass unions .initial (unionsNode i) := by decide +kernel
  refine ⟨fun p hp => ?_, fun i hi => (hnames.2 i hi).1 ▸ Stands.ofClass (hnames.2 i hi).2⟩
  obtain ⟨htext, hk, hword, hfree⟩ := hnames.1 p hp
  exact htext ▸ Stands.unbound hk hword (Option.isNone_iff_eq_none.mp hfree)

/-- `Union[..., None]` with the operand in front. -/
theorem applied_unions (i : Nat) {o : Operand} (hi : i ∈ [12, 31])
    (ho : Stands unions o (unionsNode (i + 3))) : Applied unions (unionsNode i) [o, .absent] := by
  have hkind : ∀ i ∈ [12, 31], (unionsNode i).kind = "subscript" ∧
      (unionsNode (i + 1)).startByte = (unionsNode i).startByte ∧
      (unionsNode (i + 5)).kind = "none" ∧
      (i + 1, "Union") ∈ [(13, "Union"), (15, "int"), (24, "int"), (32, "Union")] := by
    decide +kernel
  have hfields : (unionsNode i).childByField? "value" = some (unionsNode (i + 1)) ∧
      (unionsNode i).childrenByField "subscript" = [unionsNode (i + 3), unionsNode (i + 5)] := by
    simp only [List.mem_cons, List.not_mem_nil, or_false] at hi
    rcases hi with rfl | rfl <;> exact ⟨by rfl, by rfl⟩
  obtain ⟨hk, hstart, hnone, hhead⟩ := hkind i hi
  refine ⟨hk, ⟨_, "Union", "Union", hfields.1, hstart, stands_unions.1 _ hhead,
    by decide +kernel⟩, ?_⟩
  rw [hfields.2]
  exact .cons ho (.cons (.absent hnone) .nil)

/-- `... | None` with the operand in front. -/
theorem barred_unions (i : Nat) {o : Operand} (hi : i ∈ [23, 42])
    (ho : Stands unions o (unionsNode (i + 1))) : Barred unions (unionsNode i) [o, .absent] := by
  have hkind : ∀ i ∈ [23, 42], (unionsNode i).kind = "binary_operator" ∧
      (unionsNode i).hasToken "|" = true ∧ (unionsNode (i + 3)).kind = "none" := by decide +kernel
  obtain ⟨hk, hbar, hnone⟩ := hkind i hi
  have hparts : Table.IsBar (unionsNode i) (unionsNode (i + 1)) (unionsNode (i + 3)) := by
    simp only [List.mem_cons, List.not_mem_nil, or_false] at hi
    rcases hi with rfl | rfl <;> exact ⟨hk, hbar, by rfl, by rfl, by rfl⟩
  exact .two hparts ho (.absent hnone)

theorem value_unionsAssignment (i : Nat) (hi : i ∈ [9, 20, 28, 39]) :
    (unionsAssignment i hi).value = unionsNode (i + 3) := by
  have hkind : ∀ i ∈ [9, 20, 28, 39], (unionsNode (i + 3)).kind ≠ "parenthesized_expression" ∧
      (unionsNode (i + 3)).kind ≠ "await" := by decide +kernel
  have hstrip : Expr.stripParens (unionsNode (i + 3)) = unionsNode (i + 3) :=
    Expr.stripKind_of_ne (hkind i hi).1
  change stripAwait (unionsNode (i + 3)) = unionsNode (i + 3)
  rw [stripAwait, hstrip, Expr.stripAwaitAux, if_neg (hkind i hi).2]

/-- The annotations name the targets of the assignments. -/
theorem reads_unions (i j : Nat) (hi : i ∈ [9, 20, 28, 39])
    (hj : (i, j) ∈ [(9, 50), (20, 56), (28, 62), (39, 68)]) :
    (unionsAssignment i hi).Reads unions .initial (unionsNode j) := by
  have hplace : ∀ p ∈ [(9, 50), (20, 56), (28, 62), (39, 68)],
      (stripType (unionsNode p.2)).kind ∈ nameKinds ∧ IsWord (unionsNode (p.1 + 1)).text ∧
      (stripType (unionsNode p.2)).text = (unionsNode (p.1 + 1)).text ∧
      unions.table.scopeOf (stripType (unionsNode p.2)) = unions.table.scopeOf (unionsNode p.1) ∧
      (unionsNode p.1).endByte ≤ (stripType (unionsNode p.2)).startByte ∧
      ∀ scope ∈ unions.table.scopes[unions.table.scopeOf (unionsNode p.1)]?,
        (scope.entries.filter fun e => e.name == (unionsNode (p.1 + 1)).text &&
          e.visibleAt (stripType (unionsNode p.2)).startByte).length = 1 := by decide +kernel
  obtain ⟨hk, hword, htext, hscope, hbehind, honly⟩ := hplace (i, j) hj
  exact Assignment.reads_of_only isGrammatical_unions (unionsAssignment i hi) hk hword htext hscope
    hbehind honly

/-- The theorem applies to the unions of the builtin. -/
theorem typeWithin_alias_eq_iff_builtin :
    unions.IsGrammatical ∧
    Applied unions (unionsNode 12) [.named "int" "int", .absent] ∧
    Barred unions (unionsNode 23) [.named "int" "int", .absent] ∧
    typeOf unions (unionsNode 50) = .optional (.primitive "int") ∧
    typeOf unions (unionsNode 50) = typeOf unions (unionsNode 56) := by
  have hi : 9 ∈ [9, 20, 28, 39] := by decide
  have hi' : 20 ∈ [9, 20, 28, 39] := by decide
  have happlied := applied_unions 12 (by decide) (stands_unions.1 (15, "int") (by decide))
  have hbarred := barred_unions 23 (by decide) (stands_unions.1 (24, "int") (by decide))
  obtain ⟨-, -, -, -, hreadings⟩ := typeWithin_alias_eq_iff isGrammatical_unions
    isGrammatical_unions (unionsAssignment 9 hi) (unionsAssignment 20 hi')
    ((value_unionsAssignment 9 hi).symm ▸ happlied) ((value_unionsAssignment 20 hi').symm ▸ hbarred)
  obtain ⟨htype, -, hsame⟩ := hreadings _ _ _ _ 61 (.start _) (.start _)
    (reads_unions 9 50 hi (by decide)) (reads_unions 20 56 hi' (by decide))
  have hunion : unionOf ([Operand.named "int" "int", .absent].map Operand.type)
      = .optional (.primitive "int") := by decide +kernel
  exact ⟨isGrammatical_unions, happlied, hbarred, htype.trans hunion, hsame.mpr (by decide +kernel)⟩

/-- Of the unions of the class only the one that applies `Union` makes an alias. -/
theorem typeOf_alias_class :
    unions.IsGrammatical ∧
    Applied unions (unionsNode 31) [.named "Cat" "Cat", .absent] ∧
    Barred unions (unionsNode 42) [.named "Cat" "Cat", .absent] ∧
    (aliasAt? unions .initial (unionsNode 62)).isSome ∧
    (aliasAt? unions .initial (unionsNode 68)).isNone ∧
    typeOf unions (unionsNode 62) = .optional (.reference "Cat") ∧
    typeOf unions (unionsNode 68) = .unknown ∧
    typeOf unions (unionsNode 62) ≠ typeOf unions (unionsNode 68) := by
  exact ⟨isGrammatical_unions,
    applied_unions 31 (by decide) (stands_unions.2 34 (by decide)),
    barred_unions 42 (by decide) (stands_unions.2 43 (by decide)), by decide +kernel⟩

end Unions

end ApiSurface.TypeHint
