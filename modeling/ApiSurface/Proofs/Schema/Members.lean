import Mathlib.Tactic.SplitIfs
import ApiSurface.Extract

/-!
# Members of classes

What a class body adds to a declaration depends on one decision that is made before, from the bases
between the parentheses of the class statement: where one of them is an enumeration of the standard
library, assignments are members and their values are collected, and otherwise they declare fields.
So a class has values or fields, but not both (`ClassDecl.members_of_ofNode?`). Bases that are
enumerations only because of their own bases do not count.
-/

namespace ApiSurface

open ApiSurface.Syntax (Node)
open ApiSurface.Expr (Arguments stripParens)

variable {s : Source} {decl : ClassDecl} {n arg statement : Node} {l : List Node}
  {f g : SchemaField}

theorem SchemaField.mem_put {fields : List SchemaField} (hg : g ∈ f.put fields) :
    g ∈ fields ∨ g = f := by
  induction fields with
  | nil => exact .inr (List.mem_singleton.mp hg)
  | cons e fields ih =>
    rw [put] at hg
    split at hg
    · exact (List.mem_cons.mp hg).symm.imp_left (List.mem_cons_of_mem e)
    · rcases List.mem_cons.mp hg with rfl | hg
      · exact .inl List.mem_cons_self
      · exact (ih hg).imp_left (List.mem_cons_of_mem e)

/-- Fields are declared without a label. -/
theorem SchemaField.inheritedFrom_of_ofAssignment? {total : Option Bool} {name : String}
    {hint value : Option Node} (h : ofAssignment? s total name hint value = some f) :
    f.inheritedFrom = none := by
  simp only [ofAssignment?, Option.bind_eq_bind, Option.bind_eq_some_iff] at h
  obtain ⟨⟨type, constraints⟩, -, h⟩ := h
  dsimp only at h
  split at h
  · cases h
  · cases h
    rfl

namespace ClassDecl

/-! ### Bases and decorators -/

/-- Whether a base between the parentheses is an enumeration of the standard library. -/
def isEnumArgument (s : Source) (arg : Node) : Bool :=
  (baseParts? (stripParens arg)).any fun (head, _) => (s.table.qualify head).any Catalog.isEnumBase

/-- Whether one of the bases of a class statement is an enumeration of the standard library. -/
def hasEnumBase (s : Source) (definition : Node) : Bool :=
  (definition.childByField? "superclasses").any fun superclasses =>
    (Arguments.ofList superclasses).positional.any (isEnumArgument s)

/-- The declarations list the same values and fields. -/
structure SameMembers (a b : ClassDecl) : Prop where
  enumValues : b.enumValues = a.enumValues
  fields : b.fields = a.fields

theorem SameMembers.refl (a : ClassDecl) : SameMembers a a := ⟨rfl, rfl⟩

theorem SameMembers.trans {a b c : ClassDecl} (hab : SameMembers a b) (hbc : SameMembers b c) :
    SameMembers a c :=
  ⟨hbc.enumValues.trans hab.enumValues, hbc.fields.trans hab.fields⟩

/-- The base that lists type parameters is no enumeration. -/
theorem isEnumBase_of_generic {q : Option String} {text : String}
    (h : q.getD text = "typing.Generic" ∨ q.getD text = "Generic") :
    q.any Catalog.isEnumBase = false := by
  cases q with
  | none => rfl
  | some path =>
    rcases h with h | h <;>
    · rw [Option.getD_some] at h
      rw [h]
      decide

theorem addBase_spec (s : Source) (decl : ClassDecl) (arg : Node) :
    (addBase s decl arg).isEnum = (decl.isEnum || isEnumArgument s arg) ∧
      SameMembers decl (addBase s decl arg) := by
  rw [addBase, isEnumArgument]
  dsimp only
  split
  · next hparts => exact ⟨by simp [hparts], .refl decl⟩
  · next head args hparts =>
    rw [hparts]
    split
    · next hgeneric =>
      exact ⟨by simp [isEnumBase_of_generic hgeneric], ⟨rfl, rfl⟩⟩
    · exact ⟨rfl, ⟨rfl, rfl⟩⟩

theorem foldl_addBase_spec (s : Source) (l : List Node) (decl : ClassDecl) :
    (l.foldl (addBase s) decl).isEnum = (decl.isEnum || l.any (isEnumArgument s)) ∧
      SameMembers decl (l.foldl (addBase s) decl) := by
  induction l generalizing decl with
  | nil => exact ⟨by simp, .refl decl⟩
  | cons arg l ih =>
    obtain ⟨hone, hsame⟩ := addBase_spec s decl arg
    obtain ⟨hrest, hsame'⟩ := ih (addBase s decl arg)
    refine ⟨?_, hsame.trans hsame'⟩
    rw [List.foldl_cons, hrest, hone, List.any_cons, Bool.or_assoc]

theorem addDecorator_spec (s : Source) (decl : ClassDecl) (decorator : Node) :
    (addDecorator s decl decorator).isEnum = decl.isEnum ∧
      SameMembers decl (addDecorator s decl decorator) := by
  rw [addDecorator]
  split
  · exact ⟨rfl, .refl decl⟩
  · split
    · exact ⟨rfl, ⟨rfl, rfl⟩⟩
    · exact ⟨rfl, .refl decl⟩

theorem addDecorators_spec (s : Source) (decl : ClassDecl) (n : Node) :
    (addDecorators s decl n).isEnum = decl.isEnum ∧ SameMembers decl (addDecorators s decl n) := by
  have hfold : ∀ l : List Node, (l.foldl (addDecorator s) decl).isEnum = decl.isEnum ∧
      SameMembers decl (l.foldl (addDecorator s) decl) := fun l =>
    List.foldlRecOn (motive := fun d => d.isEnum = decl.isEnum ∧ SameMembers decl d) l
      (addDecorator s) ⟨rfl, .refl decl⟩ fun d hd decorator _ =>
        ⟨(addDecorator_spec s d decorator).1.trans hd.1,
          hd.2.trans (addDecorator_spec s d decorator).2⟩
  rw [addDecorators]
  split
  · split
    · exact hfold _
    · exact ⟨rfl, .refl decl⟩
  · exact ⟨rfl, .refl decl⟩

/-! ### The body -/

/-- Whether an assignment to the name makes a member. -/
def isMemberName (name : String) : Bool := name != "model_config" && !Text.startsWith name "_"

/-- The value that an assignment gives to a member. -/
def memberOf? (assignment : Node) : Option LiteralValue := do
  let left ← assignment.childByField? "left"
  let value ← if left.kind = "identifier" ∧ isMemberName left.text then
    assignment.childByField? "right" else none
  pure ((Expr.literalValue? value).getD (.other value.text))

/-- The value that a statement of the body gives to a member. -/
def memberValue? (statement : Node) : Option LiteralValue :=
  if statement.kind = "expression_statement" then
    statement.firstNamed?.bind fun n => if n.kind = "assignment" then memberOf? n else none
  else none

/-- The values that a class body gives to its members, in order. -/
def memberValues (definition : Node) : List LiteralValue :=
  ((definition.childByField? "body").map fun body =>
    body.namedChildren.filterMap memberValue?).getD []

/-- What a statement adds that may give a value to a member: to an enumeration that value, to any
other class at most a field without a label. -/
structure Adds (decl : ClassDecl) (value : Option LiteralValue) (next : ClassDecl) : Prop where
  isEnum : next.isEnum = decl.isEnum
  enumValues : next.enumValues = decl.enumValues ++ if decl.isEnum then value.toList else []
  fields : ∀ f ∈ next.fields, f ∈ decl.fields ∨ decl.isEnum = false ∧ f.inheritedFrom = none

/-- Settings and the like add no member. -/
theorem Adds.of_sameMembers {next : ClassDecl} (henum : next.isEnum = decl.isEnum)
    (hsame : SameMembers decl next) : Adds decl none next where
  isEnum := henum
  enumValues := by simp [hsame.enumValues]
  fields f hf := .inl (hsame.fields ▸ hf)

theorem memberOf?_eq_none {assignment left : Node}
    (hleft : assignment.childByField? "left" = some left)
    (h : left.kind = "identifier" → isMemberName left.text = false) :
    memberOf? assignment = none := by
  have hnot : ¬ (left.kind = "identifier" ∧ isMemberName left.text) := fun ⟨hk, hname⟩ => by
    rw [h hk] at hname
    cases hname
  simp [memberOf?, hleft, hnot]

theorem memberOf?_eq {assignment left : Node}
    (hleft : assignment.childByField? "left" = some left) (hk : left.kind = "identifier")
    (hname : isMemberName left.text = true) : memberOf? assignment
      = (assignment.childByField? "right").map fun v =>
        (Expr.literalValue? v).getD (.other v.text) := by
  simp only [memberOf?, hleft, hk, hname, and_self, if_true, Option.bind_eq_bind,
    Option.bind_some]
  cases assignment.childByField? "right" <;> rfl

theorem addAssignment_adds (s : Source) (decl : ClassDecl) (assignment : Node) :
    Adds decl (memberOf? assignment) (addAssignment s decl assignment) := by
  rw [addAssignment]
  split
  · next hleft =>
    have hnone : memberOf? assignment = none := by simp [memberOf?, hleft]
    exact hnone ▸ .of_sameMembers rfl (.refl decl)
  · next left hleft =>
    dsimp only
    split_ifs with hk hconfig hprivate henum
    · rw [memberOf?_eq_none hleft fun h => absurd h hk]
      exact .of_sameMembers rfl (.refl decl)
    · rw [memberOf?_eq_none hleft fun _ => by simp [isMemberName, hconfig]]
      split
      · exact .of_sameMembers rfl ⟨rfl, rfl⟩
      · exact .of_sameMembers rfl (.refl decl)
    · rw [memberOf?_eq_none hleft fun _ => by simp [isMemberName, hprivate]]
      exact .of_sameMembers rfl (.refl decl)
    · -- a member of an enumeration
      rw [memberOf?_eq hleft (Decidable.not_not.mp hk) (by simp [isMemberName, hconfig, hprivate])]
      cases assignment.childByField? "right" with
      | none => exact .of_sameMembers rfl (.refl decl)
      | some v => exact ⟨rfl, by simp [henum], fun f hf => .inl hf⟩
    · -- a field of any other class
      have hfalse : decl.isEnum = false := Bool.eq_false_iff.mpr henum
      split
      · next field hfield =>
        refine ⟨rfl, by simp [hfalse], fun f hf => ?_⟩
        refine (SchemaField.mem_put hf).imp_right fun heq => ⟨hfalse, ?_⟩
        exact heq ▸ SchemaField.inheritedFrom_of_ofAssignment? hfield
      · exact ⟨rfl, by simp [hfalse], fun f hf => .inl hf⟩

theorem addStatement_adds (s : Source) (decl : ClassDecl) (statement : Node) :
    Adds decl (memberValue? statement) (addStatement s decl statement) := by
  rw [addStatement]
  split
  · next hk =>
    simp only [memberValue?, hk, if_true]
    split
    · next n hn =>
      rw [hn, Option.bind_some]
      split_ifs
      · exact addAssignment_adds s decl n
      · exact .of_sameMembers rfl (.refl decl)
    · next hn =>
      rw [hn]
      exact .of_sameMembers rfl (.refl decl)
  · next hk =>
    rw [memberValue?, if_neg (by simp [hk])]
    split_ifs <;> exact .of_sameMembers rfl ⟨rfl, rfl⟩
  · next hk =>
    rw [memberValue?, if_neg (by simp [hk])]
    split <;> exact .of_sameMembers rfl ⟨rfl, rfl⟩
  · next hk _ _ =>
    rw [memberValue?, if_neg hk]
    exact .of_sameMembers rfl (.refl decl)

/-- What all statements of a body add. -/
theorem foldl_addStatement_adds (s : Source) (l : List Node) (decl : ClassDecl) :
    (l.foldl (addStatement s) decl).isEnum = decl.isEnum ∧
    (l.foldl (addStatement s) decl).enumValues
      = decl.enumValues ++ (if decl.isEnum then l.filterMap memberValue? else []) ∧
    ∀ f ∈ (l.foldl (addStatement s) decl).fields,
      f ∈ decl.fields ∨ decl.isEnum = false ∧ f.inheritedFrom = none := by
  induction l generalizing decl with
  | nil => exact ⟨rfl, by simp, fun f hf => .inl hf⟩
  | cons statement l ih =>
    have hone := addStatement_adds s decl statement
    obtain ⟨hisEnum, hvalues, hfields⟩ := ih (addStatement s decl statement)
    rw [hone.isEnum] at hisEnum hvalues hfields
    refine ⟨hisEnum, ?_, fun f hf => ?_⟩
    · rw [List.foldl_cons, hvalues, hone.enumValues, List.append_assoc]
      cases decl.isEnum <;> cases hvalue : memberValue? statement <;> simp [hvalue]
    · rcases hfields f hf with hf | hnew
      · exact hone.fields f hf
      · exact .inr hnew

/-! ### Declarations -/

/-- The bases of a class statement decide whether it is an enumeration, and list no member. -/
theorem addBases_spec (s : Source) (decl : ClassDecl) (superclasses : Node) :
    (addBases s decl superclasses).isEnum = (decl.isEnum ||
      (Arguments.ofList superclasses).positional.any (isEnumArgument s)) ∧
      SameMembers decl (addBases s decl superclasses) := by
  obtain ⟨henum, hsame⟩ :=
    foldl_addBase_spec s (Arguments.ofList superclasses).positional decl
  exact ⟨henum, ⟨hsame.enumValues, hsame.fields⟩⟩

/-- A class without members yet, once its bases and decorators are read. -/
theorem addDecorators_addBases_spec {start : ClassDecl} (henum : start.isEnum = false)
    (hvalues : start.enumValues = []) (hfields : start.fields = []) (s : Source) (n : Node) :
    let next := addDecorators s (match n.childByField? "superclasses" with
      | some superclasses => addBases s start superclasses
      | none => start) n
    next.isEnum = hasEnumBase s n ∧ next.enumValues = [] ∧ next.fields = [] := by
  intro next
  obtain ⟨hdecorated, hsame⟩ := addDecorators_spec s (match n.childByField? "superclasses" with
    | some superclasses => addBases s start superclasses
    | none => start) n
  rw [hdecorated, hsame.enumValues, hsame.fields, hasEnumBase]
  cases n.childByField? "superclasses" with
  | none => exact ⟨henum, hvalues, hfields⟩
  | some superclasses =>
    obtain ⟨hbases, hsame⟩ := addBases_spec s start superclasses
    exact ⟨by simp [hbases, henum], hsame.enumValues.trans hvalues, hsame.fields.trans hfields⟩

/-- The statements of the body are read last. -/
theorem exists_foldl_of_ofNode? (h : ofNode? s n = some decl) :
    ∃ start : ClassDecl, start.isEnum = hasEnumBase s n ∧ start.enumValues = [] ∧
      start.fields = [] ∧ decl = (((n.childByField? "body").map Node.namedChildren).getD []).foldl
        (addStatement s) start := by
  simp only [ofNode?, Option.bind_eq_bind, Option.bind_eq_some_iff] at h
  obtain ⟨name, -, h⟩ := h
  have hdecl := Option.some.inj h
  generalize hstart : ({ named name.text n.span with
      doc := (Doc.read (n.childByField? "body")).summary
      typeParams := match n.childByField? "type_parameters" with
        | some params => params.namedChildren.map fun p => (Expr.stripType p).text
        | none => [] } : ClassDecl) = start at hdecl
  obtain ⟨hnoEnum, hnoValues, hnoFields⟩ : start.isEnum = false ∧ start.enumValues = [] ∧
      start.fields = [] := hstart ▸ ⟨rfl, rfl, rfl⟩
  obtain ⟨henum, hvalues, hfields⟩ :=
    addDecorators_addBases_spec hnoEnum hnoValues hnoFields s n
  refine ⟨_, henum, hvalues, hfields, hdecl.symm.trans ?_⟩
  cases n.childByField? "body" <;> rfl

/-- **Values or fields.** An enumeration of its own declares the values of its members and no field;
any other class declares no values, and its fields carry no label. -/
theorem members_of_ofNode? (h : ofNode? s n = some decl) :
    decl.isEnum = hasEnumBase s n ∧
    decl.enumValues = (if hasEnumBase s n then memberValues n else []) ∧
    ∀ f ∈ decl.fields, hasEnumBase s n = false ∧ f.inheritedFrom = none := by
  obtain ⟨start, hisEnum, hvalues, hfields, rfl⟩ := exists_foldl_of_ofNode? h
  obtain ⟨hisEnum', hvalues', hfields'⟩ := foldl_addStatement_adds s
    (((n.childByField? "body").map Node.namedChildren).getD []) start
  rw [hisEnum, hvalues] at hvalues'
  rw [hisEnum] at hisEnum'
  refine ⟨hisEnum', ?_, fun f hf => ?_⟩
  · rw [hvalues', memberValues]
    cases n.childByField? "body" <;> simp
  · rcases hfields' f hf with hold | hnew
    · rw [hfields] at hold
      exact absurd hold List.not_mem_nil
    · exact hisEnum ▸ hnew

/-- The class statement of a class. -/
theorem exists_ofNode?_of_mem_all (h : decl ∈ all s) :
    ∃ definition ∈ s.tree.nodes, definition.kind = "class_definition" ∧
      ofNode? s definition = some decl := by
  obtain ⟨definition, hmem, hdecl⟩ := List.mem_filterMap.mp h
  obtain ⟨hnode, hkind⟩ := List.mem_filter.mp hmem
  exact ⟨definition, hnode, by simpa using hkind, hdecl⟩

end ClassDecl

/-- No field that a file declares carries a label. -/
theorem Source.inheritedFrom_of_mem_facts {module : Option String}
    (hdecl : decl ∈ (s.facts module).classes) (hf : f ∈ decl.fields) : f.inheritedFrom = none := by
  obtain ⟨definition, -, -, hnode⟩ := ClassDecl.exists_ofNode?_of_mem_all hdecl
  exact ((ClassDecl.members_of_ofNode? hnode).2.2 f hf).2

end ApiSurface
