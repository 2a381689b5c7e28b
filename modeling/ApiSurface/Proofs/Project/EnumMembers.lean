import ApiSurface.Proofs.Project.InheritedValues
import ApiSurface.Proofs.Syntax.Layout

/-!
# The values of recognised enumerations

Two passes have to agree on what an enumeration is. Reading one file, a class is one when a base of
its own is an enumeration of the standard library, and only then are the values of its members
collected. Taken together with the other files, a class is one also through the bases of its bases.
So a field whose type names a recognised enumeration is filled with the values that the class body
gives to its members where the class has such a base of its own, and with nothing where it is
an enumeration only through other classes (`enumValues_of_named`).
-/

namespace ApiSurface.Project

open ApiSurface.Syntax (Node)
open Hierarchy (Progress)
open ClassDecl (hasEnumBase memberValues)

/-- The facts of files that were read, each with its module name. -/
def factsOf (units : List (Source × Option String)) : List FileFacts :=
  units.map fun u => u.1.facts u.2

/-- The class is stated in the source by the node. -/
structure States (s : Source) (definition : Node) (c : ClassEntry) : Prop where
  file : c.file = s.path
  mem_nodes : definition ∈ s.tree.nodes
  kind : definition.kind = "class_definition"
  ofNode? : ClassDecl.ofNode? s definition = some c.decl

/-- Every class of a unit is stated in one of its files. -/
theorem exists_states {units : List (Source × Option String)} {c : ClassEntry}
    (hc : c ∈ classEntries (byPath (factsOf units))) :
    ∃ u ∈ units, ∃ definition, States u.1 definition c := by
  obtain ⟨file, hfile, hc⟩ := List.mem_flatMap.mp hc
  obtain ⟨u, hu, rfl⟩ := List.mem_map.mp (List.mem_mergeSort.mp hfile)
  obtain ⟨decl, hdecl, rfl⟩ := List.mem_map.mp hc
  obtain ⟨definition, hmem, hkind, hnode⟩ := ClassDecl.exists_ofNode?_of_mem_all hdecl
  exact ⟨u, hu, definition, rfl, hmem, hkind, hnode⟩

/-- The values that the statement of an enumeration contributes. -/
theorem States.enumValues {s : Source} {definition : Node} {c : ClassEntry}
    (hc : States s definition c) :
    c.decl.enumValues = if hasEnumBase s definition then memberValues definition else [] :=
  (ClassDecl.members_of_ofNode? hc.ofNode?).2.1

namespace Hierarchy

variable {h : Hierarchy} {m : Marks} {i : Nat} {c : ClassEntry} {g : SchemaField}

/-- Without values of its own, the field has a type that names the enumeration for class `i`. -/
structure NamesEnum (h : Hierarchy) (i : Nat) (g : SchemaField) (c : ClassEntry) : Prop where
  undeclared : g.constraints.enumValues = []
  named : g.type.descriptor.referencedName?.bind (h.enumOf? h.marks i) = some c

/-- Such a field is shown with the values of the enumeration. -/
theorem NamesEnum.enumValues (hg : h.NamesEnum i g c) :
    (h.withEnumValues h.marks i g).constraints.enumValues = c.decl.enumValues := by
  rw [withEnumValues_eq, if_pos hg.undeclared, valuesSeen, hg.named]
  rfl

/-- What a type name is looked up to is one of the recognised enumerations. -/
theorem NamesEnum.exists_isEnum (hg : h.NamesEnum i g c) :
    ∃ j, h.classes[j]? = some c ∧ h.marks.isEnum j := by
  obtain ⟨name, -, hname⟩ := Option.bind_eq_some_iff.mp hg.named
  cases hi : h.classes[i]? with
  | none => simp [enumOf?, hi] at hname
  | some here =>
    rw [enumOf?_eq hi] at hname
    obtain ⟨j, -, hj⟩ := Option.bind_eq_some_iff.mp hname
    obtain ⟨henum, hc⟩ := Option.ite_none_right_eq_some.mp hj
    exact ⟨j, hc, henum⟩

/-- A recognised enumeration is one by itself or reaches one. -/
theorem exists_declaresEnum {j : Nat} (hj : h.marks.isEnum j) :
    ∃ k, h.Reaches j k ∧ h.declaresEnum k := by
  obtain ⟨k, hreach, hk⟩ := (spreads_enum h).exists_reaches j hj
  exact ⟨k, hreach, isEnum_directMarks h k ▸ hk⟩

end Hierarchy

/-- **Values of named enumerations.** In any set of files, each field of a schema that declares no
values and whose type names a recognised enumeration shows the values that the body of its class
statement gives to its members, if that statement itself has an enumeration of the standard library
among its bases; otherwise it shows none, although the class reaches an enumeration. -/
theorem enumValues_of_named (units : List (Source × Option String)) :
    let h := Hierarchy.ofFiles (byPath (factsOf units))
    (∀ s, s ∈ (resolve (factsOf units)).schemas ↔ ∃ i, h.IsSchemaOf i s) ∧
    ∀ i s, h.IsSchemaOf i s → ∃ l : List SchemaField, (h.allFields h.marks).fields? i = some l ∧
      s.fields = l.map (h.withEnumValues h.marks i) ∧
      ∀ g ∈ l, ∀ c, h.NamesEnum i g c →
        (∃ j k, h.classes[j]? = some c ∧ h.Reaches j k ∧ h.declaresEnum k) ∧
        ∃ u ∈ units, ∃ definition, States u.1 definition c ∧
          (h.withEnumValues h.marks i g).constraints.enumValues
            = if hasEnumBase u.1 definition then memberValues definition else [] := by
  intro h
  refine ⟨fun s => Hierarchy.mem_schemas_iff, fun i s hi => ?_⟩
  obtain ⟨l, hl, hfields⟩ := hi.exists_fields
  refine ⟨l, hl, hfields, fun g _ c hg => ?_⟩
  obtain ⟨j, hj, henum⟩ := hg.exists_isEnum
  obtain ⟨k, hreach, hk⟩ := Hierarchy.exists_declaresEnum henum
  obtain ⟨u, hu, definition, hstates⟩ := exists_states (List.mem_of_getElem? hj)
  exact ⟨⟨j, k, hj, hreach, hk⟩, u, hu, definition, hstates,
    hg.enumValues.trans hstates.enumValues⟩

section Paint

open ApiSurface.Syntax (Tree)
open ApiSurface.Syntax.ParseTree

/-- A model with two fields of enumeration types. One of the types is an enumeration by itself, and
the other one has it from a class without members. -/
def paintTree : Tree := Tree.lower
    ("import enum, pydantic\nclass Base(enum.Enum): pass\nclass Color(Base): RED = \"red\"\n" ++
      "class Size(enum.Enum): S = \"s\"\nclass Paint(pydantic.BaseModel):\n" ++
      "  color: Color\n  size: Size") <|
  rule "module" none 0 172 [
    rule "import_statement" none 0 21 [
      token "import" 0 6,
      rule "dotted_name" "name" 7 11 [rule "identifier" none 7 11 []],
      token "," 11 12,
      rule "dotted_name" "name" 13 21 [rule "identifier" none 13 21 []]],
    rule "class_definition" none 22 49 [
      token "class" 22 27,
      rule "identifier" "name" 28 32 [],
      rule "argument_list" "superclasses" 32 43 [
        token "(" 32 33,
        rule "attribute" none 33 42 [
          rule "identifier" "object" 33 37 [],
          token "." 37 38,
          rule "identifier" "attribute" 38 42 []],
        token ")" 42 43],
      token ":" 43 44,
      rule "block" "body" 45 49 [rule "pass_statement" none 45 49 [token "pass" 45 49]]],
    rule "class_definition" none 50 80 [
      token "class" 50 55,
      rule "identifier" "name" 56 61 [],
      rule "argument_list" "superclasses" 61 67 [
        token "(" 61 62,
        rule "identifier" none 62 66 [],
        token ")" 66 67],
      token ":" 67 68,
      rule "block" "body" 69 80 [
        rule "expression_statement" none 69 80 [
          rule "assignment" none 69 80 [
            rule "identifier" "left" 69 72 [],
            token "=" 73 74,
            rule "string" "right" 75 80 [
              rule "string_start" none 75 76 [],
              rule "string_content" none 76 79 [],
              rule "string_end" none 79 80 []]]]]],
    rule "class_definition" none 81 111 [
      token "class" 81 86,
      rule "identifier" "name" 87 91 [],
      rule "argument_list" "superclasses" 91 102 [
        token "(" 91 92,
        rule "attribute" none 92 101 [
          rule "identifier" "object" 92 96 [],
          token "." 96 97,
          rule "identifier" "attribute" 97 101 []],
        token ")" 101 102],
      token ":" 102 103,
      rule "block" "body" 104 111 [
        rule "expression_statement" none 104 111 [
          rule "assignment" none 104 111 [
            rule "identifier" "left" 104 105 [],
            token "=" 106 107,
            rule "string" "right" 108 111 [
              rule "string_start" none 108 109 [],
              rule "string_content" none 109 110 [],
              rule "string_end" none 110 111 []]]]]],
    rule "class_definition" none 112 172 [
      token "class" 112 117,
      rule "identifier" "name" 118 123 [],
      rule "argument_list" "superclasses" 123 143 [
        token "(" 123 124,
        rule "attribute" none 124 142 [
          rule "identifier" "object" 124 132 [],
          token "." 132 133,
          rule "identifier" "attribute" 133 142 []],
        token ")" 142 143],
      token ":" 143 144,
      rule "block" "body" 147 172 [
        rule "expression_statement" none 147 159 [
          rule "assignment" none 147 159 [
            rule "identifier" "left" 147 152 [],
            token ":" 152 153,
            rule "type" "type" 154 159 [rule "identifier" none 154 159 []]]],
        rule "expression_statement" none 162 172 [
          rule "assignment" none 162 172 [
            rule "identifier" "left" 162 166 [],
            token ":" 166 167,
            rule "type" "type" 168 172 [rule "identifier" none 168 172 []]]]]]]

def paint : Source := .read (fun _ => paintTree) .builtin "paint.py" ""

/-- The unit of that file alone. -/
def paintUnit : List (Source × Option String) := [(paint, some "paint")]

/-- The classes of the file. -/
def painted : Hierarchy := .ofFiles [paint.facts (some "paint")]

theorem ofFiles_paintUnit : Hierarchy.ofFiles (byPath (factsOf paintUnit)) = painted := by
  rw [byPath, factsOf, paintUnit, List.map_singleton, List.mergeSort_singleton]
  rfl

/-- The fields of the model. -/
def paintedFields : List SchemaField := painted.combine painted.marks (fun _ => none) 3

/-- A field of the model by its place. -/
def paintedField (i : Nat) : SchemaField := paintedFields[i]?.getD default

/-- The model is the only recognised class and has no recognised base. Its fields name the two
enumerations, and nothing is shown for the first one. -/
theorem painted_spec :
    (painted.size = 4 ∧ painted.recognised painted.marks = [3] ∧
      painted.recognisedBases painted.marks 3 = []) ∧
    (paintedFields.length = 2 ∧ (∀ i < 2, (paintedField i).constraints.enumValues = []) ∧
      ∀ i < 2, ((paintedField i).type.descriptor.referencedName?.bind
        (painted.enumOf? painted.marks 3)).map (·.decl.name) = ["Color", "Size"][i]?) ∧
    (painted.withEnumValues painted.marks 3 (paintedField 0)).constraints.enumValues = [] ∧
    ∀ n ∈ paint.tree.nodes, n.kind = "class_definition" →
      ((ClassDecl.ofNode? paint n).map (·.name) = some "Size" →
        hasEnumBase paint n = true ∧ memberValues n = [.str "s"]) ∧
      ((ClassDecl.ofNode? paint n).map (·.name) = some "Color" →
        memberValues n = [.str "red"]) := by
  decide +kernel

theorem fields?_painted : (painted.allFields painted.marks).fields? 3 = some paintedFields := by
  obtain ⟨⟨hsize, hrecognised, hbases⟩, -⟩ := painted_spec
  have hfresh : (Progress.start painted.size).isFresh 3 := by rw [hsize]; rfl
  have hcombine : ∀ fieldsOf, painted.combine painted.marks fieldsOf 3 = paintedFields := by
    intro fieldsOf
    rw [paintedFields, Hierarchy.combine, Hierarchy.combine, hbases]
    rfl
  rw [Hierarchy.allFields, hrecognised, List.foldl_cons, List.foldl_nil,
    Hierarchy.drain_enter_of_fresh [] hfresh, hbases, List.filter_nil, List.map_nil,
    List.nil_append, Hierarchy.drain_leave, Hierarchy.drain_nil, hcombine]
  exact Progress.fields?_leave_self _ (by rw [hsize]; decide)

theorem exists_isSchemaOf_painted : ∃ s ∈ (resolve (factsOf paintUnit)).schemas,
    painted.IsSchemaOf 3 s := by
  obtain ⟨⟨hsize, hrecognised, -⟩, -⟩ := painted_spec
  have hmem : 3 ∈ painted.recognised painted.marks := hrecognised ▸ List.mem_singleton_self 3
  have hkind : (painted.marks.kind? 3).isSome := (List.mem_filter.mp hmem).2
  have hlt : 3 < painted.classes.length := by
    rw [← Hierarchy.size, hsize]
    decide
  obtain ⟨s, hs, -, -⟩ :=
    Hierarchy.exists_isSchemaOf (List.getElem?_eq_getElem hlt) hkind fields?_painted
  refine ⟨s, ?_, hs⟩
  rw [resolve]
  exact Hierarchy.mem_schemas_iff.mpr ⟨3, ofFiles_paintUnit.symm ▸ hs⟩

/-- The members of the two enumerations. -/
theorem memberValues_painted {definition : Node} {c : ClassEntry}
    (hc : States paint definition c) :
    (c.decl.name = "Size" → hasEnumBase paint definition = true ∧
      memberValues definition = [.str "s"]) ∧
    (c.decl.name = "Color" → memberValues definition = [.str "red"]) := by
  obtain ⟨-, -, -, hstatements⟩ := painted_spec
  obtain ⟨hsize, hcolor⟩ := hstatements definition hc.mem_nodes hc.kind
  rw [hc.ofNode?] at hsize hcolor
  exact ⟨fun hname => hsize (congrArg some hname), fun hname => hcolor (congrArg some hname)⟩

/-- Either field names an enumeration. -/
theorem exists_namesEnum_painted (i : Nat) (hi : i < 2) :
    paintedField i ∈ paintedFields ∧ ∃ c, painted.NamesEnum 3 (paintedField i) c ∧
      some c.decl.name = ["Color", "Size"][i]? := by
  obtain ⟨-, ⟨hlength, hundeclared, hnamed⟩, -⟩ := painted_spec
  have hlt : i < paintedFields.length := hlength ▸ hi
  refine ⟨?_, ?_⟩
  · rw [paintedField, List.getElem?_eq_getElem hlt, Option.getD_some]
    exact List.getElem_mem hlt
  · have hname := hnamed i hi
    rw [List.getElem?_eq_getElem (l := ["Color", "Size"]) hi] at hname ⊢
    obtain ⟨c, hc, hname⟩ := Option.map_eq_some_iff.mp hname
    exact ⟨c, ⟨hundeclared i hi, hc⟩, congrArg some hname⟩

/-- The field of the enumeration that is one by itself shows the value of its member. -/
theorem enumValues_of_named_size :
    ∃ s ∈ (resolve (factsOf paintUnit)).schemas, ∃ f ∈ s.fields, ∃ c,
      painted.NamesEnum 3 (paintedField 1) c ∧ c.decl.name = "Size" ∧
      f.constraints.enumValues = [.str "s"] := by
  obtain ⟨s, hs, hschema⟩ := exists_isSchemaOf_painted
  obtain ⟨hmem, c, hnames, hname⟩ := exists_namesEnum_painted 1 (by decide)
  have hvalues := (enumValues_of_named paintUnit).2
  rw [ofFiles_paintUnit] at hvalues
  obtain ⟨l, hl, hfields, hnamed⟩ := hvalues 3 s hschema
  rw [fields?_painted] at hl
  obtain rfl := Option.some.inj hl
  obtain ⟨-, u, hu, definition, hstates, hshown⟩ := hnamed _ hmem c hnames
  obtain rfl := List.mem_singleton.mp hu
  obtain ⟨hbase, hmembers⟩ := (memberValues_painted hstates).1 (Option.some.inj hname)
  rw [if_pos hbase, hmembers] at hshown
  exact ⟨s, hs, _, hfields ▸ List.mem_map_of_mem hmem, c, hnames, Option.some.inj hname, hshown⟩

/-- The field of the enumeration that has it from another class shows nothing, although the class
gives a value to a member. -/
theorem enumValues_color :
    ∃ s ∈ (resolve (factsOf paintUnit)).schemas, ∃ f ∈ s.fields, ∃ c definition,
      painted.NamesEnum 3 (paintedField 0) c ∧ States paint definition c ∧
      c.decl.name = "Color" ∧ f = painted.withEnumValues painted.marks 3 (paintedField 0) ∧
      f.constraints.enumValues = [] ∧ memberValues definition = [.str "red"] := by
  obtain ⟨s, hs, hschema⟩ := exists_isSchemaOf_painted
  obtain ⟨hmem, c, hnames, hname⟩ := exists_namesEnum_painted 0 (by decide)
  obtain ⟨l, hl, hfields⟩ := hschema.exists_fields
  rw [fields?_painted] at hl
  obtain rfl := Option.some.inj hl
  obtain ⟨j, hj, -⟩ := hnames.exists_isEnum
  have hclass : c ∈ (Hierarchy.ofFiles (byPath (factsOf paintUnit))).classes := by
    rw [ofFiles_paintUnit]
    exact List.mem_of_getElem? hj
  obtain ⟨u, hu, definition, hstates⟩ := exists_states hclass
  obtain rfl := List.mem_singleton.mp hu
  have hmembers := (memberValues_painted hstates).2 (Option.some.inj hname)
  obtain ⟨-, -, hshown, -⟩ := painted_spec
  exact ⟨s, hs, _, hfields ▸ List.mem_map_of_mem hmem, c, definition, hnames, hstates,
    Option.some.inj hname, rfl, hshown, hmembers⟩

end Paint

end ApiSurface.Project
