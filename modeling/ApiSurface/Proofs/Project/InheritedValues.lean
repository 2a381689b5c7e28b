import Mathlib
import ApiSurface.Project.Resolve
import ApiSurface.Proofs.Project.Origins

/-!
# The values of inherited fields

A field whose type names an enumeration is shown with the values of that enumeration, which each
class looks up for itself. The class that declares a field and a class that inherits it can stand
in different files, with different enumerations of one name. They show the same constraints exactly
when the field declares values or both see the same ones (`constraints_withEnumValues_eq_iff`),
which is so for a name that only one class has (`enumOf?_congr`).
-/

namespace ApiSurface.Project

/-! ### Indices -/

theorem indices_and {α : Type} (q r : α → Bool) (l : List α) :
    indices (fun a => q a && r a) l = (indices q l).filter fun i => l[i]?.any r := by
  rw [indices, indices, List.filter_filter]
  refine List.filter_congr fun i _ => ?_
  cases l[i]? <;> simp [Bool.and_comm]

namespace Hierarchy

variable {h : Hierarchy} {m : Marks} {i d c : Nat} {f g : SchemaField} {name : String}

/-! ### Values that a class sees -/

/-- The values of the enumeration that the type names, as class `i` sees it. -/
def valuesSeen (h : Hierarchy) (m : Marks) (i : Nat) (t : TypeInfo) : List LiteralValue :=
  ((t.descriptor.referencedName?.bind (h.enumOf? m i)).map (·.decl.enumValues)).getD []

/-- A field is filled with the values that the class sees, unless it declares some. -/
theorem withEnumValues_eq (h : Hierarchy) (m : Marks) (i : Nat) (f : SchemaField) :
    h.withEnumValues m i f = { f with constraints := { f.constraints with
      enumValues := if f.constraints.enumValues = [] then h.valuesSeen m i f.type
        else f.constraints.enumValues } } := by
  by_cases hempty : f.constraints.enumValues = []
  · rw [withEnumValues, if_pos (List.isEmpty_iff.mpr hempty), if_pos hempty, valuesSeen]
    split
    · next e he => simp [he]
    · next he =>
      simp only [he, Option.map_none, Option.getD_none]
      rw [← hempty]
  · rw [withEnumValues, if_neg (by simpa using hempty), if_neg hempty]

theorem withEnumValues_inherit (h : Hierarchy) (m : Marks) (i d : Nat) (g : SchemaField) :
    h.withEnumValues m i (h.inherit d g) = h.inherit d (h.withEnumValues m i g) := by
  rw [withEnumValues_eq, withEnumValues_eq]
  rfl

/-- Two classes show a field with the same constraints when it declares values or they see the
same ones. -/
theorem constraints_withEnumValues_eq_iff :
    (h.withEnumValues m i f).constraints = (h.withEnumValues m d f).constraints ↔
      f.constraints.enumValues ≠ [] ∨ h.valuesSeen m i f.type = h.valuesSeen m d f.type := by
  rw [withEnumValues_eq, withEnumValues_eq]
  by_cases hempty : f.constraints.enumValues = []
  · simp [hempty]
  · simp [hempty]

/-! ### Names of one class -/

/-- The classes with the last segment of the name. -/
def namesakes (h : Hierarchy) (name : String) : List Nat :=
  indices (fun c => c.decl.name == Text.afterLastString '.' name) h.classes

/-- The class that a type name denotes for class `i`, enumeration or not. -/
def denoted? (h : Hierarchy) (i : Nat) (here : ClassEntry) (name : String) : Option Nat :=
  findBase? h.classes i ⟨name, Text.afterLastString '.' name, none, none⟩ <|>
    ((h.namesakes name).filter fun c => h.classes[c]?.any fun e => e.file == here.file).head?

theorem enumOf?_eq {here : ClassEntry} (hi : h.classes[i]? = some here) (name : String) :
    h.enumOf? m i name = (h.denoted? i here name).bind fun c =>
      if m.isEnum c then h.classes[c]? else none := by
  rw [enumOf?, hi, denoted?, namesakes, ← indices_and]
  rfl

theorem findBase?_eq {here : ClassEntry} (hi : h.classes[i]? = some here) (name : String) :
    findBase? h.classes i ⟨name, Text.afterLastString '.' name, none, none⟩
      = (let candidates := (h.namesakes name).filter (· != i)
        candidateBefore? h.classes candidates here <|> match candidates with
          | [only] => some only
          | _ => none) := by
  rw [findBase?, hi]
  rfl

/-- A name that no class has denotes nothing, wherever it stands. -/
theorem denoted?_of_namesakes_nil {here : ClassEntry} (hi : h.classes[i]? = some here)
    (hnil : h.namesakes name = []) : h.denoted? i here name = none := by
  rw [denoted?, findBase?_eq hi, hnil]
  rfl

/-- A name that one class has denotes that class, wherever it stands. -/
theorem denoted?_of_namesakes_singleton {here : ClassEntry} (hi : h.classes[i]? = some here)
    (hone : h.namesakes name = [c]) : h.denoted? i here name = some c := by
  rw [denoted?, findBase?_eq hi, hone]
  by_cases hc : c = i
  · -- no candidate for itself, but the first of the name in its file
    subst hc
    simp [candidateBefore?, hi]
  · have hcandidates : [c].filter (· != i) = [c] := by simp [hc]
    cases hq : h.classes[c]?.any fun e =>
      e.file == here.file && e.decl.span.startByte < here.decl.span.startByte <;>
    simp [hcandidates, candidateBefore?, hq]

/-- A name that at most one class has denotes the same enumeration everywhere. -/
theorem enumOf?_congr {here there : ClassEntry} (hi : h.classes[i]? = some here)
    (hd : h.classes[d]? = some there) (hname : (h.namesakes name).length ≤ 1) :
    h.enumOf? m i name = h.enumOf? m d name := by
  rw [enumOf?_eq hi, enumOf?_eq hd]
  match hsame : h.namesakes name with
  | [] => rw [denoted?_of_namesakes_nil hi hsame, denoted?_of_namesakes_nil hd hsame]
  | [c] => rw [denoted?_of_namesakes_singleton hi hsame, denoted?_of_namesakes_singleton hd hsame]
  | _ :: _ :: _ => simp [hsame] at hname

/-- The values that are seen depend on the class only where several classes have the name. -/
theorem valuesSeen_congr {here there : ClassEntry} (hi : h.classes[i]? = some here)
    (hd : h.classes[d]? = some there) {t : TypeInfo}
    (hname : ∀ name, t.descriptor.referencedName? = some name → (h.namesakes name).length ≤ 1) :
    h.valuesSeen m i t = h.valuesSeen m d t := by
  rw [valuesSeen, valuesSeen]
  cases hreferenced : t.descriptor.referencedName? with
  | none => rfl
  | some name => simp only [Option.bind_some, enumOf?_congr hi hd (hname name hreferenced)]

/-! ### Schemas -/

/-- The schema of a class. -/
def IsSchemaOf (h : Hierarchy) (i : Nat) (s : Schema) : Prop :=
  ∃ c, h.classes[i]? = some c ∧ h.schema? h.marks (h.allFields h.marks) i c = some s

theorem mem_schemas_iff {s : Schema} : s ∈ h.schemas ↔ ∃ i, h.IsSchemaOf i s := by
  simp only [schemas, List.mem_mergeSort, List.mem_filterMap, List.mem_mapIdx, IsSchemaOf]
  constructor
  · rintro ⟨_, ⟨i, hi, rfl⟩, hs⟩
    exact ⟨i, h.classes[i], List.getElem?_eq_getElem hi, hs⟩
  · rintro ⟨i, c, hc, hs⟩
    obtain ⟨hi, rfl⟩ := List.getElem?_eq_some_iff.mp hc
    exact ⟨_, ⟨i, hi, rfl⟩, hs⟩

/-- A recognised class with fields has a schema, which shows them as the class sees them. -/
theorem exists_isSchemaOf {c : ClassEntry} {l : List SchemaField} (hc : h.classes[i]? = some c)
    (hk : (h.marks.kind? i).isSome) (hl : (h.allFields h.marks).fields? i = some l) :
    ∃ s, h.IsSchemaOf i s ∧ s.name = c.decl.name ∧
      s.fields = l.map (h.withEnumValues h.marks i) := by
  obtain ⟨k, hk⟩ := Option.isSome_iff_exists.mp hk
  exact ⟨_, ⟨c, hc, by rw [schema?, hk, hl]; rfl⟩, rfl, rfl⟩

theorem IsSchemaOf.exists_fields {s : Schema} (hs : h.IsSchemaOf i s) :
    ∃ l, (h.allFields h.marks).fields? i = some l ∧
      s.fields = l.map (h.withEnumValues h.marks i) := by
  obtain ⟨c, -, hschema⟩ := hs
  obtain ⟨k, -, l, hl, rfl⟩ := by simpa [schema?, Option.bind_eq_some_iff] using hschema
  exact ⟨l, hl, rfl⟩

/-- A class from which fields are inherited is a base of another one, and recognised. -/
theorem Inherits.isSome_kind? (hid : h.Inherits m i d) : (m.kind? d).isSome := by
  obtain ⟨b, -, hd⟩ := Relation.TransGen.tail'_iff.mp hid
  exact (List.mem_filter.mp hd).2

/-- Class `i` with the schema `s` shows as `f` what class `d` with the schema `t` declares as `g`:
each with the values that it sees itself, and `i` with the name of `d` as label. -/
structure Repeats (h : Hierarchy) (i d : Nat) (s t : Schema) (f g : SchemaField) : Prop where
  shows : h.IsSchemaOf i s
  declares : h.IsSchemaOf d t
  inherits : h.Inherits h.marks i d
  declared : g ∈ h.ownFields d
  mem_fields : f ∈ s.fields
  listed : h.withEnumValues h.marks d g ∈ t.fields
  eq : f = { h.withEnumValues h.marks i g with inheritedFrom := some t.name }

/-- Where declared fields carry no label, a field with one is repeated from the schema of the class
that declares it. -/
theorem exists_repeats (hplain : ∀ c ∈ h.classes, ∀ f ∈ c.decl.fields, f.inheritedFrom = none)
    {s : Schema} (hs : h.IsSchemaOf i s) (hf : f ∈ s.fields) {label : String}
    (hlabel : f.inheritedFrom = some label) :
    ∃ d t g, h.Repeats i d s t f g ∧ t.name = label := by
  have hplain' : ∀ j, ∀ g ∈ h.ownFields j, g.inheritedFrom = none := fun j g hg => by
    obtain ⟨c, hc, hmem⟩ := exists_class_of_mem_ownFields hg
    exact hplain c (List.mem_of_getElem? hc) g hmem
  obtain ⟨l, hl, hfields⟩ := hs.exists_fields
  obtain ⟨e, he, rfl⟩ := List.mem_map.mp (hfields ▸ hf)
  rcases hasOrigin_allFields hl he with hown | ⟨d, g, htakes⟩
  · rw [withEnumValues_eq] at hlabel
    rw [hplain' i e hown] at hlabel
    cases hlabel
  · obtain ⟨l', hl', hg⟩ := htakes.listed
    obtain ⟨c, hc, -⟩ := exists_class_of_mem_ownFields htakes.declared
    obtain ⟨t, ht, hname, hshown⟩ := exists_isSchemaOf hc htakes.inherits.isSome_kind? hl'
    -- the declared field has no label, so it gets the name of the class that declares it
    have hf' : h.withEnumValues h.marks i e
        = { h.withEnumValues h.marks i g with inheritedFrom := some t.name } := by
      have hnone : (h.withEnumValues h.marks i g).inheritedFrom = none := by
        rw [withEnumValues_eq]
        exact hplain' d g htakes.declared
      rw [htakes.eq, withEnumValues_inherit, inherit, hnone, hc, hname]
      rfl
    refine ⟨d, t, g, ⟨hs, ht, htakes.inherits, htakes.declared, hf,
      hshown ▸ List.mem_map_of_mem hg, hf'⟩, ?_⟩
    rw [hf'] at hlabel
    exact Option.some.inj hlabel

theorem Repeats.exists_classes {s t : Schema} (hr : h.Repeats i d s t f g) :
    ∃ here there, h.classes[i]? = some here ∧ h.classes[d]? = some there := by
  obtain ⟨here, hi, -⟩ := hr.shows
  obtain ⟨there, hd, -⟩ := hr.declares
  exact ⟨here, there, hi, hd⟩

theorem Repeats.constraints_eq_iff {s t : Schema} (hr : h.Repeats i d s t f g) :
    f.constraints = (h.withEnumValues h.marks d g).constraints ↔
      g.constraints.enumValues ≠ [] ∨
        h.valuesSeen h.marks i g.type = h.valuesSeen h.marks d g.type := by
  rw [hr.eq]
  exact constraints_withEnumValues_eq_iff

end Hierarchy

/-- **Inherited constraints.** In any unit whose declared fields carry no label, as in the facts of
files that were read (`Source.inheritedFrom_of_mem_facts`), each field with a label repeats a field
from the schema of the class that declares it. Both have the same constraints exactly when the field
declares values or both classes see the same ones under its type, and so whenever at most one class
of the unit has the name in the type. -/
theorem constraints_of_inherited (files : List FileFacts)
    (hplain : ∀ file ∈ files, ∀ c ∈ file.classes, ∀ f ∈ c.fields, f.inheritedFrom = none) :
    let h := Hierarchy.ofFiles (byPath files)
    (∀ s ∈ (resolve files).schemas, ∀ f ∈ s.fields, ∀ label, f.inheritedFrom = some label →
      ∃ i d t g, h.Repeats i d s t f g ∧ t.name = label ∧ t ∈ (resolve files).schemas) ∧
    (∀ i d s t f g, h.Repeats i d s t f g →
      (f.constraints = (h.withEnumValues h.marks d g).constraints ↔
        g.constraints.enumValues ≠ [] ∨
          h.valuesSeen h.marks i g.type = h.valuesSeen h.marks d g.type) ∧
      ((∀ name, g.type.descriptor.referencedName? = some name → (h.namesakes name).length ≤ 1) →
        f.constraints = (h.withEnumValues h.marks d g).constraints)) := by
  intro h
  have hplain' : ∀ c ∈ h.classes, ∀ f ∈ c.decl.fields, f.inheritedFrom = none := by
    intro c hc
    obtain ⟨file, hfile, hc⟩ := List.mem_flatMap.mp hc
    obtain ⟨decl, hdecl, rfl⟩ := List.mem_map.mp hc
    exact hplain file (List.mem_mergeSort.mp hfile) decl hdecl
  refine ⟨fun s hs f hf label hlabel => ?_,
    fun i d s t f g hr => ⟨hr.constraints_eq_iff, fun hname => ?_⟩⟩
  · obtain ⟨i, hi⟩ := Hierarchy.mem_schemas_iff.mp hs
    obtain ⟨d, t, g, hr, hname⟩ := Hierarchy.exists_repeats hplain' hi hf hlabel
    exact ⟨i, d, t, g, hr, hname, Hierarchy.mem_schemas_iff.mpr ⟨d, hr.declares⟩⟩
  · obtain ⟨here, there, hi, hd⟩ := hr.exists_classes
    exact hr.constraints_eq_iff.mpr (.inr (Hierarchy.valuesSeen_congr hi hd hname))

section TwoFiles

private def enumeration (name : String) (values : List String) : ClassDecl :=
  { (default : ClassDecl) with name, isEnum := true, enumValues := values.map .str }

/-- A model with a field of the type `Status`, behind an enumeration of that name. -/
private def baseFile : FileFacts :=
  { FileFacts.empty "base.py" "python" with
    module := some "base"
    classes := [enumeration "Status" ["on"],
      { (default : ClassDecl) with
        name := "Base"
        span := { (default : Span) with startByte := 1 }
        directKind := some .pydantic
        fields := [{ (default : SchemaField) with
          name := "status", type := .of (.reference "Status") }] }] }

/-- A class that inherits the field, in another file, behind the given classes. -/
private def subFile (before : List ClassDecl) : FileFacts :=
  { FileFacts.empty "sub.py" "python" with
    module := some "sub"
    classes := before ++ [{ (default : ClassDecl) with
      name := "Sub"
      span := { (default : Span) with startByte := 1 }
      bases := [⟨"Base", "Base", some "base", some "base.Base"⟩] }] }

/-- One enumeration of the name. -/
def unambiguous : List FileFacts := [baseFile, subFile []]

/-- An enumeration of the name in either file. -/
def ambiguous : List FileFacts := [baseFile, subFile [enumeration "Status" ["off"]]]

/-- The schemas with the name, the label and the values of each field. -/
def shownValues (files : List FileFacts) :
    List (String × List (String × Option String × List LiteralValue)) :=
  (resolve files).schemas.map fun s =>
    (s.name, s.fields.map fun f => (f.name, f.inheritedFrom, f.constraints.enumValues))

/-- With one enumeration of the name the subclass shows the same constraints as its base. -/
theorem constraints_of_inherited_unambiguous :
    (∀ file ∈ unambiguous, ∀ c ∈ file.classes, ∀ f ∈ c.fields, f.inheritedFrom = none) ∧
    ∃ s ∈ (resolve unambiguous).schemas, ∃ f ∈ s.fields, f.inheritedFrom = some "Base" ∧
      ∃ t ∈ (resolve unambiguous).schemas, t.name = "Base" ∧
        ∃ g ∈ t.fields, f.constraints = g.constraints := by
  have hplain : ∀ file ∈ unambiguous, ∀ c ∈ file.classes, ∀ f ∈ c.fields,
      f.inheritedFrom = none := by decide +kernel
  obtain ⟨hrepeats, hconstraints⟩ := constraints_of_inherited unambiguous hplain
  have hschemas : (resolve unambiguous).schemas.map (fun s => s.fields.map fun f =>
      (f.inheritedFrom, f.type.descriptor.referencedName?))
        = [[(none, some "Status")], [(some "Base", some "Status")]] := by cbv
  have hone : ((Hierarchy.ofFiles (byPath unambiguous)).namesakes "Status").length = 1 := by cbv
  obtain ⟨s, hs, hfields⟩ : ∃ s ∈ (resolve unambiguous).schemas, (s.fields.map fun f =>
      (f.inheritedFrom, f.type.descriptor.referencedName?)) = [(some "Base", some "Status")] :=
    List.mem_map.mp (hschemas ▸ List.mem_cons_of_mem _ (List.mem_singleton_self _))
  obtain ⟨f, hf, heq⟩ : ∃ f ∈ s.fields,
      (f.inheritedFrom, f.type.descriptor.referencedName?) = (some "Base", some "Status") :=
    List.mem_map.mp (hfields ▸ List.mem_singleton_self _)
  obtain ⟨hlabel, htype⟩ := Prod.mk.inj heq
  obtain ⟨i, d, t, g, hr, hname, ht⟩ := hrepeats s hs f hf "Base" hlabel
  refine ⟨hplain, s, hs, f, hf, hlabel, t, ht, hname, _, hr.listed,
    (hconstraints i d s t f g hr).2 fun name hreferenced => ?_⟩
  have hsame : f.type = g.type := by
    rw [hr.eq, Hierarchy.withEnumValues_eq]
  rw [hsame, hreferenced] at htype
  rw [Option.some.inj htype, hone]

/-- With an enumeration in its own file the subclass shows other values than its base. -/
theorem shownValues_ambiguous :
    shownValues ambiguous = [("Base", [("status", none, [.str "on"])]),
      ("Sub", [("status", some "Base", [.str "off"])])] ∧
    LiteralValue.str "off" ≠ .str "on" := by
  refine ⟨?_, by decide⟩
  cbv

end TwoFiles

end ApiSurface.Project
