import ApiSurface.Proofs.Binding.ImportPath
import ApiSurface.Proofs.TypeHint.Mentions
import ApiSurface.Proofs.TypeHint.UnionSpelling

/-!
# Classes of the file in annotations

A name that a class statement of the file defines is looked up, and then its own text is taken as
its path, as for a name that nothing defines. So the tables of type names decide before the class
does: a class is referred to by its name exactly when the name is in none of them
(`readWithin_class_eq_reference_iff`), and heads a generic type exactly when the name is none of a
construct, with `type` around one argument as the exception (`typeWithin_class_eq_generic_iff`).
-/

namespace ApiSurface.Text

theorem compactString_of_isWord {s : String} (h : IsWord s) : compactString s = s := by
  have hcompact : compact s.toList = s.toList :=
    List.filter_eq_self.mpr fun c hc => by simp [h.noBlank c hc]
  rw [compactString, hcompact, String.ofList_toList]

theorem hasDot_of_isWord {s : String} (h : IsWord s) : hasDot s = false := by
  simpa [hasDot] using h.noDot

theorem splitFirstString_of_isWord {s : String} (h : IsWord s) :
    splitFirstString '.' s = none := by
  rw [splitFirstString, splitFirst_eq_none h.noDot]
  rfl

theorem afterLastString_of_isWord {s : String} (h : IsWord s) : afterLastString '.' s = s := by
  rw [afterLastString, afterLast, splitLast_eq_none h.noDot]
  exact String.ofList_toList

end ApiSurface.Text

namespace ApiSurface.TypeHint

open ApiSurface.Syntax (Node Tree)
open ApiSurface.Expr (stripType)
open ApiSurface.Text (IsWord compactString compactString_of_isWord)
open ApiSurface.Binding (Bound)

variable {s : Source} {below : Below} {look : Look} {n base : Node} {args : List Node} {form : Form}
  {depth : Nat}

/-! ### Names of classes -/

/-- Whether a class statement made the binding. -/
def isClass : Option Bound → Bool
  | some (.definition d) => d.kind == .classType
  | _ => false

/-- The node is a plain name whose visible binding is a class of the file. -/
structure NamesClass (s : Source) (look : Look) (n : Node) : Prop where
  identifier : n.kind = "identifier"
  isWord : IsWord n.text
  isClass : isClass (s.table.lookupAt n.text (anchorOf s look n).scope (anchorOf s look n).pos)
    = true

instance (s : Source) (look : Look) (n : Node) : Decidable (NamesClass s look n) :=
  decidable_of_iff (n.kind = "identifier" ∧ IsWord n.text ∧
      TypeHint.isClass (s.table.lookupAt n.text (anchorOf s look n).scope (anchorOf s look n).pos)
        = true)
    ⟨fun ⟨h₁, h₂, h₃⟩ => ⟨h₁, h₂, h₃⟩, fun h => ⟨h.identifier, h.isWord, h.isClass⟩⟩

theorem exists_definition_of_isClass {b : Option Bound} (h : isClass b = true) :
    ∃ d, b = some (.definition d) := by
  match b with
  | some (.definition d) => exact ⟨d, rfl⟩

/-- The path of a class is its name, as if nothing were bound to it. -/
theorem NamesClass.pathOf? (h : NamesClass s look n) :
    pathOf? s n.text (anchorOf s look n) = some n.text := by
  obtain ⟨d, hd⟩ := exists_definition_of_isClass h.isClass
  simp only [TypeHint.pathOf?, Text.splitFirstString_of_isWord h.isWord,
    Binding.Table.headPath?, hd]

theorem NamesClass.ofName (h : NamesClass s look n) :
    ofName s below look n = ofPath n.text n.text := by
  obtain ⟨d, hd⟩ := exists_definition_of_isClass h.isClass
  simp only [TypeHint.ofName, compactString_of_isWord h.isWord, Text.hasDot_of_isWord h.isWord, hd,
    h.pathOf?, Bool.false_eq_true, if_false]

/-! ### Plain names -/

theorem bareForm_ne_reference (form : Form) (name : String) : bareForm form ≠ .reference name := by
  cases form <;> simp [bareForm]

/-- A word is read as a reference when it is in no table of type names. -/
theorem ofPath_eq_reference_iff {name : String} (h : IsWord name) :
    ofPath name name = .of (.reference name) ↔ isTypeName name = false := by
  rw [ofPath, isTypeName, isTypeConstructor]
  split
  · next primitive hprimitive =>
    refine iff_of_false (fun heq => ?_) (by simp [hprimitive])
    dsimp only at heq
    split at heq
    · simpa [TypeInfo.withAlias, TypeInfo.of] using congrArg TypeInfo.descriptor heq
    · simpa [TypeInfo.of] using congrArg TypeInfo.descriptor heq
  · next hprimitive =>
    split
    · next form hform =>
      exact iff_of_false
        (fun heq => bareForm_ne_reference form name (congrArg TypeInfo.descriptor heq))
        (by simp [hform])
    · next hform =>
      rw [Text.afterLastString_of_isWord h]
      exact iff_of_true rfl (by simp [hform, hprimitive])

/-- The name of a class of the file is read as the table of type names has it. -/
theorem readWithin_class (h : NamesClass s look (stripType n)) (depth : Nat) :
    readWithin s (depth + 1) look n = ofPath (stripType n).text (stripType n).text := by
  have hk : (stripType n).kind ∈ nameKinds := by simp [nameKinds, h.identifier]
  rw [readWithin, level_of_mem_nameKinds hk, h.ofName]

theorem readWithin_class_eq_reference_iff (h : NamesClass s look (stripType n)) (depth : Nat) :
    readWithin s (depth + 1) look n = .of (.reference (stripType n).text)
      ↔ isTypeName (stripType n).text = false := by
  rw [readWithin_class h, ofPath_eq_reference_iff h.isWord]

/-! ### Names with arguments -/

theorem ofTuple_ne_generic (name : String) (types : List Descriptor) :
    ofTuple below look args ≠ .generic name types := by
  unfold ofTuple
  split
  · split <;> simp
  · split <;> simp
  · simp

theorem ofCallable_ne_generic (name : String) (types : List Descriptor) :
    ofCallable below look args ≠ .generic name types := by
  rw [ofCallable]
  split
  · split <;> simp
  · simp

/-- A type is not generic around itself. -/
theorem ne_generic_of_mem {d : Descriptor} {types : List Descriptor} (h : d ∈ types)
    (name : String) : d ≠ .generic name types := by
  intro heq
  have hdepth := Descriptor.depth_le_depthAll h
  rw [heq, Descriptor.depth] at hdepth
  omega

/-- A construct other than `type` is read as something else than a generic type of its
arguments. -/
theorem ofForm_ne_generic (hform : form ≠ .type) (last name : String) :
    (ofForm below look form last args).descriptor
      ≠ .generic name (descriptors below look args) := by
  cases form with
  | type => exact absurd rfl hform
  | list | set | dict | literal => simp [ofForm, TypeInfo.of]
  | tuple => exact ofTuple_ne_generic name _
  | callable => exact ofCallable_ne_generic name _
  | optional => exact Descriptor.unionOf_none_ne_generic _ name _
  | union => exact Descriptor.unionOf_ne_generic _ name
  | annotated | qualifier =>
    cases args with
    | nil => simp [ofForm, TypeInfo.unknown, TypeInfo.of]
    | cons first args => exact ne_generic_of_mem (List.mem_cons_self ..) name

theorem ofForm_type_eq_generic_iff (last name : String) :
    (ofForm below look .type last args).descriptor = .generic name (descriptors below look args)
      ↔ name = "type" ∧ args.length = 1 := by
  change Descriptor.generic "type" [argument below look args 0] = .generic name _ ↔ _
  match args with
  | [] => simp [descriptors]
  | [arg] => simp [descriptors, argument, eq_comm]
  | _ :: _ :: _ => simp [descriptors]

/-- The only construct that is written with its own name as the base of a generic type. -/
theorem form?_type : form? "type" = some .type := by decide

/-- A subscript of a word that is its own path. -/
theorem ofSubscript_eq_generic_iff {name : String} (hword : IsWord name)
    (hparts : subscriptParts n = (some base, args)) (hname : base.text = name)
    (hpath : pathOf? s name (anchorOf s look base) = some name) :
    (ofSubscript s below look n).descriptor = .generic name (descriptors below look args)
      ↔ isTypeConstructor name = false ∨ name = "type" ∧ args.length = 1 := by
  have hcompact : compactString base.text = name := by
    rw [hname, compactString_of_isWord hword]
  simp only [ofSubscript, hparts, hcompact, hpath, Text.afterLastString_of_isWord hword,
    isTypeConstructor]
  cases hform : form? name with
  | none => simp [TypeInfo.of]
  | some form =>
    by_cases htype : form = .type
    · subst htype
      simp [ofForm_type_eq_generic_iff]
    · have hne : name ≠ "type" := by
        rintro rfl
        rw [form?_type] at hform
        exact htype (Option.some.inj hform).symm
      simp [ofForm_ne_generic htype, hne]

theorem typeWithin_class_eq_generic_iff (hk : (stripType n).kind ∈ subscriptKinds)
    (hparts : subscriptParts (stripType n) = (some base, args)) (h : NamesClass s look base)
    (depth : Nat) :
    typeWithin s (depth + 1) look n = .generic base.text (args.map (typeWithin s depth look))
      ↔ isTypeConstructor base.text = false ∨ base.text = "type" ∧ args.length = 1 := by
  have hlevel : readWithin s (depth + 1) look n
      = ofSubscript s (readWithin s depth) look (stripType n) := by
    simp only [subscriptKinds, List.mem_cons, List.not_mem_nil, or_false] at hk
    rcases hk with hk | hk <;> simp only [readWithin, level, hk]
  rw [typeWithin, hlevel]
  exact ofSubscript_eq_generic_iff h.isWord hparts rfl h.pathOf?

/-- **The tables come first.** A class of the file that an annotation names is read as if its name
were not bound: as a reference to it exactly when no table has a type of that name. With arguments
it is a generic type over them, which are read with one level less, exactly when no construct has
that name. A class called `type` is taken for the construct, which has the same shape around one
argument. -/
theorem normalize_class_iff (s : Source) (n : Node) :
    (NamesClass s .initial (stripType n) →
      normalize s n = ofPath (stripType n).text (stripType n).text ∧
      (normalize s n = .of (.reference (stripType n).text)
        ↔ isTypeName (stripType n).text = false)) ∧
    (∀ base args, (stripType n).kind ∈ subscriptKinds →
      subscriptParts (stripType n) = (some base, args) → NamesClass s .initial base →
      (typeOf s n = .generic base.text (args.map (typeWithin s (maxDepth - 1) .initial))
        ↔ isTypeConstructor base.text = false ∨ base.text = "type" ∧ args.length = 1)) :=
  ⟨fun h => ⟨readWithin_class h (maxDepth - 1), readWithin_class_eq_reference_iff h (maxDepth - 1)⟩,
    fun _ _ hk hparts h => typeWithin_class_eq_generic_iff hk hparts h (maxDepth - 1)⟩

section LocalClasses

open ApiSurface.Syntax.ParseTree

/-- Two classes with each other as an argument. One of them has the name of a construct. -/
def pagesTree : Tree := Tree.lower
    "class Set: pass\nclass Page: pass\na: Set[Page]\nb: Page[Set]" <|
  rule "module" none 0 58 [
    rule "class_definition" none 0 15 [
      token "class" 0 5,
      rule "identifier" "name" 6 9 [],
      token ":" 9 10,
      rule "block" "body" 11 15 [rule "pass_statement" none 11 15 [token "pass" 11 15]]],
    rule "class_definition" none 16 32 [
      token "class" 16 21,
      rule "identifier" "name" 22 26 [],
      token ":" 26 27,
      rule "block" "body" 28 32 [rule "pass_statement" none 28 32 [token "pass" 28 32]]],
    rule "expression_statement" none 33 45 [
      rule "assignment" none 33 45 [
        rule "identifier" "left" 33 34 [],
        token ":" 34 35,
        rule "type" "type" 36 45 [
          rule "generic_type" none 36 45 [
            rule "identifier" none 36 39 [],
            rule "type_parameter" none 39 45 [
              token "[" 39 40,
              rule "type" none 40 44 [rule "identifier" none 40 44 []],
              token "]" 44 45]]]]],
    rule "expression_statement" none 46 58 [
      rule "assignment" none 46 58 [
        rule "identifier" "left" 46 47 [],
        token ":" 47 48,
        rule "type" "type" 49 58 [
          rule "generic_type" none 49 58 [
            rule "identifier" none 49 53 [],
            rule "type_parameter" none 53 58 [
              token "[" 53 54,
              rule "type" none 54 57 [rule "identifier" none 54 57 []],
              token "]" 57 58]]]]]]

def pages : Source := .read (fun _ => pagesTree) .builtin "pages.py" ""

def pagesNode (i : Nat) : Node := (pagesTree.node? i).getD default

/-- The argument `Page` is a reference, and `Page[Set]` is generic. -/
theorem normalize_class_page :
    NamesClass pages .initial (stripType (pagesNode 24)) ∧
    NamesClass pages .initial (pagesNode 33) ∧
    normalize pages (pagesNode 24) = .of (.reference "Page") ∧
    typeOf pages (pagesNode 31) = .generic "Page" [.set .any] := by
  have hname : NamesClass pages .initial (stripType (pagesNode 24)) := by decide +kernel
  have hbase : NamesClass pages .initial (pagesNode 33) := by decide +kernel
  have htext : (stripType (pagesNode 24)).text = "Page" := by decide +kernel
  have hbaseText : (pagesNode 33).text = "Page" := by decide +kernel
  have hparts : subscriptParts (stripType (pagesNode 31))
      = (some (pagesNode 33), [pagesNode 36]) := by with_unfolding_all rfl
  have hname' := ((normalize_class_iff pages (pagesNode 24)).1 hname).2.mpr
    (by rw [htext]; decide +kernel)
  have hsubscript := ((normalize_class_iff pages (pagesNode 31)).2 (pagesNode 33) [pagesNode 36]
    (by decide +kernel) hparts hbase).mpr (.inl (by rw [hbaseText]; decide +kernel))
  have hargument : typeWithin pages (maxDepth - 1) .initial (pagesNode 36) = .set .any := by
    decide +kernel
  rw [htext] at hname'
  rw [hbaseText, List.map_singleton, hargument] at hsubscript
  exact ⟨hname, hbase, hname', hsubscript⟩

/-- The class `Set` is taken for the construct, as a name and with an argument. -/
theorem normalize_class_set :
    NamesClass pages .initial (stripType (pagesNode 36)) ∧
    NamesClass pages .initial (pagesNode 21) ∧
    normalize pages (pagesNode 36) = .of (.set .any) ∧
    normalize pages (pagesNode 19) = .of (.set (.reference "Page")) ∧
    normalize pages (pagesNode 36) ≠ .of (.reference "Set") ∧
    typeOf pages (pagesNode 19) ≠ .generic "Set" [typeOf pages (pagesNode 24)] := by
  decide +kernel

end LocalClasses

end ApiSurface.TypeHint
