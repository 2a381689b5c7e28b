import ApiSurface.Proofs.Expr.Parts
import ApiSurface.Proofs.Text.Cutting
import ApiSurface.Routing.Include
import ApiSurface.Schema.Class

/-!
# Paths of imported names

An imported name is passed on as one dotted path, which is cut at the last dot again where the
module and the name are needed: for the target of an include and for a base class. Behind the dots
of a relative module no dot is added, so the cut takes one of them away when the module has no
further segment: `from .. import a` has the path `..a`, and that is `a` in the module `.`.
All other modules come back (`includeTarget_baseRef_of_imported`).
-/

namespace ApiSurface.Text

variable {sep : Char} {b : List Char}

theorem splitLastString_append {s t : String} (h : '.' ∉ t.toList) :
    splitLastString '.' (s ++ "." ++ t) = some (s, t) := by
  have hlist : (s ++ "." ++ t).toList = s.toList ++ '.' :: t.toList := by simp
  rw [splitLastString, hlist, splitLast_append h]
  simp

/-- Joined pieces end like the last one. -/
theorem exists_join_eq_append (sep : List Char) {pieces : List (List Char)} (h : pieces ≠ []) :
    ∃ before, ∃ last ∈ pieces, join sep pieces = before ++ last := by
  induction pieces with
  | nil => exact absurd rfl h
  | cons p pieces ih =>
    cases pieces with
    | nil => exact ⟨[], p, List.mem_singleton_self p, rfl⟩
    | cons q pieces =>
      obtain ⟨before, last, hlast, heq⟩ := ih (List.cons_ne_nil _ _)
      exact ⟨p ++ sep ++ before, last, List.mem_cons_of_mem p hlast, by
        rw [join, heq, ← List.append_assoc]⟩

/-- Text like that of a name: not empty, and without dots and white space. -/
structure IsWord (s : String) : Prop where
  ne_empty : s.toList ≠ []
  noDot : '.' ∉ s.toList
  noBlank : ∀ c ∈ s.toList, isBlank c = false

instance (s : String) : Decidable (IsWord s) :=
  decidable_of_iff (s.toList ≠ [] ∧ '.' ∉ s.toList ∧ (s.toList.all fun c => !isBlank c) = true)
    ⟨fun ⟨h₁, h₂, h₃⟩ => ⟨h₁, h₂, by simpa using h₃⟩,
      fun h => ⟨h.ne_empty, h.noDot, by simpa using h.noBlank⟩⟩

theorem trim_eq_self {l : List Char} (h : ∀ c ∈ l, isBlank c = false) : trim l = l := by
  have hdrop : ∀ m : List Char, (∀ c ∈ m, isBlank c = false) → m.dropWhile isBlank = m := by
    intro m hm
    cases m with
    | nil => rfl
    | cons c m => rw [List.dropWhile_cons, hm c List.mem_cons_self]; rfl
  rw [trim, trimStart, hdrop l h, trimEnd, dropTailWhile,
    hdrop l.reverse fun c hc => h c (List.mem_reverse.mp hc), List.reverse_reverse]

theorem beforeFirst_eq_self (h : sep ∉ b) : beforeFirst sep b = b := by
  induction b with
  | nil => rfl
  | cons c b ih =>
    rw [List.mem_cons, not_or] at h
    have hc : c ≠ sep := Ne.symm h.1
    rw [beforeFirst, List.takeWhile_cons, if_pos (by simpa using hc)]
    exact congrArg _ (ih h.2)

end ApiSurface.Text

namespace ApiSurface

open ApiSurface.Text (IsWord)
open ApiSurface.Syntax (Node Tree)

/-- The name of a module as an import writes it, with dots in front of its segments. -/
def Module.written (dots : Nat) (segments : List String) : String :=
  String.ofList (List.replicate dots '.' ++ Text.join ['.'] (segments.map String.toList))

namespace Binding

variable {dots : Nat} {segments : List String} {name : String}

/-! ### The path and its parts -/

/-- The module of an imported name is put in front of the name with one dot between them. -/
theorem path_written_of_ne_nil (hne : segments ≠ []) (hwords : ∀ s ∈ segments, IsWord s) :
    Import.path ⟨Module.written dots segments, some name⟩
      = Module.written dots segments ++ "." ++ name := by
  obtain ⟨before, last, hlast, heq⟩ := Text.exists_join_eq_append ['.']
    (mt List.map_eq_nil_iff.mp hne)
  obtain ⟨word, hword, rfl⟩ := List.mem_map.mp hlast
  have hnot : Text.endsWith (Module.written dots segments) "." = false := by
    refine Bool.eq_false_iff.mpr fun hends => (hwords word hword).noDot ?_
    obtain ⟨front, hfront⟩ := List.isSuffixOf_iff_suffix.mp hends
    rw [Module.written, heq] at hfront
    simp only [String.toList_ofList, ← List.append_assoc] at hfront
    have hdot := congrArg List.getLast? hfront
    rw [List.getLast?_append, List.getLast?_append] at hdot
    cases hend : word.toList.getLast? with
    | none => exact absurd (List.getLast?_eq_none_iff.mp hend) (hwords word hword).ne_empty
    | some c =>
      rw [hend] at hdot
      obtain rfl : '.' = c := by simpa using hdot
      exact List.mem_of_getLast? hend
  simp [Import.path, hnot]

/-- Where the module consists of dots, the last of them is the one between module and name. -/
theorem path_written_nil :
    Import.path ⟨Module.written (dots + 1) [], some name⟩
      = Module.written dots [] ++ "." ++ name := by
  have hdots : Module.written (dots + 1) [] = Module.written dots [] ++ "." := by
    simp [Module.written, Text.join, List.replicate_succ']
  have hends : Text.endsWith (Module.written dots [] ++ ".") "." = true :=
    List.isSuffixOf_iff_suffix.mpr ⟨(Module.written dots []).toList, by simp⟩
  simp only [Import.path, hdots, hends, if_true]

/-- The module that is left of the one in an import when its path is cut at the last dot. -/
def restored (dots : Nat) (segments : List String) : String :=
  if segments = [] then Module.written (dots - 1) [] else Module.written dots segments

theorem restored_eq_iff (hwritten : 0 < dots ∨ segments ≠ []) :
    restored dots segments = Module.written dots segments ↔ segments ≠ [] := by
  rw [restored]
  split
  · next hnil =>
    subst hnil
    have hpos : 0 < dots := hwritten.resolve_right (· rfl)
    refine iff_of_false (fun heq => ?_) (· rfl)
    have hlength := congrArg (fun s : String => s.toList.length) heq
    simp only [Module.written, List.map_nil, Text.join, List.append_nil, String.toList_ofList,
      List.length_replicate] at hlength
    omega
  · next hne => exact iff_of_true rfl hne

theorem splitLastString_path (hwritten : 0 < dots ∨ segments ≠ [])
    (hwords : ∀ s ∈ segments, IsWord s) (hname : '.' ∉ name.toList) :
    Text.splitLastString '.' (Import.path ⟨Module.written dots segments, some name⟩)
      = some (restored dots segments, name) := by
  rw [restored]
  split
  · next hnil =>
    subst hnil
    obtain ⟨dots, rfl⟩ := Nat.exists_eq_add_one.mpr (hwritten.resolve_right (· rfl))
    rw [path_written_nil, Text.splitLastString_append hname, Nat.add_sub_cancel]
  · next hne => rw [path_written_of_ne_nil hne hwords, Text.splitLastString_append hname]

theorem Table.chain?_of_identifier {n : Node} (hk : n.kind = "identifier") :
    chain? n = some (n, []) := by
  have hstrip : Expr.stripParens n = n := Expr.stripKind_of_ne (by simp [hk])
  rw [chain?, hstrip]
  simp [hk]

theorem chain?_of_attribute {n attr object : Node} (hk : n.kind = "attribute")
    (hattr : n.childByField? "attribute" = some attr)
    (hobject : n.childByField? "object" = some object) : Table.chain? n
      = (Table.chain? object).map fun (base, attrs) => (base, attrs ++ [attr.text]) := by
  have hstrip : Expr.stripParens n = n := Expr.stripKind_of_ne (by simp [hk])
  rw [Table.chain?]
  dsimp only
  rw [if_pos (by rw [hstrip, hk])]
  split
  · next hattr' hobject' =>
    rw [hstrip] at hattr' hobject'
    obtain rfl := Option.some.inj (hattr.symm.trans hattr')
    obtain rfl := Option.some.inj (hobject.symm.trans hobject')
    rfl
  · next hno =>
    rw [hstrip] at hno
    exact absurd hobject (hno _ _ hattr)

end Binding

/-! ### Names that are imported -/

namespace Source

open ApiSurface.Expr (stripParens stripAwait stripAwaitAux stripKind_of_ne)

variable {s : Source} {n : Node} {i : Binding.Import}

/-- The node is a name that is imported where it stands. -/
structure Imports (s : Source) (n : Node) (i : Binding.Import) : Prop where
  identifier : n.kind = "identifier"
  lookup : s.table.lookup n.text n = some (.imported i)

/-- The import that a name is bound to, if it is bound to one. -/
def importOf? : Option Binding.Bound → Option Binding.Import
  | some (.imported i) => some i
  | _ => none

theorem importOf?_eq_some_iff {b : Option Binding.Bound} :
    importOf? b = some i ↔ b = some (.imported i) := by
  cases b with
  | none => simp [importOf?]
  | some b => cases b <;> simp [importOf?]

instance (s : Source) (n : Node) (i : Binding.Import) : Decidable (s.Imports n i) :=
  decidable_of_iff (n.kind = "identifier" ∧ importOf? (s.table.lookup n.text n) = some i)
    ⟨fun h => ⟨h.1, importOf?_eq_some_iff.mp h.2⟩,
      fun h => ⟨h.identifier, importOf?_eq_some_iff.mpr h.lookup⟩⟩

theorem Imports.qualify (h : s.Imports n i) : s.table.qualify n = some i.path := by
  have hchain := Binding.Table.chain?_of_identifier h.identifier
  have hlookup := h.lookup
  rw [Binding.Table.lookup] at hlookup
  simp [Binding.Table.qualify, Binding.Table.qualifyAt, hchain, Binding.Table.headPath?, hlookup]

/-- An imported name is no group of the file. -/
theorem Imports.groupOf?_eq_none (groups : List Routing.Constructed)
    (h : s.Imports (stripParens n) i) : Routing.groupOf? s groups n = none := by
  have hstrip : stripAwait n = stripParens n := by
    rw [stripAwait, stripAwaitAux, if_neg (by simp [h.identifier])]
  simp [Routing.groupOf?, Source.resolve?, Binding.Table.resolve?, hstrip, h.identifier, h.lookup]

theorem Imports.includeTarget_eq (groups : List Routing.Constructed)
    (h : s.Imports (stripParens n) i) {module name : String}
    (hpath : Text.splitLastString '.' i.path = some (module, name)) :
    Routing.includeTarget s groups n = .imported module name := by
  rw [Routing.includeTarget, h.groupOf?_eq_none]
  simp [h.identifier, h.qualify, hpath]

theorem Imports.baseRef_eq {base : Node} (h : s.Imports n i) (hword : IsWord n.text)
    {module name : String} (hpath : Text.splitLastString '.' i.path = some (module, name)) :
    ClassDecl.baseRef s base n (s.table.qualify n)
      = ⟨base.text, name, some module, some i.path⟩ := by
  have himported : ClassDecl.isImported s n = true := by
    rw [ClassDecl.isImported, Text.beforeFirst_eq_self hword.noDot,
      Text.trim_eq_self hword.noBlank, String.ofList_toList]
    simp only [h.lookup]
  simp only [ClassDecl.baseRef, himported, if_true, h.qualify, hpath]

/-- **What is left of an import.** A name that is imported from a module gives, as the target of an
include and as a base class, the imported name in the module that is restored from the path. That
is the module of the import exactly when the module has a segment. -/
theorem includeTarget_baseRef_of_imported (s : Source) (groups : List Routing.Constructed)
    (dots : Nat) (segments : List String) (name : String) (hwritten : 0 < dots ∨ segments ≠ [])
    (hwords : ∀ w ∈ segments, IsWord w) (hname : IsWord name) :
    (∀ n, s.Imports (stripParens n) ⟨Module.written dots segments, some name⟩ →
      Routing.includeTarget s groups n = .imported (Binding.restored dots segments) name) ∧
    (∀ base head, s.Imports head ⟨Module.written dots segments, some name⟩ → IsWord head.text →
      ClassDecl.baseRef s base head (s.table.qualify head)
        = ⟨base.text, name, some (Binding.restored dots segments),
          some (Binding.Import.path ⟨Module.written dots segments, some name⟩)⟩) ∧
    (Binding.restored dots segments = Module.written dots segments ↔ segments ≠ []) := by
  have hpath := Binding.splitLastString_path hwritten hwords hname.noDot
  exact ⟨fun n h => h.includeTarget_eq groups hpath, fun base head h hword =>
    h.baseRef_eq hword hpath, Binding.restored_eq_iff hwritten⟩

section RelativeImports

open ApiSurface.Syntax.ParseTree

/-- A name from a module of dots only, and one from a module with a segment. -/
def relativeImports : Tree := Tree.lower "from .. import a\nfrom ..b import c\na\nc" <|
  rule "module" none 0 38 [
    rule "import_from_statement" none 0 16 [
      token "from" 0 4,
      rule "relative_import" "module_name" 5 7 [rule "import_prefix" none 5 7 []],
      token "import" 8 14,
      rule "dotted_name" "name" 15 16 [rule "identifier" none 15 16 []]],
    rule "import_from_statement" none 17 34 [
      token "from" 17 21,
      rule "relative_import" "module_name" 22 25 [
        rule "import_prefix" none 22 24 [],
        rule "dotted_name" none 24 25 [rule "identifier" none 24 25 []]],
      token "import" 26 32,
      rule "dotted_name" "name" 33 34 [rule "identifier" none 33 34 []]],
    rule "expression_statement" none 35 36 [rule "identifier" none 35 36 []],
    rule "expression_statement" none 37 38 [rule "identifier" none 37 38 []]]

/-- The file of the imports, and the names that its last two lines consist of. -/
def importing : Source := .read (fun _ => relativeImports) .builtin "app/api/main.py" ""

def fromDots : Node := (relativeImports.node? 18).getD default

def fromSegment : Node := (relativeImports.node? 20).getD default

/-- The module with a segment comes back. -/
theorem includeTarget_baseRef_fromSegment :
    importing.Imports fromSegment ⟨"..b", some "c"⟩ ∧
    Routing.includeTarget importing [] fromSegment = .imported "..b" "c" ∧
    ClassDecl.baseRef importing fromSegment fromSegment (importing.table.qualify fromSegment)
      = ⟨"c", "c", some "..b", some "..b.c"⟩ := by
  have hmodule : Module.written 2 ["b"] = "..b" := by decide
  have himports : importing.Imports fromSegment ⟨Module.written 2 ["b"], some "c"⟩ := by
    decide +kernel
  have hword : IsWord fromSegment.text := by decide +kernel
  have hstrip : stripParens fromSegment = fromSegment :=
    stripKind_of_ne (by simp [himports.identifier])
  have hnode : fromSegment.text = "c" := by decide +kernel
  obtain ⟨htarget, hbase, hmodule'⟩ := includeTarget_baseRef_of_imported importing [] 2 ["b"] "c"
    (by decide) (by decide) (by decide)
  rw [hmodule'.mpr (by decide), hmodule] at htarget hbase
  rw [hmodule] at himports
  exact ⟨himports, htarget fromSegment (hstrip.symm ▸ himports),
    hnode ▸ hbase fromSegment fromSegment himports hword⟩

/-- The module of dots loses one of them. -/
theorem includeTarget_baseRef_fromDots :
    importing.Imports fromDots ⟨Module.written 2 [], some "a"⟩ ∧
    Routing.includeTarget importing [] fromDots = .imported "." "a" ∧
    ClassDecl.baseRef importing fromDots fromDots (importing.table.qualify fromDots)
      = ⟨"a", "a", some ".", some "..a"⟩ ∧
    "." ≠ Module.written 2 [] := by
  decide +kernel

end RelativeImports

end Source

end ApiSurface
