import ApiSurface.Proofs.Binding.ImportPath
import ApiSurface.Proofs.Text.Cutting
import ApiSurface.TypeHint.Normalize

/-!
# Dotted names

A dotted name is followed in two ways. Where it is called, derived from or used as a decorator, the
nodes of its chain of attributes are followed down to the name at its base. In an annotation its text
is cut at the first dot instead. A chain whose text is its names with dots between them
(`IsChain`) is the same name both ways (`pathOf?_eq_qualifyAt`): what stands in front of the first
dot is the name at the base, and the dots behind it are put back as they were, also behind the path
of a relative import, which may end in dots itself.
-/

namespace ApiSurface.Text

/-- A name with attributes behind it. -/
def dotted (head : String) (attrs : List String) : String :=
  attrs.foldl (fun path attr => path ++ "." ++ attr) head

theorem exists_dotted_eq_append (attrs : List String) :
    ∃ tail, ∀ head, dotted head attrs = head ++ tail := by
  induction attrs with
  | nil => exact ⟨"", fun head => by simp [dotted]⟩
  | cons attr attrs ih =>
    obtain ⟨tail, htail⟩ := ih
    refine ⟨"." ++ attr ++ tail, fun head => ?_⟩
    rw [dotted, List.foldl_cons, ← dotted, htail, String.append_assoc, String.append_assoc,
      String.append_assoc]

/-- The attributes are behind the first dot, whatever the name in front of it is. -/
theorem exists_dotted_eq {attrs : List String} (h : attrs ≠ []) :
    ∃ rest, ∀ head, dotted head attrs = head ++ "." ++ rest := by
  obtain ⟨attr, attrs, rfl⟩ := List.exists_cons_of_ne_nil h
  obtain ⟨tail, htail⟩ := exists_dotted_eq_append attrs
  refine ⟨attr ++ tail, fun head => ?_⟩
  rw [dotted, List.foldl_cons, ← dotted, htail, String.append_assoc]

theorem splitFirstString_append {s t : String} (h : '.' ∉ s.toList) :
    splitFirstString '.' (s ++ "." ++ t) = some (s, t) := by
  have hlist : (s ++ "." ++ t).toList = s.toList ++ '.' :: t.toList := by simp
  rw [splitFirstString, hlist, splitFirst_append_cons h]
  simp

end ApiSurface.Text

namespace ApiSurface.Binding

open ApiSurface.Syntax (Node)
open ApiSurface.Text (dotted)

variable {t : Table} {n base : Node} {head : String} {attrs : List String} {scope pos : Nat}

/-! ### Chains of nodes -/

/-- The node is a name with attributes behind it, from left to right. A name has no dot in it. -/
inductive IsChain : Node → String → List String → Prop
  | name {n : Node} (hk : n.kind = "identifier") (hdot : '.' ∉ n.text.toList) :
    IsChain n n.text []
  | member {n object attr : Node} {head : String} {attrs : List String}
    (hk : n.kind = "attribute") (hobject : n.childByField? "object" = some object)
    (hattr : n.childByField? "attribute" = some attr) (hname : attr.kind = "identifier")
    (h : IsChain object head attrs) : IsChain n head (attrs ++ [attr.text])

theorem IsChain.notMem_head (h : IsChain n head attrs) : '.' ∉ head.toList := by
  induction h with
  | name _ hdot => exact hdot
  | member _ _ _ _ _ ih => exact ih

/-- The names of a chain are found from its end. -/
theorem IsChain.exists_chain? (h : IsChain n head attrs) :
    ∃ base, base.text = head ∧ Table.chain? n = some (base, attrs) := by
  induction h with
  | @name n hk _ => exact ⟨n, rfl, Table.chain?_of_identifier hk⟩
  | member hk hobject hattr _ _ ih =>
    obtain ⟨base, htext, hchain⟩ := ih
    exact ⟨base, htext, by rw [chain?_of_attribute hk hattr hobject, hchain]; rfl⟩

/-! ### What a chain stands for -/

/-- What a name with attributes behind it stands for, by what the name is bound to. Values and
parameters have no path, and imports are followed. Any other name stands for itself. -/
def pathOfBound? (head : String) (attrs : List String) : Option Bound → Option String
  | some (.value _) => none
  | some (.parameter _) => none
  | some (.imported i) => some (dotted i.path attrs)
  | _ => some (dotted head attrs)

theorem map_headPath? (t : Table) (head : String) (attrs : List String) (scope pos : Nat) :
    (t.headPath? head scope pos).map (dotted · attrs)
      = pathOfBound? head attrs (t.lookupAt head scope pos) := by
  rw [Table.headPath?]
  cases t.lookupAt head scope pos with
  | none => rfl
  | some b => cases b <;> rfl

theorem qualifyAt_of_chain? (h : Table.chain? n = some (base, attrs)) :
    t.qualifyAt n scope pos = pathOfBound? base.text attrs (t.lookupAt base.text scope pos) := by
  rw [← map_headPath?, Table.qualifyAt, h]
  change (t.headPath? base.text scope pos).bind (fun path => some (dotted path attrs)) = _
  exact Option.map_eq_bind.symm

end ApiSurface.Binding

namespace ApiSurface.TypeHint

open ApiSurface.Syntax (Node Tree)
open ApiSurface.Text (compactString dotted)
open ApiSurface.Binding (IsChain map_headPath? pathOfBound? qualifyAt_of_chain?)

variable {s : Source} {n : Node} {written head : String} {attrs : List String}

/-! ### What a text stands for -/

theorem pathOf?_of_not_hasDot (h : Text.hasDot written = false) (a : Anchor) :
    pathOf? s written a = s.table.headPath? written a.scope a.pos := by
  have hcut : Text.splitFirstString '.' written = none := by
    rw [Text.splitFirstString, Text.splitFirst_eq_none (by simpa [Text.hasDot] using h)]
    rfl
  rw [pathOf?, hcut]

/-- The name in front of the first dot is followed. -/
theorem pathOf?_dotted (s : Source) (attrs : List String) (h : '.' ∉ head.toList) (a : Anchor) :
    pathOf? s (dotted head attrs) a
      = pathOfBound? head attrs (s.table.lookupAt head a.scope a.pos) := by
  rw [← map_headPath?]
  by_cases hne : attrs = []
  · subst hne
    have hplain : Text.hasDot head = false := by simpa [Text.hasDot] using h
    exact (pathOf?_of_not_hasDot hplain a).trans Option.map_id'.symm
  · obtain ⟨rest, hrest⟩ := Text.exists_dotted_eq hne
    rw [pathOf?, hrest, Text.splitFirstString_append h]
    simp only [hrest]

/-- **A dotted name is one name.** A chain of names whose text is the names with dots between them,
white space aside, has the same path by its nodes and by its text, at every place and whatever the
table is. There is none where the first name is bound to a value or to a parameter. -/
theorem pathOf?_eq_qualifyAt (s : Source) (a : Anchor) (hchain : IsChain n head attrs)
    (htext : compactString n.text = dotted head attrs) :
    pathOf? s (compactString n.text) a = s.table.qualifyAt n a.scope a.pos ∧
    s.table.qualifyAt n a.scope a.pos
      = pathOfBound? head attrs (s.table.lookupAt head a.scope a.pos) := by
  obtain ⟨base, rfl, hnodes⟩ := hchain.exists_chain?
  rw [qualifyAt_of_chain? hnodes, htext, pathOf?_dotted s attrs hchain.notMem_head a]
  exact ⟨rfl, rfl⟩

section Relatives

open ApiSurface.Syntax.ParseTree

/-- An import from a module of dots only, a value, and a chain of names behind each. -/
def relatives : Tree := Tree.lower "from .. import a\nx = 1\na . b.C\nx.d" <|
  rule "module" none 0 34 [
    rule "import_from_statement" none 0 16 [
      token "from" 0 4,
      rule "relative_import" "module_name" 5 7 [rule "import_prefix" none 5 7 []],
      token "import" 8 14,
      rule "dotted_name" "name" 15 16 [rule "identifier" none 15 16 []]],
    rule "expression_statement" none 17 22 [
      rule "assignment" none 17 22 [
        rule "identifier" "left" 17 18 [], token "=" 19 20, rule "integer" "right" 21 22 []]],
    rule "expression_statement" none 23 30 [
      rule "attribute" none 23 30 [
        rule "attribute" "object" 23 28 [
          rule "identifier" "object" 23 24 [], token "." 25 26,
          rule "identifier" "attribute" 27 28 []],
        token "." 28 29, rule "identifier" "attribute" 29 30 []]],
    rule "expression_statement" none 31 34 [
      rule "attribute" none 31 34 [
        rule "identifier" "object" 31 32 [], token "." 32 33,
        rule "identifier" "attribute" 33 34 []]]]

/-- The file of the chains. -/
def related : Source := .read (fun _ => relatives) .builtin "app/api/main.py" ""

def relative (i : Nat) : Node := (relatives.node? i).getD default

theorem isChain_relative :
    IsChain (relative 14) "a" ["b", "C"] ∧ IsChain (relative 22) "x" ["d"] := by
  have hkinds : (∀ i ∈ [14, 15, 22], (relative i).kind = "attribute") ∧
      ∀ i ∈ [16, 18, 20, 23, 25], (relative i).kind = "identifier" := by decide +kernel
  obtain ⟨ha, hb, hc, hx, hd⟩ : (relative 16).text = "a" ∧ (relative 18).text = "b" ∧
      (relative 20).text = "C" ∧ (relative 23).text = "x" ∧ (relative 25).text = "d" := by
    decide +kernel
  have hname : IsChain (relative 16) (relative 16).text [] :=
    .name (hkinds.2 16 (by decide)) (by decide +kernel)
  have hinner := hname.member (hkinds.1 15 (by decide)) (by rfl) (by rfl) (hkinds.2 18 (by decide))
  have houter := hinner.member (hkinds.1 14 (by decide)) (by rfl) (by rfl) (hkinds.2 20 (by decide))
  have hvalue : IsChain (relative 23) (relative 23).text [] :=
    .name (hkinds.2 23 (by decide)) (by decide +kernel)
  have hmember := hvalue.member (hkinds.1 22 (by decide)) (by rfl) (by rfl) (hkinds.2 25 (by decide))
  rw [ha, hb, hc] at houter
  rw [hx, hd] at hmember
  exact ⟨houter, hmember⟩

/-- The path of an import from dots goes on with the attributes, and a value has no path. -/
theorem pathOf?_eq_qualifyAt_relative :
    IsChain (relative 14) "a" ["b", "C"] ∧ (relative 14).text = "a . b.C" ∧
    pathOf? related "a.b.C" (anchorOf related .initial (relative 14)) = some "..a.b.C" ∧
    related.table.qualify (relative 14) = some "..a.b.C" ∧
    IsChain (relative 22) "x" ["d"] ∧
    pathOf? related "x.d" (anchorOf related .initial (relative 22)) = none ∧
    related.table.qualify (relative 22) = none := by
  obtain ⟨hwritten, htext, htext'⟩ : (relative 14).text = "a . b.C" ∧
      compactString (relative 14).text = "a.b.C" ∧ compactString (relative 22).text = "x.d" := by
    decide +kernel
  obtain ⟨himport, hvalue⟩ := isChain_relative
  obtain ⟨hsame, hpath⟩ := pathOf?_eq_qualifyAt related
    (anchorOf related .initial (relative 14)) himport (by decide +kernel)
  obtain ⟨hsame', hpath'⟩ := pathOf?_eq_qualifyAt related
    (anchorOf related .initial (relative 22)) hvalue (by decide +kernel)
  have hqualify := hpath.trans (show _ = some "..a.b.C" by decide +kernel)
  have hqualify' := hpath'.trans (show _ = none by decide +kernel)
  rw [htext] at hsame
  rw [htext'] at hsame'
  exact ⟨himport, hwritten, hsame.trans hqualify, hqualify, hvalue, hsame'.trans hqualify',
    hqualify'⟩

end Relatives

end ApiSurface.TypeHint
