import Mathlib.Data.List.Forall2
import ApiSurface.Proofs.Routing.Parameters
import ApiSurface.Proofs.Syntax.Layout

/-!
# Flags of routes

A flag says that a part of a route could not be determined. The flags of a path that is not known and
of types that disagree say exactly that (`Mirrors`). The other two have a gap each. A list of methods
that can be read leaves no method when it names none that is known (`Site.NamesNoMethod`), and the
flag is for lists that cannot be read. And the types of a signature are looked at, before the
placeholders are added that it does not name, so a placeholder without a type goes unnoticed
(`LeavesUntyped`). `flags_mirror_fields` says that these are all gaps, and `not_mirrors_route` shows
both at one route.
-/

namespace ApiSurface

namespace Routing

open ApiSurface.Expr (Arguments)

variable {s : Source} {site : Site} {method : Option HttpMethod} {args : Arguments}

/-- The registration stands for no method by itself, and the methods that it gives can be read, but
none of them is known. -/
def Site.NamesNoMethod (site : Site) : Prop :=
  site.method = none ∧ ∃ n names, (Arguments.ofCall site.call).keyword? "methods" = some n ∧
    Expr.stringList? n = some names ∧ ∀ name ∈ names, HttpMethod.ofName? name = none

/-- The path names a parameter without a type that the signature does not have, and the types of the
signature are known. -/
def LeavesUntyped (s : Source) (site : Site) : Prop :=
  (∀ q ∈ fromSignature s site, q.type.descriptor.isUnknown = false) ∧
    ∃ p, site.placeholders.find? (fun p' => p'.name == p.name) = some p ∧ p.converter = none ∧
      ∀ q ∈ fromSignature s site, q.name ≠ p.name

/-! ### What sets a flag -/

/-- **All flags** that a route of a file can have. -/
theorem mem_degradations_routeAt_iff {d : Degradation} :
    d ∈ (routeAt s site).degradations ↔
      d = .unknownMethod ∧ methodsOf? site.method (Arguments.ofCall site.call) = none ∨
      d = .unknownPath ∧ site.rawPath? = none ∨
      d = .unknownHandler ∧ site.handler = none ∨
      d = .unknownType ∧ (∃ q ∈ fromSignature s site, q.type.descriptor.isUnknown) ∨
      d = .typeConflict ∧ ∃ q ∈ fromSignature s site, q.typeConflict.isSome := by
  have hflags : (routeAt s site).degradations =
      ((((Degradations.addIf (methodsOf? site.method (Arguments.ofCall site.call)).isNone
        .unknownMethod []).addIf site.rawPath?.isNone .unknownPath).addIf site.handler.isNone
        .unknownHandler).addIf ((fromSignature s site).any fun q => q.type.descriptor.isUnknown)
        .unknownType).addIf ((fromSignature s site).any fun q => q.typeConflict.isSome)
        .typeConflict := by
    rw [← handlerParameters_eq_fromSignature]
    rfl
  rw [hflags]
  simp only [Degradations.mem_addIf, List.not_mem_nil, false_or, Option.isNone_iff_eq_none,
    List.any_eq_true, or_assoc]

/-- The methods without repetitions are none only if there are none. -/
theorem foldl_methods_eq_nil_iff (ms acc : List HttpMethod) :
    ms.foldl (fun methods m => if methods.contains m then methods else methods ++ [m]) acc = [] ↔
      acc = [] ∧ ms = [] := by
  induction ms generalizing acc with
  | nil => simp
  | cons m ms ih =>
    rw [List.foldl_cons, ih]
    by_cases hm : acc.contains m
    · have hne : acc ≠ [] := by
        rintro rfl
        cases hm
      rw [if_pos hm]
      simp [hne]
    · rw [if_neg hm]
      simp

theorem methodsOf?_eq_some_nil_iff :
    methodsOf? site.method (Arguments.ofCall site.call) = some [] ↔ site.NamesNoMethod := by
  unfold methodsOf? Site.NamesNoMethod
  cases site.method with
  | some m => simp
  | none =>
    cases (Arguments.ofCall site.call).keyword? "methods" with
    | none => simp
    | some n =>
      simp only [Option.map_eq_some_iff, foldl_methods_eq_nil_iff, true_and,
        List.filterMap_eq_nil_iff, Option.some.injEq, exists_and_left, exists_eq_left']

/-! ### Flags and fields -/

/-- The flags of the route of a site say what its fields say, up to the two gaps. -/
structure Mirrors (s : Source) (r : Route) (site : Site) : Prop where
  eq : r = routeAt s site
  unknownPath : .unknownPath ∈ r.degradations ↔ r.rawPath = none
  typeConflict : .typeConflict ∈ r.degradations ↔ ∃ q ∈ r.parameters, q.typeConflict.isSome
  methods_of_unknownMethod : .unknownMethod ∈ r.degradations → r.methods = []
  /-- The route shows by the flag whether it has methods, but for the first gap. -/
  unknownMethod : (.unknownMethod ∈ r.degradations ↔ r.methods = []) ↔ ¬ site.NamesNoMethod
  exists_of_unknownType :
    .unknownType ∈ r.degradations → ∃ q ∈ r.parameters, q.type.descriptor.isUnknown
  /-- The route shows by the flag whether all types are known, but for the second gap. -/
  unknownType : (.unknownType ∈ r.degradations ↔
    ∃ q ∈ r.parameters, q.type.descriptor.isUnknown) ↔ ¬ LeavesUntyped s site

theorem unknownMethod_mem_iff : .unknownMethod ∈ (routeAt s site).degradations ↔
    methodsOf? site.method (Arguments.ofCall site.call) = none := by
  simp [mem_degradations_routeAt_iff]

theorem unknownType_mem_iff : .unknownType ∈ (routeAt s site).degradations ↔
    ∃ q ∈ fromSignature s site, q.type.descriptor.isUnknown := by
  simp [mem_degradations_routeAt_iff]

theorem methods_eq_nil_iff : (routeAt s site).methods = [] ↔
    .unknownMethod ∈ (routeAt s site).degradations ∨ site.NamesNoMethod := by
  have hmethods : (routeAt s site).methods
      = (methodsOf? site.method (Arguments.ofCall site.call)).getD [] := rfl
  rw [hmethods, unknownMethod_mem_iff, ← methodsOf?_eq_some_nil_iff]
  cases methodsOf? site.method (Arguments.ofCall site.call) <;> simp

/-- A placeholder that the signature does not name carries no type that could disagree. -/
theorem exists_typeConflict_iff : (∃ q ∈ (routeAt s site).parameters, q.typeConflict.isSome) ↔
    ∃ q ∈ fromSignature s site, q.typeConflict.isSome := by
  constructor
  · rintro ⟨q, hq, hconflict⟩
    rcases mem_parameters_routeAt_iff.mp hq with hq | ⟨p, -, -, rfl⟩
    · exact ⟨q, hq, hconflict⟩
    · cases hconflict
  · rintro ⟨q, hq, hconflict⟩
    exact ⟨q, mem_parameters_routeAt_iff.mpr (.inl hq), hconflict⟩

theorem exists_isUnknown_iff :
    (∃ q ∈ (routeAt s site).parameters, q.type.descriptor.isUnknown) ↔
      .unknownType ∈ (routeAt s site).degradations ∨ LeavesUntyped s site := by
  rw [unknownType_mem_iff]
  constructor
  · rintro ⟨q, hq, hunknown⟩
    by_cases hsignature : ∃ q ∈ fromSignature s site, q.type.descriptor.isUnknown
    · exact .inl hsignature
    · push Not at hsignature
      rcases mem_parameters_routeAt_iff.mp hq with hq | ⟨p, hfind, hnew, rfl⟩
      · exact absurd hunknown (hsignature q hq)
      · exact .inr ⟨fun q hq => Bool.eq_false_iff.mpr (hsignature q hq), p, hfind,
          (isUnknown_pathParameter p).mp hunknown, hnew⟩
  · rintro (⟨q, hq, hunknown⟩ | ⟨-, p, hfind, hconverter, hnew⟩)
    · exact ⟨q, mem_parameters_routeAt_iff.mpr (.inl hq), hunknown⟩
    · exact ⟨pathParameter p, mem_parameters_routeAt_iff.mpr (.inr ⟨p, hfind, hnew, rfl⟩),
        (isUnknown_pathParameter p).mpr hconverter⟩

/-- A flag that implies `b`, and does without `b` only in the gap, shows `b` outside the gap. -/
private theorem iff_of_gap {flag b gap : Prop} (h : b ↔ flag ∨ gap) (hgap : gap → ¬ flag) :
    (flag ↔ b) ↔ ¬ gap := by
  rw [h]
  constructor
  · exact fun hiff hg => hgap hg (hiff.mpr (.inr hg))
  · exact fun hg => ⟨.inl, fun hb => hb.resolve_right hg⟩

theorem mirrors_routeAt (s : Source) (site : Site) : Mirrors s (routeAt s site) site where
  eq := rfl
  unknownPath := by
    simp only [mem_degradations_routeAt_iff, reduceCtorEq, false_and, true_and, false_or, or_false]
    rfl
  typeConflict := by
    rw [exists_typeConflict_iff]
    simp [mem_degradations_routeAt_iff]
  methods_of_unknownMethod h := methods_eq_nil_iff.mpr (.inl h)
  unknownMethod := by
    refine iff_of_gap methods_eq_nil_iff fun hgap hflag => ?_
    rw [← methodsOf?_eq_some_nil_iff, unknownMethod_mem_iff.mp hflag] at hgap
    cases hgap
  exists_of_unknownType h := exists_isUnknown_iff.mpr (.inl h)
  unknownType := by
    refine iff_of_gap exists_isUnknown_iff fun hgap hflag => ?_
    obtain ⟨q, hq, hunknown⟩ := unknownType_mem_iff.mp hflag
    rw [hgap.1 q hq] at hunknown
    cases hunknown

/-- **Flags mirror fields, up to two gaps.** The routes of a file are those of its sites, one by one.
A route is flagged for its path exactly when the path is not known, and for types that disagree
exactly when a parameter shows such a type. It is flagged for its methods only when it has none, and
the converse fails exactly when a readable list names no known method. It is flagged for its types
only when one is unknown, and the converse fails exactly when the only unknown ones are those of
placeholders that the signature does not name. -/
theorem flags_mirror_fields (s : Source) (module : Option String) :
    List.Forall₂ (Mirrors s) (s.facts module).routes (sites s) := by
  rw [routes_facts, List.forall₂_map_left_iff, List.forall₂_same]
  exact fun site _ => mirrors_routeAt s site

section Gaps

open ApiSurface.Syntax (Tree)
open ApiSurface.Syntax.ParseTree

/-- A program whose only route has a method that is not known and a placeholder that the handler does
not take. -/
def gapsTree : Tree := Tree.lower
    ("from fastapi import FastAPI\napp = FastAPI()\n" ++
      "@app.api_route(\"/\x7bid\x7d\", methods=[\"CONNECT\"])\ndef find(): pass") <|
  rule "module" none 0 105 [
    rule "import_from_statement" none 0 27 [
      token "from" 0 4,
      rule "dotted_name" "module_name" 5 12 [rule "identifier" none 5 12 []],
      token "import" 13 19,
      rule "dotted_name" "name" 20 27 [rule "identifier" none 20 27 []]],
    rule "expression_statement" none 28 43 [
      rule "assignment" none 28 43 [
        rule "identifier" "left" 28 31 [],
        token "=" 32 33,
        rule "call" "right" 34 43 [
          rule "identifier" "function" 34 41 [],
          rule "argument_list" "arguments" 41 43 [token "(" 41 42, token ")" 42 43]]]],
    rule "decorated_definition" none 44 105 [
      rule "decorator" none 44 88 [
        token "@" 44 45,
        rule "call" none 45 88 [
          rule "attribute" "function" 45 58 [
            rule "identifier" "object" 45 48 [],
            token "." 48 49,
            rule "identifier" "attribute" 49 58 []],
          rule "argument_list" "arguments" 58 88 [
            token "(" 58 59,
            rule "string" none 59 66 [
              rule "string_start" none 59 60 [],
              rule "string_content" none 60 65 [],
              rule "string_end" none 65 66 []],
            token "," 66 67,
            rule "keyword_argument" none 68 87 [
              rule "identifier" "name" 68 75 [],
              token "=" 75 76,
              rule "list" "value" 76 87 [
                token "[" 76 77,
                rule "string" none 77 86 [
                  rule "string_start" none 77 78 [],
                  rule "string_content" none 78 85 [],
                  rule "string_end" none 85 86 []],
                token "]" 86 87]],
            token ")" 87 88]]],
      rule "function_definition" "definition" 89 105 [
        token "def" 89 92,
        rule "identifier" "name" 93 97 [],
        rule "parameters" "parameters" 97 99 [token "(" 97 98, token ")" 98 99],
        token ":" 99 100,
        rule "block" "body" 101 105 [rule "pass_statement" none 101 105 [token "pass" 101 105]]]]]

/-- The program as a file. -/
def gaps : Source := Source.read (fun _ => gapsTree) .builtin "app.py" ""

/-- The route has no methods and an unknown type, and no flag. -/
theorem not_mirrors_route :
    ∃ r ∈ (gaps.facts (some "app")).routes, r.methods = [] ∧
      (∃ q ∈ r.parameters, q.type.descriptor.isUnknown) ∧ r.degradations = [] := by
  decide +kernel

end Gaps

end Routing

end ApiSurface
