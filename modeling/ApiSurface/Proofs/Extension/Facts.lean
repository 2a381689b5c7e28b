import ApiSurface.Proofs.Extension.Routes

/-!
# Facts with a larger catalog

Entries that a project adds to the built-in tables, for names that the tables do not have, only add
to what is found in a file: request calls, routes, tools and groups that are found without them are
found with them, unchanged and in the same order.
-/

namespace ApiSurface

open ApiSurface.Syntax (Tree ParseTree)

namespace Source

theorem isWellPlaced_read {parse : String → Tree} {text : String}
    (h : Binding.IsWellPlaced (parse text)) (c : Catalog) (path : String) :
    (Source.read parse c path text).IsWellPlaced := ⟨rfl, h⟩

variable {s s' : Source}

/-- **Facts are kept** when the catalog is extended. -/
theorem Extends.facts_sublist (h : s.Extends s') (hs : s.IsWellPlaced) (hs' : s'.IsWellPlaced)
    (module : Option String) :
    (s.facts module).httpCalls.Sublist (s'.facts module).httpCalls ∧
    (s.facts module).routes.Sublist (s'.facts module).routes ∧
    (s.facts module).tools.Sublist (s'.facts module).tools ∧
    (s.facts module).groups.Sublist (s'.facts module).groups :=
  ⟨h.calls_sublist hs, (h.routes_retained hs hs').sublist, h.tools_sublist hs hs',
    h.listing_groups_sublist hs hs'⟩

end Source

/-- **Entries for further names lose nothing.** What is found in a well-placed file with the
built-in tables alone is found, unchanged and in its order, with entries for names that the tables
do not have. -/
theorem analyze_sublist_of_keepsBuiltin (parse : String → Tree) (path : String)
    (module : Option String) (text : String) (c : Catalog) (hc : c.KeepsBuiltin)
    (htree : Binding.IsWellPlaced (parse text)) :
    (analyze parse .builtin path module text).httpCalls.Sublist
      (analyze parse c path module text).httpCalls ∧
    (analyze parse .builtin path module text).routes.Sublist
      (analyze parse c path module text).routes ∧
    (analyze parse .builtin path module text).tools.Sublist
      (analyze parse c path module text).tools ∧
    (analyze parse .builtin path module text).groups.Sublist
      (analyze parse c path module text).groups :=
  (Source.extends_read hc.extends parse path text).facts_sublist
    (Source.isWellPlaced_read htree _ path) (Source.isWellPlaced_read htree _ path) module

section Routers

open ApiSurface.Syntax.ParseTree

/-- A constructor without arguments that is assigned to a name of one letter. -/
def assignmentAt (p q : Nat) : ParseTree :=
  rule "expression_statement" none p q [
    rule "assignment" none p q [
      rule "identifier" "left" p (p + 1) [],
      token "=" (p + 2) (p + 3),
      rule "call" "right" (p + 4) q [
        rule "identifier" "function" (p + 4) (q - 2) [],
        rule "argument_list" "arguments" (q - 2) q [
          token "(" (q - 2) (q - 1), token ")" (q - 1) q]]]]

/-- A method of three letters, called on a name of one letter with a path of two. -/
def memberCallAt (p : Nat) : ParseTree :=
  rule "call" none p (p + 11) [
    rule "attribute" "function" p (p + 5) [
      rule "identifier" "object" p (p + 1) [],
      token "." (p + 1) (p + 2),
      rule "identifier" "attribute" (p + 2) (p + 5) []],
    rule "argument_list" "arguments" (p + 5) (p + 11) [
      token "(" (p + 5) (p + 6),
      rule "string" none (p + 6) (p + 10) [
        rule "string_start" none (p + 6) (p + 7) [],
        rule "string_content" none (p + 7) (p + 9) [],
        rule "string_end" none (p + 9) (p + 10) []],
      token ")" (p + 10) (p + 11)]]

/-- A function that is registered on a built-in router and on one of a further kind, and a call of a
module's function. -/
def routersTree : Tree := Tree.lower
    ("from fastapi import APIRouter\nr = APIRouter()\nq = Api()\n" ++
      "@q.get(\"/b\")\n@r.get(\"/a\")\ndef f(): pass\nw.get(\"/c\")") <|
  rule "module" none 0 107 [
    rule "import_from_statement" none 0 29 [
      token "from" 0 4,
      rule "dotted_name" "module_name" 5 12 [rule "identifier" none 5 12 []],
      token "import" 13 19,
      rule "dotted_name" "name" 20 29 [rule "identifier" none 20 29 []]],
    assignmentAt 30 45,
    assignmentAt 46 55,
    rule "decorated_definition" none 56 95 [
      rule "decorator" none 56 68 [token "@" 56 57, memberCallAt 57],
      rule "decorator" none 69 81 [token "@" 69 70, memberCallAt 70],
      rule "function_definition" "definition" 82 95 [
        token "def" 82 85,
        rule "identifier" "name" 86 87 [],
        rule "parameters" "parameters" 87 89 [token "(" 87 88, token ")" 88 89],
        token ":" 89 90,
        rule "block" "body" 91 95 [rule "pass_statement" none 91 95 [token "pass" 91 95]]]],
    rule "expression_statement" none 96 107 [memberCallAt 96]]

/-- The built-in tables with a further constructor of routers and a further module. -/
def routersCatalog : Catalog :=
  (Catalog.builtin.addConstructor "Api" (.routeGroup .fastApi .router)).addHttpModule "w" "web"

/-- With the further entries there are another route, and a call. -/
theorem analyze_sublist_of_keepsBuiltin_routers :
    let facts := analyze (fun _ => routersTree) .builtin "a.py" none ""
    let more := analyze (fun _ => routersTree) routersCatalog "a.py" none ""
    (facts.httpCalls.Sublist more.httpCalls ∧ facts.routes.Sublist more.routes ∧
      facts.tools.Sublist more.tools ∧ facts.groups.Sublist more.groups) ∧
    (facts.httpCalls.map (·.library), facts.routes.map (·.rawPath)) = ([], [some "/a"]) ∧
    (more.httpCalls.map (·.library), more.routes.map (·.rawPath))
      = (["web"], [some "/b", some "/a"]) :=
  ⟨analyze_sublist_of_keepsBuiltin (fun _ => routersTree) "a.py" none "" routersCatalog
    (by decide +kernel) (by decide +kernel), by decide +kernel, by decide +kernel⟩

end Routers

end ApiSurface
