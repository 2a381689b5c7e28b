import ApiSurface.Report.Style
import ApiSurface.Report.Summary

/-!
# Listings

The report for people: one section for each category of facts, one entry for each fact, and under
most entries the place where the fact was found.
-/

namespace ApiSurface.Report

/-- Text that fills at least `width` characters, with a blank behind it. -/
def column (width : Nat) (text : String) : String :=
  text ++ String.ofList (List.replicate (width - text.length) ' ') ++ " "

/-- A line of its own. -/
def line (text : String) : String := text ++ "\n"

variable (t : Terminal)

/-- Text that stands back. -/
def aside (text : String) : String := paint t [.dimmed] text

/-- Where a fact was found. -/
def place (file : String) (span : Span) : String :=
  paint t [.blue] file ++ aside t (":" ++ toString span.startLine)

/-- The line below an entry. -/
def placeLine (file : String) (span : Span) : String := line ("            " ++ place t file span)

/-- What could not be determined about a fact. -/
def marks (d : Degradations) : String :=
  if d.isEmpty then ""
  else "  " ++ paint t [.yellow] ("[" ++ ", ".intercalate (d.map Degradation.name) ++ "]")

/-- A request method, or a mark that it is not known. -/
def methodName : Option HttpMethod → String
  | some m => m.name
  | none => "?"

/-- Request methods, or a mark that none is known. -/
def methodNames (l : List HttpMethod) : String :=
  if l.isEmpty then "?" else ",".intercalate (l.map HttpMethod.name)

def httpCallEntry (c : HttpCall) : String :=
  line ("    " ++ paint t [.green] (column 8 (methodName c.method)) ++ c.url.render ++ "  " ++
    aside t c.library ++ marks t c.degradations) ++ placeLine t c.file c.span

def routeEntry (r : Route) : String :=
  line ("    " ++ paint t [.green] (column 8 (methodNames r.methods)) ++
    r.effectivePath.getD "<unknown>" ++ "  " ++
    aside t (r.handler ++ " (" ++ r.framework.name ++ ")") ++ marks t r.degradations) ++
  placeLine t r.file r.span

/-- The status of a group; only a cycle stands out. -/
def statusColumn (s : GroupStatus) : String :=
  match s with
  | .cyclic => paint t [.red] (column 8 s.name)
  | s => column 8 s.name

def groupEntry (g : RouteGroup) : String :=
  line ("    " ++ statusColumn t g.status ++ g.effectivePrefix.getD "/" ++ "  " ++
    aside t (g.kind.name ++ " " ++ g.key.render ++ " (" ++ toString g.members.length ++
      " routes)"))

def unresolvedEntry (i : GroupInclude) : String :=
  line ("    " ++ paint t [.yellow] (column 8 "unresolved") ++ i.method ++ "  " ++
    place t i.file i.span)

def schemaEntry (s : Schema) : String :=
  line ("    " ++ paint t [.green] (column 12 s.kind.name) ++ s.name ++ "  " ++
    aside t (toString s.fields.length ++ " fields") ++ marks t s.degradations) ++
  placeLine t s.file s.span

def toolEntry (u : Tool) : String :=
  line ("    " ++ paint t [.green] (column 10 u.kind.name) ++ u.name ++ "  " ++
    aside t (toString u.parameters.length ++ " params on " ++ u.server.variableName) ++
    marks t u.degradations) ++
  placeLine t u.file u.span

/-- A section with its entries; nothing when it counts no facts. -/
def factSection (title : String) (count : Nat) (entries : List String) : String :=
  if count = 0 then ""
  else line ("  " ++ paint t [.bold] title ++ " (" ++ toString count ++ "):") ++ line "" ++
    String.join entries ++ line ""

/-- A line of the header. -/
def headerLine (label value : String) : String := line ("  " ++ aside t label ++ value)

/-- What the report is about. -/
def header (s : Subject) : String :=
  line "" ++ line ("  " ++ paint t [.bold, .cyan] "apiscan" ++ " v" ++ version) ++ line "" ++
  headerLine t "Scanning: " s.path ++
  headerLine t "Config:   " (s.config.getD "(built-in catalog)") ++ line ""

/-- The report for people. Includes that lead nowhere stand under the groups. -/
def listing (s : Subject) (p : ProjectFacts) : String :=
  header t s ++
  factSection t "HTTP calls" p.httpCalls.length (p.httpCalls.map (httpCallEntry t)) ++
  factSection t "Routes" p.routes.length (p.routes.map (routeEntry t)) ++
  factSection t "Route groups" p.groups.length
    (p.groups.map (groupEntry t) ++ p.unresolvedIncludes.map (unresolvedEntry t)) ++
  factSection t "Schemas" p.schemas.length (p.schemas.map (schemaEntry t)) ++
  factSection t "Tools" p.tools.length (p.tools.map (toolEntry t)) ++
  line ("  " ++ (Summary.of p).line) ++ line ""

end ApiSurface.Report
