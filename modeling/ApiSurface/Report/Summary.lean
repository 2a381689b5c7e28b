import ApiSurface.Project.Resolve

/-!
# Totals of a report

What stands at the end of every report: how many facts there are, how many of them are degraded,
and how many files they come from.
-/

namespace ApiSurface.Report

/-- The totals of a project. -/
structure Summary where
  facts : Nat
  degraded : Nat
  files : Nat
  parseErrors : Nat
deriving DecidableEq, Repr

namespace Summary

/-- The totals of the facts of a project. -/
def of (p : ProjectFacts) : Summary :=
  ⟨p.factCount, p.degradedCount, p.files.length, p.parseErrorCount⟩

def toJson (s : Summary) : Json := .obj
  [("facts", .nat s.facts), ("degraded", .nat s.degraded), ("files", .nat s.files),
    ("parse_errors", .nat s.parseErrors)]

/-- The totals on one line. Parse errors are mentioned only when there are some. -/
def line (s : Summary) : String :=
  toString s.facts ++ " facts (" ++ toString s.degraded ++ " degraded) in " ++
    toString s.files ++ " files" ++
    if 0 < s.parseErrors then ", " ++ toString s.parseErrors ++ " with parse errors" else ""

end Summary

/-- The version that reports carry. -/
def version : String := "0.1.0"

/-- What a report is about. -/
structure Subject where
  /-- The path as it was asked for. -/
  path : String
  /-- The configuration that was used. -/
  config : Option String
deriving DecidableEq, Repr

/-- The report in the data format: subject and totals first, then the facts. -/
def toJson (s : Subject) (p : ProjectFacts) : Json := .obj <|
  [("version", .str version), ("path", .str s.path)] ++ Json.member? "config" .str s.config ++
  [("summary", (Summary.of p).toJson)] ++ p.toMembers

/-- The report in the data format as a text. -/
def data (s : Subject) (p : ProjectFacts) : String := (toJson s p).render ++ "\n"

end ApiSurface.Report
