import ApiSurface.CommandLine.Arguments
import ApiSurface.CommandLine.Starter
import ApiSurface.Config.Read
import ApiSurface.Files.Discovery
import ApiSurface.Report.Listing
import ApiSurface.Session

/-!
# Commands

What the commands do: they look at a file system, print a text, complain on lines of their own,
and end with an exit code. Causes that only the operating system or a reader of patterns could
name are left out of the complaints.
-/

namespace ApiSurface.CommandLine

open ApiSurface.Files (System)
open ApiSurface.Report (Terminal)
open ApiSurface.Syntax (Tree)

/-- What a command leaves behind, apart from files. -/
structure Outcome where
  code : Nat
  printed : String
  complaints : List String
deriving DecidableEq, Repr

namespace Outcome

/-- The command did what it was asked for. -/
def success (printed : String) : Outcome := ⟨0, printed, []⟩

/-- The command could not do it. -/
def failure (complaints : List String) : Outcome := ⟨2, "", complaints⟩

end Outcome

/-- Why a scan gives no report. -/
inductive ScanError where
  | cannotAccess (path : String)
  | cannotRead (config : String)
  | malformed (config : String)
  | invalid (cause : ConfigError)
  | cannotWalk (path : String)
deriving DecidableEq, Repr

def ScanError.message : ScanError → String
  | cannotAccess path => "Error: cannot access path " ++ Text.quoted path
  | cannotRead config => "Error: failed to read " ++ config
  | malformed config => "Error: invalid config " ++ config
  | invalid cause => "Error: invalid config: " ++ cause.message
  | cannotWalk path => "Error: cannot walk " ++ path

/-! ### Configurations in files -/

/-- The path of the configuration in a directory. -/
def discover? (s : System) (dir : String) : Option String :=
  (Config.fileNames.map (Path.join dir)).find? s.has

/-- The configuration in a file. -/
def readConfig (s : System) (path : String) : Except ScanError Config :=
  match s.text? path with
  | none => .error (.cannotRead path)
  | some text =>
    match Config.read? text with
    | none => .error (.malformed path)
    | some c => .ok c

/-! ### Scanning -/

/-- What is scanned: the absolute path that was asked for, and the directory that it lies in or
that it is. -/
structure Target where
  path : String
  root : String
  isDir : Bool

/-- What lies at a path. -/
def target? (s : System) (path : String) : Option Target := do
  let absolute ← s.canonical? path
  if s.isDir absolute then pure ⟨absolute, absolute, true⟩
  else pure ⟨absolute, (Path.parent? absolute).getD absolute, false⟩

/-- The files to scan. A file that was asked for is scanned whatever the configuration says. -/
def filesOf (s : System) (t : Target) (c : Config) (excluded : Glob.Patterns) :
    Except ScanError (List String) :=
  if t.isDir then
    match s.collect? ⟨c.includesTests, excluded.isMatch⟩ t.path with
    | some files => .ok files
    | none => .error (.cannotWalk t.path)
  else .ok [t.path]

/-- The facts that a scan reports, and the configuration that it used. -/
def scanFacts (parse : String → Tree) (s : System) (o : ScanOptions) :
    Except ScanError (Report.Subject × ProjectFacts) := do
  let t ← (target? s o.path).elim (.error (.cannotAccess o.path)) .ok
  let configPath := o.config <|> discover? s t.root
  let config ← configPath.elim (.ok Config.default) (readConfig s)
  let (excluded, catalog) ← config.validate.mapError ScanError.invalid
  let files ← filesOf s t config excluded
  let (facts, _) := (Session.new t.root parse catalog).analyzeProject s.text? files
  pure (⟨o.path, configPath⟩, facts)

/-- The report of a scan. -/
def report (terminal : Terminal) (f : Format) (subject : Report.Subject) (p : ProjectFacts) :
    String :=
  match f with
  | .data => Report.data subject p
  | .listing => Report.listing terminal subject p

/-- Scan a file or a directory. -/
def scan (terminal : Terminal) (parse : String → Tree) (s : System) (o : ScanOptions) : Outcome :=
  match scanFacts parse s o with
  | .ok (subject, facts) => .success (report terminal o.format subject facts)
  | .error e => .failure [e.message]

/-! ### Starting a configuration -/

/-- What is said about a new configuration. -/
def created (output : String) : String :=
  String.join <| [
    "Created " ++ output,
    "",
    "Next steps:",
    "  1. Add your own clients, routers and model bases to the catalog section",
    "  2. Run: apiscan scan . --config " ++ output].map (· ++ "\n")

/-- Write a starter configuration, unless there is something already. Directories that were created
for it stay even when it cannot be written. -/
def init (s : System) (output : String) : Outcome × System :=
  if s.has output then
    (.failure ["Error: file already exists: " ++ output,
      "Remove it or use --output to specify a different path"], s)
  else
    match s.withParent output with
    | (s, false) => (.failure ["Error: failed to create directory"], s)
    | (s, true) =>
      match s.write? output starter.toUTF8 with
      | none => (.failure ["Error: failed to write config"], s)
      | some written => (.success (created output), written)

end ApiSurface.CommandLine
