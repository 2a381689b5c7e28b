/-!
# Arguments

What the program is asked to do, and how that is read from its arguments. Options may stand before
and after the path, with their value as the next argument or behind an equals sign; behind a
double dash everything is a path.
-/

namespace ApiSurface.CommandLine

/-- How a report is written. -/
inductive Format where
  | listing | data
deriving DecidableEq, Repr

/-- The format that goes by a name. -/
def Format.ofName? (name : String) : Option Format :=
  if name = "pretty" then some .listing else if name = "json" then some .data else none

def Format.name : Format → String
  | .listing => "pretty"
  | .data => "json"

/-- What a scan is asked for. -/
structure ScanOptions where
  path : String
  /-- The configuration to use instead of one that is looked for. -/
  config : Option String
  format : Format
  /-- Whether files are analysed one after the other. The answer is the same either way. -/
  sequential : Bool
deriving DecidableEq, Repr

/-- What the program is asked to do. -/
inductive Command where
  | scan (options : ScanOptions)
  /-- Write a starter configuration to a path. -/
  | init (output : String)
deriving DecidableEq, Repr

/-- A command with the setting that all commands share. -/
structure Invocation where
  logLevel : String
  command : Command
deriving DecidableEq, Repr

/-- Why there is no command to execute. -/
inductive Refusal where
  | nothingGiven
  | missingArgument
  | missingCommand
  | unknownArgument
  | invalidValue
  | unknownCommand
  | helpWanted
  | versionWanted
  | repeated
  | unexpectedValue
deriving DecidableEq, Repr

/-- The arguments that the program knows. -/
inductive Slot where
  | help | version | logLevel | path | config | format | sequential | output
deriving DecidableEq, Repr

/-- Whether an argument stands for itself and takes no value. -/
def Slot.isFlag : Slot → Bool
  | .help => true
  | .version => true
  | .sequential => true
  | _ => false

/-- Whether a value is good for an argument. Paths are never empty. -/
def Slot.accepts (slot : Slot) (value : String) : Bool :=
  match slot with
  | .path => value != ""
  | .config => value != ""
  | .output => value != ""
  | .format => (Format.ofName? value).isSome
  | _ => true

/-- The arguments that can stand at one place. -/
structure Grammar where
  long : List (String × Slot)
  short : List (Char × Slot)
  takesPath : Bool
  commands : List String

/-- Arguments in front of a command. -/
def outerGrammar : Grammar where
  long := [("help", .help), ("version", .version), ("log-level", .logLevel)]
  short := [('h', .help), ('V', .version)]
  takesPath := false
  commands := ["scan", "init", "help"]

/-- Arguments of a scan. -/
def scanGrammar : Grammar where
  long := [("help", .help), ("log-level", .logLevel), ("config", .config), ("format", .format),
    ("sequential", .sequential)]
  short := [('h', .help), ('c', .config), ('f', .format)]
  takesPath := true
  commands := []

/-- Arguments for writing a starter configuration. -/
def initGrammar : Grammar where
  long := [("help", .help), ("log-level", .logLevel), ("output", .output)]
  short := [('h', .help), ('o', .output)]
  takesPath := false
  commands := []

/-- An argument whose value has not been looked at yet. -/
inductive Pending where
  | nothing
  /-- The value should be the next argument. -/
  | awaited (slot : Slot)
  | value (slot : Slot) (text : String)

/-- Arguments that were read. -/
structure Reading where
  given : List (Slot × String)
  pending : Pending
  /-- A double dash was read. -/
  onlyPaths : Bool
  pathRead : Bool

namespace Reading

/-- Nothing was read. -/
def start : Reading := ⟨[], .nothing, false, false⟩

/-- The value that was given for an argument. -/
def value? (r : Reading) (slot : Slot) : Option String :=
  (r.given.find? fun p => p.1 = slot).map (·.2)

/-- Take a value for an argument. No argument may be given twice. -/
def accept (r : Reading) (slot : Slot) (value : String) : Except Refusal Reading :=
  if (r.value? slot).isSome then .error .repeated
  else if slot.accepts value then .ok { r with given := r.given ++ [(slot, value)] }
  else .error .invalidValue

/-- Look at the value that is pending. -/
def settle (r : Reading) : Except Refusal Reading :=
  match r.pending with
  | .nothing => .ok r
  | .awaited _ => .error .invalidValue
  | .value slot text => { r with pending := .nothing }.accept slot text

/-- Whether the next argument is a value. -/
def awaits (r : Reading) : Bool :=
  match r.pending with
  | .awaited _ => true
  | _ => false

/-- A flag was given. -/
def flag (r : Reading) (slot : Slot) : Except Refusal Reading := do
  let r ← r.settle
  match slot with
  | .help => .error .helpWanted
  | .version => .error .versionWanted
  | slot => r.accept slot ""

/-- An option was given, with its value or without. -/
def option (r : Reading) (slot : Slot) (value : Option String) : Except Refusal Reading := do
  let r ← r.settle
  match value with
  | some v => r.accept slot v
  | none => pure { r with pending := .awaited slot }

/-- An argument with two dashes, which are left out here. -/
def long (g : Grammar) (r : Reading) (text : String) : Except Refusal Reading :=
  let name := text.toList.takeWhile (· ≠ '=')
  let attached := match text.toList.dropWhile (· ≠ '=') with
    | _ :: v => some (String.ofList v)
    | [] => none
  match g.long.find? fun p => p.1 = String.ofList name with
  | none => .error .unknownArgument
  | some (_, slot) =>
    if slot.isFlag then
      if attached.isSome then .error .unexpectedValue else r.flag slot
    else r.option slot attached

/-- The value that stands behind a letter. -/
def attachedValue : List Char → Option String
  | [] => none
  | '=' :: v => some (String.ofList v)
  | v => some (String.ofList v)

/-- Arguments with one dash, a letter each. -/
def short (g : Grammar) (r : Reading) : List Char → Except Refusal Reading
  | [] => .ok r
  | c :: rest =>
    match g.short.find? fun p => p.1 = c with
    | none => .error .unknownArgument
    | some (_, slot) =>
      if slot.isFlag then do short g (← r.flag slot) rest
      else r.option slot (attachedValue rest)

/-- An argument that is no option. -/
def plain (g : Grammar) (r : Reading) (text : String) : Except Refusal Reading :=
  if g.takesPath ∧ !r.pathRead then do
    let r ← r.settle
    pure { r with pending := .value .path text, pathRead := true }
  else if g.commands.isEmpty ∨ (r.onlyPaths ∧ g.commands.contains text) then
    .error .unknownArgument
  else .error .unknownCommand

/-- Read one argument that names no command. -/
def argument (g : Grammar) (r : Reading) (text : String) : Except Refusal Reading :=
  if r.onlyPaths then r.plain g text
  else
    match text.toList with
    | ['-', '-'] => .ok { r with onlyPaths := true }
    | '-' :: '-' :: rest => r.long g (String.ofList rest)
    | '-' :: c :: rest => r.short g (c :: rest)
    | _ =>
      match r.pending with
      | .awaited slot => .ok { r with pending := .value slot text }
      | _ => r.plain g text

/-- Read arguments up to the name of a command, which is given back with what follows it. -/
def run (g : Grammar) (r : Reading) :
    List String → Except Refusal (Reading × Option (String × List String))
  | [] => do pure (← r.settle, none)
  | text :: rest =>
    if !r.onlyPaths ∧ !r.awaits ∧ g.commands.contains text then .ok (r, some (text, rest))
    else do run g (← r.argument g text) rest

end Reading

/-- Read arguments that name no command. -/
def readAll (g : Grammar) (arguments : List String) : Except Refusal Reading :=
  (Reading.start.run g arguments).map (·.1)

/-- Read the arguments of a scan. -/
def readScan (arguments : List String) : Except Refusal (Option String × Command) := do
  let r ← readAll scanGrammar arguments
  match r.value? .path with
  | none => .error .missingArgument
  | some path =>
    pure (r.value? .logLevel, .scan
      { path
        config := r.value? .config
        format := ((r.value? .format).bind Format.ofName?).getD .listing
        sequential := (r.value? .sequential).isSome })

/-- The path of a starter configuration when none is given. -/
def defaultOutput : String := "apiscan.yaml"

/-- Read the arguments for writing a starter configuration. -/
def readInit (arguments : List String) : Except Refusal (Option String × Command) := do
  let r ← readAll initGrammar arguments
  pure (r.value? .logLevel, .init ((r.value? .output).getD defaultOutput))

/-- Help is given on the program and on each command. -/
def readHelp (arguments : List String) : Refusal :=
  match arguments with
  | [] => .helpWanted
  | [command] => if outerGrammar.commands.contains command then .helpWanted else .unknownCommand
  | _ => .unknownCommand

/-- Read the arguments of a command. -/
def readCommand (command : String) (arguments : List String) :
    Except Refusal (Option String × Command) :=
  if command = "scan" then readScan arguments
  else if command = "init" then readInit arguments
  else .error (readHelp arguments)

/-- The log level when none is given. -/
def defaultLogLevel : String := "warn"

/-- Read the arguments of the program. The log level may stand on both sides of the command; the
one behind it counts. -/
def read (arguments : List String) : Except Refusal Invocation := do
  let (outer, command) ← Reading.start.run outerGrammar arguments
  match command with
  | some (name, rest) =>
    let (inner, command) ← readCommand name rest
    let outer ← outer.settle
    pure ⟨(inner <|> outer.value? .logLevel).getD defaultLogLevel, command⟩
  | none => .error (if outer.given.isEmpty then .nothingGiven else .missingCommand)

end ApiSurface.CommandLine
