import ApiSurface.CommandLine.Execute
import ApiSurface.Files.Snapshot

/-!
# Command line

The program takes its command from its arguments. A scan looks at the snapshot that it is given on
standard input; a starter configuration is written to a file.
-/

namespace ApiSurface.CommandLine

/-- What is said when there is no command to execute. -/
def Refusal.message : Refusal → String
  | .nothingGiven => "usage: apiscan [--log-level LEVEL] scan PATH | init"
  | .missingArgument => "error: a required argument is missing"
  | .missingCommand => "error: a command is missing"
  | .unknownArgument => "error: unexpected argument"
  | .invalidValue => "error: invalid value"
  | .unknownCommand => "error: unrecognized command"
  | .helpWanted => "usage: apiscan [--log-level LEVEL] scan PATH | init"
  | .versionWanted => "apiscan " ++ Report.version
  | .repeated => "error: an argument cannot be used multiple times"
  | .unexpectedValue => "error: an argument takes no value"

/-- Whether the program did what it was asked for. -/
def Refusal.isAnswer : Refusal → Bool
  | .helpWanted => true
  | .versionWanted => true
  | _ => false

/-- Print what a command leaves behind. -/
def Outcome.show (o : Outcome) : IO UInt32 := do
  let err ← IO.getStderr
  IO.print o.printed
  for line in o.complaints do
    err.putStrLn line
  return UInt32.ofNat o.code

/-- Read standard input to its end. -/
partial def readInput (input : IO.FS.Stream) (acc : Array String) : IO String := do
  let line ← input.getLine
  if line.isEmpty then return String.join acc.toList
  else readInput input (acc.push line)

/-- Scan the snapshot on standard input. -/
def runScan (o : ScanOptions) : IO UInt32 := do
  let err ← IO.getStderr
  let text ← readInput (← IO.getStdin) #[]
  match Files.Snapshot.read? text with
  | some snapshot => (scan .plain snapshot.parse snapshot.system o).show
  | none =>
    err.putStrLn "Error: malformed snapshot"
    return 2

/-- Whether a file can be opened. -/
def canOpen (path : String) : IO Bool :=
  (do
    discard <| IO.FS.Handle.mk path .read
    return true) <|> return false

/-- Write a starter configuration. -/
def runInit (output : String) : IO UInt32 := do
  let empty : Files.System := ⟨.empty, []⟩
  let files := if ← canOpen output then
      (empty.withParent output).1.write? output starter.toUTF8
    else some empty
  let (outcome, _) := init (files.getD empty) output
  if outcome.code = 0 then
    match Path.parent? output with
    | some dir => if dir != "" then IO.FS.createDirAll dir
    | none => pure ()
    IO.FS.writeFile output starter
  outcome.show

end ApiSurface.CommandLine

open ApiSurface.CommandLine in
/-- Execute the command that the arguments name. -/
def main (arguments : List String) : IO UInt32 := do
  match read arguments with
  | .ok ⟨_, .scan o⟩ => runScan o
  | .ok ⟨_, .init output⟩ => runInit output
  | .error e =>
    if e.isAnswer then
      IO.println e.message
      return 0
    else
      (← IO.getStderr).putStrLn e.message
      return 2
