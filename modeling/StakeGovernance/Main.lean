import StakeGovernance.CommandLine.Run
import Std.Time.DateTime.Timestamp

/-!
# The program

An invocation works with two files: that of the settings and that of the database. They
are read into a disk that holds nothing else, the invocation is carried out on it, and
what it has changed there is written back.
-/

namespace StakeGovernance

/-- The disk with a file as it is outside. -/
def fetchFile (d : Disk) (path : String) : IO Disk := do
  try return d.withFile path (← IO.FS.readFile path)
  catch _ => return d

/-- Writes a file that has changed. -/
def deliverFile (before after : Disk) (path : String) : IO Unit := do
  let some text := after.read? path | return
  if before.read? path = some text then return
  let directory := "/".intercalate (path.splitOn "/").dropLast
  if directory ≠ "" then IO.FS.createDirAll directory
  IO.FS.writeFile path text

/-- The invocation with the file of settings that the environment names. -/
def Invocation.inEnvironment (i : Invocation) : IO Invocation := do
  match i.settingsPath with
  | some _ => return i
  | none => return { i with settingsPath := ← IO.getEnv "LOCKGOV_CONFIG" }

/-- The seconds since the epoch. -/
def wallClock : IO Timestamp := do
  let seconds := (← Std.Time.Timestamp.now).toSecondsSinceUnixEpoch
  return (Word.ofNat? seconds.val.toNat).getD .zero

/-- Carries an invocation out on the disk outside. -/
def Invocation.runOutside (i : Invocation) : IO (Except CommandError String) := do
  let start ← fetchFile .empty i.settingsFile
  match i.settings start with
  | .error e => return .error e
  | .ok settings =>
    let dataFile := Database.filePath settings.dataDir
    let before ← fetchFile start dataFile
    let (answer, after) := (i.run (← wallClock)).runFrom before
    deliverFile before after dataFile
    deliverFile before after i.settingsFile
    return answer

/-- How the program is used. -/
def usageText : String :=
  "Usage: lockgov [OPTIONS] <COMMAND>\n\nCommands:\n  "
    ++ "\n  ".intercalate Grammar.main.commands

/-- Prints the answer to arguments, or what is wrong with them. -/
def program (arguments : List String) : IO UInt32 := do
  match Invocation.ofArguments arguments with
  | .error .help =>
    IO.println usageText
    return 0
  | .error .version =>
    IO.println "lockgov 0.1.0"
    return 0
  | .error e =>
    IO.eprintln s!"error: {e.name}\n\n{usageText}"
    return 2
  | .ok i =>
    match ← (← i.inEnvironment).runOutside with
    | .ok answer =>
      IO.println answer
      return 0
    | .error e =>
      IO.eprintln s!"Error: {e.message}"
      return 1

end StakeGovernance

/-- Runs the program. -/
def main (arguments : List String) : IO UInt32 := StakeGovernance.program arguments
