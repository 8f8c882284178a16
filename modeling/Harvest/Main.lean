import Harvest.Command.Run

/-!
# The program

The outer layer: it reads the variables and the settings files that there are, runs the command,
and prints what comes of it. It holds no connections, so every server is out of reach.
-/

namespace Harvest

/-- What stands at a path, if anything can be read there. -/
def entryAt (path : String) : IO (Option Disk.Entry) := do
  try return some (.file (← IO.FS.readBinFile path).toList)
  catch
    | .inappropriateType .. => return some .directory
    | _ => return none

/-- Put what stands at a path on a disk. -/
def copyTo (d : Disk) (path : String) : IO Disk := do
  let parent := ((Disk.ancestors path).drop 1).head?.getD ""
  match ← entryAt path with
  | none => return d
  | some .directory => return (d.makeDirectories path).2
  | some (.file content) =>
    let d := (d.makeDirectories parent).2
    return (d.write path content).toOption.getD d

/-- The values of variables that are set. -/
def readEnvironment (names : List String) : IO Settings.Environment := do
  let values ← names.mapM fun name ↦ do return (← IO.getEnv name).map (name, ·)
  return values.filterMap id

/-- The settings files that a command line may be about. -/
def settingsPaths (env : Settings.Environment) (words : List String) : List String :=
  let named := match Command.readArguments words with
    | .job job => job.config.toList
    | _ => []
  named ++ Settings.localPath :: (Settings.userPath? env).toList

/-- The variables that the files of a disk refer to. -/
def referencesOn (d : Disk) : List String :=
  (d.filesBelow []).flatMap fun (_, content) ↦
    Settings.references (Text.textOf content).toList

/-- Run the program. -/
def runProgram (words : List String) : IO UInt32 := do
  let here := Disk.names (← IO.currentDir).toString
  let env ← readEnvironment ["HOME", "XDG_CONFIG_HOME", Command.filterVariable]
  let empty := ((⟨[], []⟩ : Disk).makeDirectories (Disk.pathOf true here)).2
  let disk ← (settingsPaths env words).foldlM copyTo { empty with here }
  let surroundings : Command.Surroundings :=
    { environment := env ++ (← readEnvironment (referencesOn disk)), processors := 4,
      watch := { isStopped := fun _ ↦ false, now := fun _ ↦ default } }
  let server : Http.Server := { reachable := false, script := [], received := [] }
  let (outcome, _) := Command.run surroundings words ⟨⟨server, none⟩, disk⟩
  IO.print outcome.output
  IO.eprint outcome.errors
  return outcome.code.toUInt32

end Harvest

/-- Run the program with the words of the command line. -/
def main (words : List String) : IO UInt32 := Harvest.runProgram words
