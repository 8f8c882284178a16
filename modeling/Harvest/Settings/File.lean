import Harvest.Disk.Basic
import Harvest.Settings.Decode
import Harvest.Toml.Document

/-!
# Settings files

Where settings are looked for, and how a file of settings is read. A file in the working directory
comes before the one of the user.
Design: `SPEC_FULL.md:215–217`.
-/

namespace Harvest.Settings

/-- Why a file of settings gives none. -/
inductive FileError where
  | unreadable (path : String) (fault : Disk.Fault)
  | malformed (path : String)
deriving DecidableEq, Repr

/-- The settings file of the working directory. Design: `SPEC_FULL.md:216`. -/
def localPath : String := "odline.toml"

/-- A variable that is set to something. -/
def nonEmpty? (env : Environment) (name : String) : Option String :=
  (env.lookup name).filter (· ≠ "")

/-- The settings file of the user, in the directory for such files.
Design: `SPEC_FULL.md:216–217`. -/
def userPath? (env : Environment) : Option String := do
  let home ← nonEmpty? env "HOME"
  let base := ((nonEmpty? env "XDG_CONFIG_HOME").filter Disk.isAbsolute).getD
    (Disk.join home ".config")
  return Disk.join (Disk.join base "odline") "config.toml"

/-- The settings file that there is, if any. -/
def foundPath? (env : Environment) (d : Disk) : Option String :=
  (localPath :: (userPath? env).toList).find? d.contains

/-- The names of the variables that a text of settings refers to. Design: `SPEC_FULL.md:225`. -/
def references : List Char → List String
  | [] => []
  | '$' :: '\x7b' :: rest => String.ofList (rest.takeWhile (· ≠ '\x7d')) :: references rest
  | _ :: rest => references rest

/-- Read the settings of a text. -/
def ofText (env : Environment) (processors : Nat) (text : String) : Option Settings :=
  Toml.parse text >>= decode .toml env processors

/-- Read a file of settings. -/
def ofFile (env : Environment) (processors : Nat) (d : Disk) (path : String) :
    Except FileError Settings :=
  match d.read path with
  | .error fault => .error (.unreadable path fault)
  | .ok bytes =>
    match Text.decode bytes with
    | none => .error (.unreadable path .notText)
    | some cs =>
      match ofText env processors (String.ofList cs) with
      | none => .error (.malformed path)
      | some settings => .ok settings

/-- What is reported where settings come from a file. -/
def loadedLine (path : String) : Log.Line := ⟨.info, .settings, "Loaded config from " ++ path⟩

/-- What is reported where no file of settings is there. -/
def defaultsLine : Log.Line := ⟨.debug, .settings, "No config file found, using defaults"⟩

/-- The settings of the given file, of the one that is found, or the standard ones, with what is
reported of them. Design: `SPEC_FULL.md:215–217`. -/
def load (env : Environment) (processors : Nat) (d : Disk) (path : Option String) :
    Except FileError (Settings × Log.Line) :=
  match path <|> foundPath? env d with
  | some path => (ofFile env processors d path).map (·, loadedLine path)
  | none => .ok (standard processors, defaultsLine)

end Harvest.Settings
