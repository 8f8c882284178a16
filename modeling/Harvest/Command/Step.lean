import Harvest.Command.Failure
import Harvest.Extraction
import Harvest.Http.Server
import Harvest.Settings.Decode
import Harvest.Table

/-!
# Steps of commands

A step works on the disk and the server, and may fail; a failure ends the command.
-/

namespace Harvest.Command

/-- A step of a command. -/
abbrev Step (α : Type) := ExceptT Failure (Act (Site Http.Server)) α

/-- What a command finds around it. -/
structure Surroundings where
  environment : Settings.Environment
  processors : Nat
  watch : Watch Http.Server
  /-- Build a pool of a number of workers, or tell why there is none. -/
  buildPool : Nat → Except String Unit := fun _ ↦ .ok ()

variable {ε α : Type}

/-- Act on the site. -/
def act (a : Act (Site Http.Server) α) : Step α := ExceptT.lift a

/-- Take a value, or fail. -/
def orFail (failure : ε → Failure) (result : Except ε α) : Step α :=
  ExceptT.mk (pure (result.mapError failure))

/-- Act on the site, and take the value or fail. -/
def actOrFail (failure : ε → Failure) (a : Act (Site Http.Server) (Except ε α)) : Step α := do
  orFail failure (← act a)

/-- Act on the world of a site. -/
def inWorld (act : Act (World Http.Server) (Except Service.Error α)) : Step α :=
  actOrFail .ofService (Extraction.inWorld act)

/-- Print a text among the errors. -/
def tell (text : String) : Step Unit := act (Act.emit (.print .errors text))

/-- Print a table among the errors, behind an empty line. -/
def tellTable (table : Table) : Step Unit := tell ("\n" ++ table.text ++ "\n")

/-- A table of names and values. -/
def summary (title : String) (rows : List (String × String)) : Table :=
  .withHeadings [title, "Value"] (rows.map fun (name, value) ↦ [.left name, .left value])

/-- A text that may be missing. -/
def orDash (value : Option String) : String := value.getD "-"

/-- The disk. -/
def disk : Step Disk := do return (← act Act.get).disk

end Harvest.Command
