import Harvest.Command.Arguments
import Harvest.Text.Case

/-!
# Help

What is printed about the program, its commands and their switches. The switches of a command are
listed in the order in which they are declared, mixed with the common ones, and those that share a
place by their letters.
-/

namespace Harvest.Command

/-- The name of the program. -/
def programName : String := "odline"

/-- The version of the program. -/
def programVersion : String := "0.1.0"

/-- What the program does. -/
def programAbout : String := "Parallel extraction of OData entity sets"

/-- A switch in a list of switches, with its rank in it. -/
structure Listed where
  rank : Nat
  switch : Switch
deriving DecidableEq, Repr

namespace Listed

/-- Switches with the ranks of their places. -/
def ofList (switches : List Switch) : List Listed :=
  switches.zipIdx.map fun (s, n) ↦ ⟨n, s⟩

/-- The rank of switches behind all others. -/
def lastRank : Nat := 999

/-- The text that decides between switches of one rank. -/
def key (l : Listed) : String :=
  match l.switch.short with
  | some c => String.ofList [c.toLower, if c.isLower then '0' else '1']
  | none => l.switch.long

/-- Whether one switch is listed before another. -/
def notAfter (a b : Listed) : Bool :=
  a.rank < b.rank || (a.rank == b.rank && decide (a.key ≤ b.key))

end Listed

/-- The name of a switch's operand. -/
def operandName (s : Switch) : String :=
  String.ofList (s.long.toList.map fun c ↦ if c = '-' then '_' else c.toUpper)

/-- A switch in full, with its operand. -/
def fullForm (s : Switch) : String :=
  "--" ++ s.long ++ match s.operand with
    | .nothing => ""
    | _ => " <" ++ operandName s ++ ">"

/-- The forms of a switch. -/
def forms (s : Switch) : String :=
  match s.short with
  | some c => String.ofList ['-', c] ++ ", " ++ fullForm s
  | none => "    " ++ fullForm s

/-- The columns that a line of help may take. -/
def helpWidth : Nat := 100

/-- Whether texts on the right have to go below those on the left: the left ones take more than two
fifths of a line, and a right one is longer than what they leave. -/
def goesBelow (width : Nat) (rows : List (String × String)) : Bool :=
  let taken := width + 12
  taken ≤ helpWidth && 2 * helpWidth < 5 * taken
    && rows.any fun (_, right) ↦ helpWidth - taken < right.length

/-- Two columns of texts, the first as wide as its widest text; where that is too wide, the second
text of each row is on a line of its own. -/
def twoColumns (rows : List (String × String)) : List String :=
  let width := (rows.map (·.1.length)).foldl max 0
  let below := goesBelow width rows
  rows.map fun (left, right) ↦
    let room :=
      if below then '\n' :: List.replicate 10 ' ' else List.replicate (width - left.length + 2) ' '
    "  " ++ left ++ String.ofList room ++ right

/-- The switch that asks for help. -/
def helpSwitch : Switch := ⟨"help", some 'h', .nothing, "Print help"⟩

/-- The switch that asks for the version. -/
def versionSwitch : Switch := ⟨"version", some 'V', .nothing, "Print version"⟩

/-- The lines about switches. -/
def switchLines (listed : List Listed) : List String :=
  "Options:" :: twoColumns ((listed.mergeSort Listed.notAfter).map fun l ↦
    (forms l.switch, l.switch.help))

/-- What the word for help does. -/
def helpAbout : String := "Print this message or the help of the given subcommand(s)"

/-- The text about the program. -/
def programHelp : String :=
  let commands := Kind.all.map (fun k ↦ (k.name, k.about)) ++ [(helpWord, helpAbout)]
  let listed := Listed.ofList commonSwitches ++
    [⟨Listed.lastRank, helpSwitch⟩, ⟨Listed.lastRank, versionSwitch⟩]
  "\n".intercalate
    ([programAbout, "", s!"Usage: {programName} [OPTIONS] <COMMAND>", "", "Commands:"]
      ++ twoColumns commands ++ [""] ++ switchLines listed) ++ "\n"

/-- The text about a command. -/
def commandHelp (k : Kind) : String :=
  let required := (k.switches.filter fun s ↦ k.required.contains s.long).map fun s ↦
    " " ++ fullForm s
  let listed := Listed.ofList k.switches ++ Listed.ofList commonSwitches ++
    [⟨Listed.lastRank, helpSwitch⟩]
  "\n".intercalate
    ([k.about, "", s!"Usage: {programName} {k.name} [OPTIONS]" ++ String.join required, ""]
      ++ switchLines listed) ++ "\n"

/-- The text about the word for help. -/
def helpHelp : String :=
  "\n".intercalate
    ([helpAbout, "", s!"Usage: {programName} {helpWord} [COMMAND]...", "", "Arguments:"]
      ++ twoColumns [("[COMMAND]...", "Print help for the subcommand(s)")]) ++ "\n"

/-- The text about a topic. -/
def Topic.text : Topic → String
  | program => programHelp
  | command k => commandHelp k
  | help => helpHelp

/-- The text about the version. -/
def versionText : String := programName ++ " " ++ programVersion ++ "\n"

end Harvest.Command
