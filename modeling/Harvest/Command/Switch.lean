import Harvest.Text.Number
import Harvest.Text.Split

/-!
# Switches

A command line is read from left to right. A switch is written in full after two dashes, or as a
letter after one; its operand follows an equals sign, the letter itself, or as the next word. A
switch is given at most once, and what is wrong first decides.
-/

namespace Harvest.Command

/-- What a switch is followed by. -/
inductive Operand where
  | nothing
  | text
  | path
  | number
deriving DecidableEq, Repr, Inhabited

/-- Whether a word can be an operand of a kind. -/
def Operand.accepts : Operand → String → Bool
  | nothing, _ => false
  | text, _ => true
  | path, word => !word.isEmpty
  | number, word => (Text.readNatural word.toList).isSome

/-- A switch of a command. -/
structure Switch where
  long : String
  short : Option Char
  operand : Operand
  help : String
deriving DecidableEq, Repr, Inhabited

/-- The switches that were given, with their operands. -/
abbrev Given := List (String × String)

/-- What may stand at a level of a command line. -/
structure Level where
  switches : List Switch
  /-- The commands that lead to the next level. -/
  commands : List String
  /-- Whether the version can be asked for. -/
  tellsVersion : Bool

/-- Why reading ended early. -/
inductive Ending where
  | misuse
  | help
  | version
deriving DecidableEq, Repr

/-- A word of a command line by its form. -/
inductive Word where
  | dashes
  | long (name : String) (operand : Option String)
  | short (letter : Char) (rest : List Char)
  | plain (text : String)
deriving DecidableEq, Repr

/-- The form of a word. -/
def Word.ofText (text : String) : Word :=
  match text.toList with
  | ['-', '-'] => .dashes
  | '-' :: '-' :: cs =>
    match Text.splitAt '=' cs with
    | name :: part :: parts =>
      .long (String.ofList name) (some (String.ofList (Text.joinWith ['='] (part :: parts))))
    | _ => .long (String.ofList cs) none
  | '-' :: c :: cs => .short c cs
  | _ => .plain text

/-- Whether a word can follow a switch as its operand. -/
def Word.isPlain : Word → Bool
  | plain _ => true
  | _ => false

/-- The operand that is written right behind a letter. -/
def attached? : List Char → Option String
  | [] => none
  | '=' :: cs => some (String.ofList cs)
  | cs => some (String.ofList cs)

/-- Add a switch with its operand. -/
def give (given : Given) (s : Switch) (operand : String) : Except Ending Given :=
  if (given.lookup s.long).isSome || !s.operand.accepts operand then .error .misuse
  else .ok (given ++ [(s.long, operand)])

/-- Add a switch that needs no operand. -/
def giveAlone (given : Given) (s : Switch) : Except Ending Given :=
  if (given.lookup s.long).isSome then .error .misuse else .ok (given ++ [(s.long, "")])

/-- Add a switch: what has been given, and the switch itself where its operand is the next word. -/
def take (given : Given) (s : Switch) (operand : Option String) :
    Except Ending (Given × Option Switch) :=
  match s.operand, operand with
  | .nothing, none => (giveAlone given s).map (·, none)
  | .nothing, some _ => .error .misuse
  | _, some operand => (give given s operand).map (·, none)
  | _, none => .ok (given, some s)

namespace Level

/-- Take a switch that is written in full. -/
def takeLong (l : Level) (given : Given) (name : String) (operand : Option String) :
    Except Ending (Given × Option Switch) :=
  match l.switches.find? (·.long = name) with
  | some s => take given s operand
  | none =>
    if operand.isSome then .error .misuse
    else if name = "help" then .error .help
    else if name = "version" && l.tellsVersion then .error .version
    else .error .misuse

/-- Take a switch that is written as a letter. -/
def takeShort (l : Level) (given : Given) (letter : Char) (rest : List Char) :
    Except Ending (Given × Option Switch) :=
  match l.switches.find? (·.short = some letter) with
  | some s => take given s (attached? rest)
  | none =>
    if letter = 'h' then .error .help
    else if letter = 'V' && l.tellsVersion then .error .version
    else .error .misuse

/-- Read the words of a level: the switches, and the command that ends the level with the words
behind it. A switch may be waiting for its operand. -/
def read (l : Level) : Option Switch → Given → List String →
    Except Ending (Given × Option (String × List String))
  | some _, _, [] => .error .misuse
  | none, given, [] => .ok (given, none)
  | some s, given, text :: rest =>
    if (Word.ofText text).isPlain then do
      l.read none (← give given s text) rest
    else .error .misuse
  | none, given, text :: rest =>
    match Word.ofText text with
    | .dashes => if rest = [] then .ok (given, none) else .error .misuse
    | .long name operand => do
      let (given, waiting) ← l.takeLong given name operand
      l.read waiting given rest
    | .short letter letters => do
      let (given, waiting) ← l.takeShort given letter letters
      l.read waiting given rest
    | .plain text =>
      if l.commands.contains text then .ok (given, some (text, rest)) else .error .misuse

end Level

end Harvest.Command
