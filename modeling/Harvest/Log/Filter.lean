import Harvest.Log
import Harvest.Text.Blank
import Harvest.Text.Case
import Harvest.Text.Split

/-!
# Log filters

A filter chooses the lines to print. It is written as directives with commas between them: a level
for all lines, a target for all lines of the targets that it begins, or a target and a level with
an equals sign between them. The longest target that fits a line decides. A text behind a slash
has to be part of the line.
Design: `SPEC_FULL.md:200`.
-/

namespace Harvest.Log

/-- The target that lines of a source are written under. -/
def Source.target : Source → String
  | planner => "odline_core::partition"
  | endpoints => "odline_core::urls"
  | retry => "odline_core::retry"
  | transport => "odline_core::transport"
  | token => "odline_core::token"
  | service => "odline_core::service"
  | extraction => "odline_core::extract"
  | client => "odline_core::http"
  | settings => "odline::config"

/-- The rank of the least urgent lines that a name of a level lets through. -/
def threshold? (name : String) : Option Nat :=
  [("off", 0), ("error", Level.error.rank), ("warn", Level.warn.rank), ("info", Level.info.rank),
    ("debug", Level.debug.rank), ("trace", Level.trace.rank)].lookup (Text.lower name)

/-- A rule: the targets that it is for, if not for all, and the greatest rank it lets through. -/
structure Directive where
  target : Option String
  threshold : Nat
deriving DecidableEq, Repr

namespace Directive

/-- The bytes of a directive's target. -/
def specificity (d : Directive) : Nat := (d.target.map (·.utf8ByteSize)).getD 0

/-- Whether a directive is for a target. -/
def appliesTo (d : Directive) (target : String) : Bool :=
  (d.target.map fun start ↦ start.toList.isPrefixOf target.toList).getD true

/-- Read a directive, or give the part of it that is none. -/
def parse (text : String) : Except String Directive :=
  match (Text.splitAt '=' text.toList).map String.ofList with
  | [name] =>
    match threshold? name with
    | some threshold => .ok ⟨none, threshold⟩
    | none => .ok ⟨some name, Level.trace.rank⟩
  | [target, level] =>
    let level := Text.trim level
    if level = "" then .ok ⟨some target, Level.trace.rank⟩
    else
      match threshold? level with
      | some threshold => .ok ⟨some target, threshold⟩
      | none => .error level
  | _ => .error text

end Directive

/-- A filter of lines. Design: `SPEC_FULL.md:200`. -/
structure Filter where
  directives : List Directive
  /-- A text that lines have to hold. -/
  needle : Option String
deriving DecidableEq, Repr

namespace Filter

/-- Put a directive in the place of one for the same targets, or behind all others. -/
def insert (d : Directive) : List Directive → List Directive
  | [] => [d]
  | e :: rest => if e.target = d.target then d :: rest else e :: insert d rest

/-- A filter that lets lines through up to a rank. -/
def upTo (threshold : Nat) : Filter := ⟨[⟨none, threshold⟩], none⟩

/-- What is said of a part of a filter that cannot be read. -/
def problem (what : String) : String :=
  "warning: error parsing logger filter: invalid logging spec '" ++ what ++ "', ignoring it"

/-- Read directives: those that can be read, and what is said of the others. -/
def parseDirectives (text : String) : List Directive × List String :=
  let parts := (Text.splitAt ',' text.toList).map fun cs ↦ Text.trim (String.ofList cs)
  (parts.filter (· ≠ "")).foldl (fun (directives, problems) part ↦
    match Directive.parse part with
    | .ok d => (insert d directives, problems)
    | .error what => (directives, problems ++ [problem what])) ([], [])

/-- A filter of directives; without any it lets errors through. -/
def ofDirectives (directives : List Directive) (needle : Option String) : Filter :=
  if directives = [] then { upTo Level.error.rank with needle } else ⟨directives, needle⟩

/-- Read a filter, and say what of it cannot be read. -/
def parse (text : String) : Filter × List String :=
  match (Text.splitAt '/' text.toList).map String.ofList with
  | [directives] =>
    let (directives, problems) := parseDirectives directives
    (ofDirectives directives none, problems)
  | [directives, needle] =>
    let (directives, problems) := parseDirectives directives
    (ofDirectives directives (some needle), problems)
  | _ =>
    (ofDirectives [] none,
      ["warning: error parsing logger filter: invalid logging spec '" ++ text ++
        "' (too many '/'s), ignoring it"])

/-- The directive that decides about a target: the one with the longest target, and the last one
of those. -/
def deciding (f : Filter) (target : String) : Option Directive :=
  (f.directives.filter (·.appliesTo target)).foldl (fun best d ↦
    match best with
    | some b => if d.specificity < b.specificity then some b else some d
    | none => some d) none

/-- Whether a line is let through. -/
def admits (f : Filter) (line : Line) : Bool :=
  (f.deciding line.source.target).any (fun d ↦ line.level.rank ≤ d.threshold)
    && f.needle.all fun needle ↦ Text.holds needle.toList line.text.toList

end Filter

/-- A line as it is printed, with its level in five columns. -/
def Line.printed (line : Line) : String :=
  let name := line.level.name
  "[" ++ name ++ String.ofList (List.replicate (5 - name.length) ' ') ++ "] " ++ line.text

end Harvest.Log
