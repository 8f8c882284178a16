import Harvest.Service.Error
import Harvest.Text.Split

/-!
# Failures of commands

A command fails with a message and the chain of its causes, the nearest first, or it panics.
Design: `SPEC_FULL.md:209–210`.
-/

namespace Harvest

/-- The causes of a transport error. -/
def Transport.Error.causes : Transport.Error → List String
  | auth cause => [cause.message]
  | exhausted _ last => last.message :: last.causes
  | io detail => [detail]
  | _ => []

/-- The causes of a service error. An error that only passes another one on is not its cause. Where
there is no pool of workers, the cause is caused by the same words of the system. -/
def Service.Error.causes : Service.Error → List String
  | transport cause => cause.causes
  | workerPool detail => [detail, detail]
  | io detail => [detail]
  | _ => []

namespace Command

/-- How a command ends that has not done what it was asked for. -/
inductive Failure where
  | error (message : String) (causes : List String)
  | panic (message : String)
deriving DecidableEq, Repr, Inhabited

namespace Failure

/-- A failure without a cause. -/
def plain (message : String) : Failure := .error message []

/-- A failure that is caused by another one; a panic is the cause of nothing. -/
def because (message : String) : Failure → Failure
  | .error cause causes => .error message (cause :: causes)
  | .panic cause => .panic cause

/-- The failure that a transport error is. -/
def ofTransport (e : Transport.Error) : Failure := .error e.message e.causes

/-- The failure that a service error is. -/
def ofService (e : Service.Error) : Failure := .error e.message e.causes

/-- The failure that a halt of planning is. -/
def ofHalt : Plan.Halt → Failure
  | .refused e => .plain e.message
  | .capacityOverflow => .panic Plan.Halt.capacityOverflow.message

/-- A cause with a margin on each of its lines; `first` stands before the first one. -/
def indented (first margin cause : String) : String :=
  let lines := (Text.splitAt '\n' cause.toList).map String.ofList
  first ++ ("\n" ++ margin).intercalate lines

/-- The number of a cause, in five columns. -/
def numbered (n : Nat) : String :=
  let digits := toString n
  String.ofList (List.replicate (5 - digits.length) ' ') ++ digits ++ ": "

/-- The lines about causes; they are numbered where there is more than one. -/
def causeLines : List String → List String
  | [] => []
  | [cause] => [indented "    " "    " cause]
  | causes => causes.zipIdx.map fun (cause, n) ↦ indented (numbered n) "       " cause

/-- What is printed about causes. -/
def causesText (causes : List String) : String :=
  match causeLines causes with
  | [] => ""
  | lines => "\n\nCaused by:\n" ++ "\n".intercalate lines

/-- What is printed about a failure. -/
def text : Failure → String
  | .error message causes => "Error: " ++ message ++ causesText causes ++ "\n"
  | .panic message => "thread 'main' panicked:\n" ++ message ++ "\n"

/-- The exit code of a command that fails. One that panics is aborted. -/
def code : Failure → Nat
  | .error .. => 1
  | .panic _ => 134

end Failure

end Command

end Harvest
