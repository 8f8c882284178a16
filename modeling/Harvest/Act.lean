import Harvest.Duration
import Harvest.Http.Message
import Harvest.Log

/-!
# Acts

An act works on a state and leaves a trace: what was reported, sent, fetched, waited for and
printed, in order. The trace of two acts one after the other is the trace of the first followed by
that of the second.
-/

namespace Harvest

/-- Where texts are printed. -/
inductive Stream where
  | output
  | errors
deriving DecidableEq, Repr

/-- Something that an act does besides changing its state. -/
inductive Event where
  | log (line : Log.Line)
  | request (request : Http.Request)
  | form (url : Url) (fields : Http.Form)
  | tokenFetch
  | sleep (delay : Duration)
  | print (stream : Stream) (text : String)
deriving DecidableEq, Repr

/-- What an act comes to. -/
structure Act.Result (σ α : Type) where
  value : α
  trace : List Event
  state : σ

/-- A computation on states of type `σ` that leaves a trace. -/
def Act (σ α : Type) := σ → Act.Result σ α

namespace Act

variable {σ τ α β : Type}

/-- Run an act. -/
def run (act : Act σ α) (state : σ) : Result σ α := act state

/-- The act that does nothing. -/
protected def pure (a : α) : Act σ α := fun state ↦ ⟨a, [], state⟩

/-- One act after another. -/
protected def bind (act : Act σ α) (next : α → Act σ β) : Act σ β := fun state ↦
  let first := act.run state
  let second := (next first.value).run first.state
  ⟨second.value, first.trace ++ second.trace, second.state⟩

instance : Monad (Act σ) where
  pure := Act.pure
  bind := Act.bind

/-- Leave one event in the trace. -/
def emit (event : Event) : Act σ Unit := fun state ↦ ⟨(), [event], state⟩

/-- Report a line. -/
def report (level : Log.Level) (source : Log.Source) (text : String) : Act σ Unit :=
  emit (.log ⟨level, source, text⟩)

/-- Report lines in order. -/
def reportAll (lines : List Log.Line) : Act σ Unit := fun state ↦ ⟨(), lines.map .log, state⟩

/-- The state. -/
def get : Act σ σ := fun state ↦ ⟨state, [], state⟩

/-- Change the state. -/
def modify (change : σ → σ) : Act σ Unit := fun state ↦ ⟨(), [], change state⟩

/-- Apply a function that gives a value and the next state. -/
def step (f : σ → α × σ) : Act σ α := fun state ↦ ⟨(f state).1, [], (f state).2⟩

/-- Act on a part of a state. -/
def on (part : τ → σ) (put : σ → τ → τ) (act : Act σ α) : Act τ α := fun state ↦
  let result := act.run (part state)
  ⟨result.value, result.trace, put result.state state⟩

/-- A value that is given leaves no trace and keeps the state. -/
@[simp] theorem run_pure (a : α) (state : σ) :
    (Pure.pure a : Act σ α).run state = ⟨a, [], state⟩ := rfl

/-- The second act goes on with the value and the state of the first, and adds to its trace. -/
theorem run_bind (act : Act σ α) (next : α → Act σ β) (state : σ) :
    (act >>= next).run state =
      ⟨((next (act.run state).value).run (act.run state).state).value,
        (act.run state).trace ++ ((next (act.run state).value).run (act.run state).state).trace,
        ((next (act.run state).value).run (act.run state).state).state⟩ := rfl

/-- An event that is left changes nothing else. -/
@[simp] theorem run_emit (event : Event) (state : σ) :
    (emit event).run state = ⟨(), [event], state⟩ := rfl

/-- A line that is reported changes nothing else. -/
@[simp] theorem run_report (level : Log.Level) (source : Log.Source) (text : String) (state : σ) :
    (report level source text).run state = ⟨(), [.log ⟨level, source, text⟩], state⟩ := rfl

end Act

/-- The lines that a trace reports. -/
def Event.lines (trace : List Event) : List Log.Line :=
  trace.filterMap fun
    | .log l => some l
    | _ => none

/-- A trace without what it reports. -/
def Event.effects (trace : List Event) : List Event :=
  trace.filter fun
    | .log _ => false
    | _ => true

/-- The effects of two traces follow on each other. -/
theorem Event.effects_append (trace other : List Event) :
    Event.effects (trace ++ other) = Event.effects trace ++ Event.effects other :=
  List.filter_append ..

/-- Reports have no effect. -/
theorem Event.effects_log (line : Log.Line) (trace : List Event) :
    Event.effects (.log line :: trace) = Event.effects trace := rfl

/-- Nor has a report at the end of a trace. -/
theorem Event.effects_append_log (trace : List Event) (line : Log.Line) :
    Event.effects (trace ++ [.log line]) = Event.effects trace := by
  simp [Event.effects]

/-- The requests of a trace. -/
def Event.requests (trace : List Event) : List Http.Request :=
  trace.filterMap fun
    | .request r => some r
    | _ => none

/-- The delays of a trace. -/
def Event.delays (trace : List Event) : List Duration :=
  trace.filterMap fun
    | .sleep delay => some delay
    | _ => none

end Harvest
