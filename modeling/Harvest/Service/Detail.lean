import Harvest.Http.Message
import Harvest.Json.Record
import Harvest.Text.Blank
import Harvest.Text.Boundary

/-!
# Details of refusals

Why a service refused a request, in words. Services say so in an error document; where a body is
none, its beginning is shown, and where there is no body, the reason of the status line.
-/

namespace Harvest.Service

open Json (Value Problem Reader Shape Slot)

/-- How many bytes of a body that is no error document are shown. -/
def detailLimit : Nat := 512

/-- An error as a service tells it. -/
structure ToldError where
  code : Option String
  message : String
deriving DecidableEq, Repr

/-- The wording of an error: its message, behind its code where it has one. -/
def ToldError.wording (e : ToldError) : String :=
  match e.code with
  | some code => code ++ ": " ++ e.message
  | none => e.message

/-- The message of an error document: a text, or an object with the text under `value`. -/
def messageText : Value → Option String
  | .string text => some text
  | v => (v.only? "value").bind Value.string?

/-- Read the message of an error document. -/
def readMessage (depth : Nat) : Reader String := do
  match messageText (← Json.value depth) with
  | some text => return text
  | none => Reader.fail (.noVariant "ODataErrorMessage")

/-- The fields of an error that have been read. -/
structure PartialError where
  code : Option (Option String)
  message : Option String

/-- An error has a message, and may have a code. -/
def PartialError.finish (e : PartialError) : Except Problem ToldError := do
  return ⟨e.code.join, ← Json.require "message" e.message⟩

/-- How the error of an error document is read. -/
def errorShape : Shape PartialError ToldError where
  name := "ODataError"
  fields :=
    [{ name := "code"
       read _ := (fun code e ↦ { e with code := some code }) <$> Json.optional Json.string
       isSet e := e.code.isSome
       mayMiss := true },
      { name := "message"
        read depth := (fun message e ↦ { e with message := some message }) <$> readMessage depth
        isSet e := e.message.isSome
        mayMiss := false }]
  start := ⟨none, none⟩
  finish := PartialError.finish

/-- How an error document is read. -/
def documentShape : Shape (Option ToldError) ToldError where
  name := "ODataErrorBody"
  fields :=
    [{ name := "error"
       read depth := (fun e _ ↦ some e) <$> errorShape.read depth
       isSet := Option.isSome
       mayMiss := false }]
  start := none
  finish := Json.require "error"

/-- The error that a body tells of, if it is an error document. -/
def toldError? (body : Text.Bytes) : Option ToldError :=
  (Json.readAll (documentShape.read Json.depthLimit) body).toOption

/-- Why a request was refused. -/
def detail (r : Http.Response) : String :=
  match toldError? r.body with
  | some e => e.wording
  | none =>
    match Text.trimChars r.text.toList with
    | [] => r.reason
    | cs => String.ofList (Text.beginning detailLimit cs)

end Harvest.Service
