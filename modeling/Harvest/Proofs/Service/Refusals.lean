import Harvest.Proofs.Service.ErrorDocuments
import Harvest.Proofs.Service.Verdicts
import Harvest.Proofs.Text.Blank
import Harvest.Proofs.Text.Boundary

/-!
# Words of refusals

The error of an operation that is refused has the words of the service: the error that the body
tells of, or else the beginning of the body, or else the reason of the status line. A beginning
keeps to a limit on its bytes. An error that is told is worded in full, whatever its size.
-/

namespace Harvest.Service

open Http (Response)
open Text (IsBeginning Retreats Strips)

variable {r : Response} {e : ToldError}

/-! ## Details -/

/-- A body is no error document. -/
def TellsNothing (body : Text.Bytes) : Prop := ∀ e, ¬TellsOf body e

/-- A body is told of at most one error. -/
theorem TellsOf.unique {body : Text.Bytes} {e e' : ToldError} (h : TellsOf body e)
    (h' : TellsOf body e') : e = e' :=
  Except.ok.inj (h.symm.trans h')

/-- The words for an answer that refuses a request. Where a beginning of the body is shown, it is
what is left of its bytes up to the place where a search from the limit on downwards ends. -/
structure Details (r : Response) (text : String) : Prop where
  coded : ∀ code message, TellsOf r.body ⟨some code, message⟩ → text = code ++ ": " ++ message
  plain : ∀ message, TellsOf r.body ⟨none, message⟩ → text = message
  reason : TellsNothing r.body → Strips (Text.decodeLossy r.body) [] → text = r.reason
  beginning : ∀ within, TellsNothing r.body → Strips (Text.decodeLossy r.body) within →
    within ≠ [] → IsBeginning detailLimit within text.toList ∧
      ∃ place, Retreats (Text.encode within) (min (Text.encode within).length detailLimit) place ∧
        Text.bytesOf text = (Text.encode within).take place

private theorem detail_of_tellsOf (h : TellsOf r.body e) : detail r = e.wording := by
  rw [detail, toldError?_eq_some_iff.mpr h]

private theorem detail_of_blank (h : TellsNothing r.body)
    (hblank : Strips (Text.decodeLossy r.body) []) :
    detail r = r.reason := by
  have htext : r.text.toList = Text.decodeLossy r.body := String.toList_ofList
  rw [detail, toldError?_eq_none_iff.mpr h, htext, hblank.trimChars_eq]

private theorem detail_of_strips {within : List Char} (h : TellsNothing r.body)
    (hwithin : Strips (Text.decodeLossy r.body) within) (hne : within ≠ []) :
    detail r = String.ofList (Text.beginning detailLimit within) := by
  have htext : r.text.toList = Text.decodeLossy r.body := String.toList_ofList
  rw [detail, toldError?_eq_none_iff.mpr h, htext, hwithin.trimChars_eq]
  cases within with
  | nil => exact absurd rfl hne
  | cons c cs => rfl

private theorem details_detail (r : Response) : Details r (detail r) := by
  refine ⟨?_, ?_, ?_, ?_⟩
  · intro code message h
    exact detail_of_tellsOf h
  · intro message h
    exact detail_of_tellsOf h
  · intro h hblank
    exact detail_of_blank h hblank
  · intro within h hwithin hne
    obtain ⟨hbeginning, hcut⟩ := Text.beginning_spec detailLimit within
    rw [detail_of_strips h hwithin hne, Text.bytesOf, String.toList_ofList]
    exact ⟨hbeginning, _, Text.retreats_lastBoundary _ _, hcut⟩

/-! ## Refused operations -/

/-- An operation makes a request that the given answer refuses. -/
structure IsRefused {σ : Type} (s : Service σ) (world : World σ) (operation : Session.Operation)
    (name : String) (response : Response) : Prop where
  answered : ∃ url accept, operation.request? s = some (name, url, accept) ∧
    (s.called url accept world).value = .ok response
  refused : response.isSuccess = false

/-- An operation that is refused fails with the status and the detail of the answer. -/
theorem IsRefused.answer_eq {σ : Type} {s : Service σ} {world : World σ}
    {operation : Session.Operation} {name : String} (h : IsRefused s world operation name r) :
    ((s.perform operation).run world).value.answer =
      .error (.unexpectedStatus name r.status (detail r)) := by
  obtain ⟨⟨url, accept, hrequest, hresponse⟩, hrefused⟩ := h
  apply (goesBy_perform hrequest world).of_error
  rw [hresponse, verdict, if_neg (by simp [hrefused])]

/-- The detail of an answer is the error that its body tells of, with its code if it has one, or
else the longest beginning of its body within the limit, or else its reason. A body that is parsed
tells of the error that is in it, and one that starts with no bracket tells of none. An operation
that is refused fails with the detail of the answer. -/
theorem refusal_has_details (response : Response) :
    Details response (detail response) ∧
      (∀ v, Json.parse response.body = .ok v →
        ∀ e, TellsOf response.body e ↔ HoldsError v e) ∧
      (∀ e, TellsOf response.body e → ∃ b start,
        response.body.dropWhile Json.isBlankByte = b :: start ∧ (Json.opened b).isSome = true) ∧
      ∀ (σ : Type) (s : Service σ) (world : World σ) (operation : Session.Operation)
        (name : String), IsRefused s world operation name response →
          ((s.perform operation).run world).value.answer =
            .error (.unexpectedStatus name response.status (detail response)) := by
  refine ⟨details_detail response, ?_, ?_, ?_⟩
  · intro v hparse e
    exact tellsOf_iff hparse
  · intro e h
    exact h.opens
  · intro σ s world operation name h
    exact h.answer_eq

/-- A request that is answered with the status of a bad one is refused. -/
theorem isRefused_probe (body : Text.Bytes) :
    IsRefused asked (answering ⟨400, "Bad Request", none, body⟩) .probe "probe"
      ⟨400, "Bad Request", none, body⟩ :=
  ⟨⟨_, _, rfl, value_called_asked rfl _ _⟩, rfl⟩

/-- A character of two bytes that stands across the limit is left out. -/
theorem refusal_has_details_across_limit :
    let cs := List.replicate 511 'a'
    let response : Response := ⟨400, "Bad Request", none, Text.encode (cs ++ ['é'])⟩
    IsRefused asked (answering response) .probe "probe" response ∧
      ((asked.perform .probe).run (answering response)).value.answer =
        .error (.unexpectedStatus "probe" 400 (String.ofList cs)) := by
  intro cs response
  have hrefused : IsRefused asked (answering response) .probe "probe" response := isRefused_probe _
  obtain ⟨hdetails, -, hopens, hanswer⟩ := refusal_has_details response
  have hnone : TellsNothing response.body := by
    intro e he
    obtain ⟨b, start, hbody, hb⟩ := hopens e he
    have hfirst : (response.body.dropWhile Json.isBlankByte).head? = some (Json.byte 'a') := by
      decide +kernel
    rw [hbody, List.head?_cons, Option.some.injEq] at hfirst
    rw [hfirst] at hb
    exact absurd hb (by decide)
  have hwithin : Strips (Text.decodeLossy response.body) (cs ++ ['é']) := by
    have htrim : Text.trimChars (cs ++ ['é']) = cs ++ ['é'] := by decide +kernel
    have hstrips := Text.strips_trimChars (cs ++ ['é'])
    rw [htrim] at hstrips
    rw [Text.decodeLossy_encode]
    exact hstrips
  obtain ⟨hbeginning, -⟩ := hdetails.beginning _ hnone hwithin (by simp)
  have hshort : (Text.encode cs).length ≤ detailLimit := by decide +kernel
  have hlong : ¬(Text.encode (cs ++ ['é'])).length ≤ detailLimit := by decide +kernel
  have htext : (detail response).toList = cs := by
    have hle := hbeginning.longest cs (List.prefix_append _ _) hshort
    rcases List.prefix_concat_iff.mp hbeginning.isPrefix with hwhole | hpart
    · exact absurd (hwhole ▸ hbeginning.fits) hlong
    · exact hpart.eq_of_length_le hle.length_le
  refine ⟨hrefused, ?_⟩
  rw [hanswer _ _ _ _ _ hrefused, ← htext, String.ofList_toList]

/-! ## Quotations -/

/-- How many bytes texts take together. -/
def bytesIn (texts : List String) : Nat := (texts.map fun text ↦ (Text.bytesOf text).length).sum

private theorem bytesIn_ofList (cs : List Char) :
    bytesIn [String.ofList cs] = (Text.encode cs).length := by
  simp [bytesIn, Text.bytesOf]

/-- The texts of an error. -/
def ToldError.parts (e : ToldError) : List String := e.code.toList ++ [e.message]

/-- The words for an answer that refuses a request, and what of them is from its body. -/
inductive Quotes (r : Response) : String → List String → Prop
  | told {e : ToldError} (h : TellsOf r.body e) : Quotes r e.wording e.parts
  | beginning {within part : List Char} (h : TellsNothing r.body)
      (hwithin : Strips (Text.decodeLossy r.body) within) (hne : within ≠ [])
      (hpart : part <+: within) : Quotes r (String.ofList part) [String.ofList part]
  | reason (h : TellsNothing r.body) (hblank : Strips (Text.decodeLossy r.body) []) :
      Quotes r r.reason []

/-- A detail keeps to the limit unless it words an error that does not. -/
theorem exists_quotes_detail (r : Response) : ∃ quoted, Quotes r (detail r) quoted ∧
    (bytesIn quoted ≤ detailLimit ↔ ∀ e, TellsOf r.body e → bytesIn e.parts ≤ detailLimit) := by
  by_cases htold : ∃ e, TellsOf r.body e
  · obtain ⟨e, he⟩ := htold
    rw [detail_of_tellsOf he]
    refine ⟨e.parts, .told he, ?_⟩
    constructor
    · intro hle e' he'
      exact he'.unique he ▸ hle
    · intro hall
      exact hall e he
  have hnone : TellsNothing r.body := not_exists.mp htold
  have hall : ∀ e, TellsOf r.body e → bytesIn e.parts ≤ detailLimit :=
    fun e he ↦ absurd he (hnone e)
  have hwithin := Text.strips_trimChars (Text.decodeLossy r.body)
  generalize Text.trimChars (Text.decodeLossy r.body) = within at hwithin
  by_cases hne : within = []
  · subst hne
    rw [detail_of_blank hnone hwithin]
    exact ⟨[], .reason hnone hwithin, iff_of_true (Nat.zero_le _) hall⟩
  · obtain ⟨hbeginning, -⟩ := Text.beginning_spec detailLimit within
    rw [detail_of_strips hnone hwithin hne]
    refine ⟨_, .beginning hnone hwithin hne hbeginning.isPrefix, iff_of_true ?_ hall⟩
    rw [bytesIn_ofList]
    exact hbeginning.fits

/-- The detail of an answer takes no more of its body than the limit allows for unless the body
tells of an error: that is worded in full, so there is no text that is not the detail of some
answer. An operation that is refused fails with the detail of the answer. -/
theorem refusal_quotes_body (response : Response) :
    (∃ quoted, Quotes response (detail response) quoted ∧
        (bytesIn quoted ≤ detailLimit ↔
          ∀ e, TellsOf response.body e → bytesIn e.parts ≤ detailLimit)) ∧
      (∀ text, ∃ body, ∀ other : Response, other.body = body → detail other = text) ∧
      ∀ (σ : Type) (s : Service σ) (world : World σ) (operation : Session.Operation)
        (name : String), IsRefused s world operation name response →
          ((s.perform operation).run world).value.answer =
            .error (.unexpectedStatus name response.status (detail response)) := by
  refine ⟨exists_quotes_detail response, ?_, ?_⟩
  · intro text
    let e : ToldError := ⟨none, text⟩
    refine ⟨Text.encode (e.document.prettyChars 0), ?_⟩
    intro other hbody
    have htold : TellsOf other.body e := hbody ▸ tellsOf_document e
    exact detail_of_tellsOf htold
  · intro σ s world operation name h
    exact h.answer_eq

/-- A message of one byte more than the limit is quoted as a whole. -/
theorem refusal_quotes_body_beyond_limit :
    let e : ToldError := ⟨none, String.ofList (List.replicate 513 'a')⟩
    let response : Response := ⟨400, "Bad Request", none, Text.encode (e.document.prettyChars 0)⟩
    ((asked.perform .probe).run (answering response)).value.answer =
        .error (.unexpectedStatus "probe" 400 (detail response)) ∧
      ∃ quoted, Quotes response (detail response) quoted ∧ detailLimit < bytesIn quoted := by
  intro e response
  obtain ⟨⟨quoted, hquotes, hiff⟩, -, hanswer⟩ := refusal_quotes_body response
  have hsize : detailLimit < bytesIn e.parts := by
    rw [show e.parts = [String.ofList (List.replicate 513 'a')] from rfl, bytesIn_ofList]
    decide +kernel
  refine ⟨hanswer _ _ _ _ _ (isRefused_probe _), quoted, hquotes, Nat.lt_of_not_le fun hle ↦ ?_⟩
  exact Nat.not_le_of_lt hsize (hiff.mp hle e (tellsOf_document e))

end Harvest.Service
