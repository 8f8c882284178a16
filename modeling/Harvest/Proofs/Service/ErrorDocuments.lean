import Harvest.Proofs.Json.Optional
import Harvest.Service.Detail

/-!
# Errors that services tell

An error document holds an error, and that a message: a text, or an object with the text under
`value`. There may be a code, which may be `null`. Names are not repeated, other entries do not
matter, and in place of an object there may be a list of its fields in order.
-/

namespace Harvest.Service

open Text (Bytes)
open Json (Decodes Shape Value takeInOrder takeOnly takeOnly_nil takeOnly_none_cons
  takeOnly_some_cons)

variable {v : Value} {es : List (String × Value)} {code : Option String} {message text : String}
  {e : ToldError} {body : Bytes}

/-! ## What values tell -/

/-- A message: a text, or an object with the text under `value`. -/
inductive IsMessage : Value → String → Prop
  | plain (text : String) : IsMessage (.string text) text
  | localized {v : Value} {text : String} (h : v.only? "value" = some (.string text)) :
      IsMessage v text

/-- The code among the values under its name. -/
inductive IsCode : List Value → Option String → Prop
  | missing : IsCode [] none
  | null : IsCode [.null] none
  | present (code : String) : IsCode [.string code] (some code)

/-- An error: an object with one message and a code or none, or a list of the two. -/
inductive TellsError : Value → ToldError → Prop
  | object {es : List (String × Value)} {code : Option String} {v : Value} {message : String}
      (hcode : IsCode ((Value.object es).all "code") code)
      (h : (Value.object es).only? "message" = some v) (hmessage : IsMessage v message) :
      TellsError (.object es) ⟨code, message⟩
  | list {c v : Value} {code : Option String} {message : String} (hcode : IsCode [c] code)
      (hmessage : IsMessage v message) : TellsError (.array [c, v]) ⟨code, message⟩

/-- A body is an error document that tells of an error. -/
def TellsOf (body : Bytes) (e : ToldError) : Prop :=
  Json.readAll (documentShape.read Json.depthLimit) body = .ok e

/-- The error that is read off a body is the one that the body tells of. -/
theorem toldError?_eq_some_iff : toldError? body = some e ↔ TellsOf body e := by
  rw [toldError?, TellsOf]
  cases Json.readAll (documentShape.read Json.depthLimit) body <;> simp [Except.toOption]

/-- No error is read off a body that tells of none. -/
theorem toldError?_eq_none_iff : toldError? body = none ↔ ∀ e, ¬TellsOf body e := by
  simp only [← toldError?_eq_some_iff, Option.eq_none_iff_forall_ne_some]

/-! ## Fields -/

private theorem messageText_eq_some_iff : messageText v = some text ↔ IsMessage v text := by
  have hlocalized : (v.only? "value").bind Value.string? = some text ↔
      v.only? "value" = some (.string text) := by
    simp [Option.bind_eq_some_iff, Value.string?_eq_some_iff]
  constructor
  · intro h
    rw [messageText.eq_def] at h
    split at h
    · rw [← Option.some.inj h]
      exact .plain _
    · exact .localized (hlocalized.mp h)
  · intro h
    cases h with
    | plain => rfl
    | localized h =>
      rw [messageText.eq_def]
      split
      · cases h
      · exact hlocalized.mpr h

private theorem decodes_message : Decodes readMessage messageText := by
  intro depth input v rest h
  refine .of_ok h ?_
  cases messageText v with
  | some text => rfl
  | none =>
    rintro _ _ ⟨⟩

/-- What an error takes from the value of one of its fields. -/
def takeField (name : String) (v : Value) : Option (PartialError → PartialError) :=
  if name = "code" then
    (v.optional? Value.string?).map fun code e ↦ { e with code := some code }
  else (messageText v).map fun message e ↦ { e with message := some message }

private theorem decodes_error : Decodes errorShape.read (errorShape.ofValue takeField) := by
  apply Shape.decodes
  intro field hfield
  simp only [errorShape, List.mem_cons, List.not_mem_nil, or_false] at hfield
  rcases hfield with rfl | rfl
  · exact (Json.decodes_string.optional).map _
  · exact decodes_message.map _

private theorem takeEntry_error (state : PartialError) (name : String) (v : Value) :
    errorShape.takeEntry takeField state (name, v) =
      if name = "code" then
        if state.code.isSome then none
        else (v.optional? Value.string?).map fun code ↦ { state with code := some code }
      else if name = "message" then
        if state.message.isSome then none
        else (messageText v).map fun message ↦ { state with message := some message }
      else some state := by
  by_cases hcode : name = "code"
  · subst hcode
    simp [Shape.takeEntry, errorShape, takeField, Function.comp_def]
  by_cases hmessage : name = "message"
  · subst hmessage
    simp [Shape.takeEntry, errorShape, takeField, Function.comp_def]
  · simp [Shape.takeEntry, errorShape, hcode, hmessage, Ne.symm hcode, Ne.symm hmessage]

/-- Codes and messages are taken from the entries that have their names. -/
theorem foldlM_takeEntry_error (state : PartialError) (es : List (String × Value)) :
    es.foldlM (errorShape.takeEntry takeField) state =
      (takeOnly (Value.optional? Value.string?) state.code
        ((Value.object es).all "code")).bind fun code ↦
      (takeOnly messageText state.message ((Value.object es).all "message")).map
        fun message ↦ ⟨code, message⟩ := by
  induction es generalizing state with
  | nil => simp [Value.all, takeOnly_nil]
  | cons e es ih =>
    obtain ⟨name, v⟩ := e
    rw [List.foldlM_cons, takeEntry_error, Value.all_object_cons, Value.all_object_cons]
    by_cases hcode : name = "code"
    · subst hcode
      cases hstate : state.code with
      | some code => simp [takeOnly_some_cons]
      | none =>
        cases hv : v.optional? Value.string? with
        | none => simp [takeOnly_none_cons, hv]
        | some code => simp [takeOnly_none_cons, hv, ih]
    by_cases hmessage : name = "message"
    · subst hmessage
      cases hstate : state.message with
      | some message => simp [takeOnly_some_cons]
      | none =>
        cases hv : messageText v with
        | none => simp [takeOnly_none_cons, hv]
        | some message => simp [takeOnly_none_cons, hv, ih]
    · simp [hcode, hmessage, ih]

/-! ## Documents -/

private theorem optional?_string?_eq_some_iff :
    v.optional? Value.string? = some code ↔ IsCode [v] code := by
  constructor
  · intro h
    cases v with
    | null =>
      rw [← Option.some.inj h]
      exact .null
    | string text =>
      rw [← Option.some.inj h]
      exact .present text
    | bool | number | array | object => cases h
  · intro h
    cases h <;> rfl

/-- A code is taken where the values under its name say one or none. -/
theorem takeOnly_code_iff {vs : List Value} :
    (∃ taken, takeOnly (Value.optional? Value.string?) none vs = some taken ∧
      taken.join = code) ↔ IsCode vs code := by
  match vs with
  | [] =>
    constructor
    · rintro ⟨taken, h, rfl⟩
      rw [← Option.some.inj h]
      exact .missing
    · rintro ⟨⟩
      exact ⟨none, rfl, rfl⟩
  | [v] =>
    rw [← optional?_string?_eq_some_iff, takeOnly]
    cases v.optional? Value.string? <;> simp
  | v :: w :: vs =>
    constructor
    · rintro ⟨taken, h, -⟩
      cases h
    · rintro ⟨⟩

private theorem takeOnly_message_eq_some_iff :
    takeOnly messageText none (v.all "message") = some (some message) ↔
      ∃ w, v.only? "message" = some w ∧ IsMessage w message := by
  rw [Value.only?]
  rcases v.all "message" with _ | ⟨w, _ | ⟨w', ws⟩⟩
  · simp [takeOnly]
  · simp [takeOnly, messageText_eq_some_iff]
  · simp [takeOnly]

private theorem PartialError.finish_eq_some_iff {state : PartialError} :
    state.finish.toOption = some e ↔ state.message = some e.message ∧ state.code.join = e.code := by
  obtain ⟨code, message⟩ := state
  obtain ⟨code', message'⟩ := e
  cases message with
  | none => simp [PartialError.finish, Json.require, Except.toOption, bind, Except.bind]
  | some message =>
    simp [PartialError.finish, Json.require, Except.toOption, bind, Except.bind, pure, Except.pure,
      and_comm]

/-- An object tells an error by the entries for its code and its message. -/
theorem ofValue_error_object_eq_some_iff :
    errorShape.ofValue takeField (.object es) = some e ↔ TellsError (.object es) e := by
  obtain ⟨code, message⟩ := e
  have hfold := foldlM_takeEntry_error errorShape.start es
  constructor
  · intro h
    obtain ⟨state, hstate, hfinish⟩ := Option.bind_eq_some_iff.mp h
    obtain ⟨taken, hcode, hstate⟩ := Option.bind_eq_some_iff.mp (hfold.symm.trans hstate)
    obtain ⟨told, hmessage, rfl⟩ := Option.map_eq_some_iff.mp hstate
    obtain ⟨rfl, hjoin⟩ := PartialError.finish_eq_some_iff.mp hfinish
    obtain ⟨w, hw, hmessage⟩ := takeOnly_message_eq_some_iff.mp hmessage
    exact .object (takeOnly_code_iff.mp ⟨taken, hcode, hjoin⟩) hw hmessage
  · intro h
    cases h with
    | object hcode hw hmessage =>
      obtain ⟨taken, hcode, hjoin⟩ := takeOnly_code_iff.mpr hcode
      have hmessage := takeOnly_message_eq_some_iff.mpr ⟨_, hw, hmessage⟩
      refine Option.bind_eq_some_iff.mpr ⟨⟨taken, some message⟩, ?_,
        PartialError.finish_eq_some_iff.mpr ⟨rfl, hjoin⟩⟩
      rw [hfold]
      exact Option.bind_eq_some_iff.mpr ⟨taken, hcode, Option.map_eq_some_iff.mpr
        ⟨some message, hmessage, rfl⟩⟩

/-- The fields of an error are in a list of two elements. -/
theorem ofValue_error_array {vs : List Value} (hvs : ∀ c v, vs ≠ [c, v]) :
    errorShape.ofValue takeField (.array vs) = none := by
  rw [Shape.ofValue]
  match vs with
  | [] => rfl
  | [c] =>
    rw [errorShape, takeInOrder]
    cases takeField "code" c <;> rfl
  | [c, v] => exact absurd rfl (hvs c v)
  | c :: v :: w :: vs =>
    rw [errorShape, takeInOrder]
    cases takeField "code" c with
    | none => rfl
    | some assign =>
      rw [Option.bind_some, takeInOrder]
      cases takeField "message" v <;> rfl

private theorem ofValue_error_pair {c : Value} :
    errorShape.ofValue takeField (.array [c, v]) =
      (c.optional? Value.string?).bind fun code ↦
        (messageText v).map fun message ↦ ⟨code, message⟩ := by
  have hcode : takeField "code" c =
      (c.optional? Value.string?).map fun code e ↦ { e with code := some code } := if_pos rfl
  have hmessage : takeField "message" v =
      (messageText v).map fun message e ↦ { e with message := some message } :=
    if_neg (by decide)
  rw [Shape.ofValue, errorShape, takeInOrder, hcode]
  cases c.optional? Value.string? with
  | none => rfl
  | some code =>
    rw [Option.map_some, Option.bind_some, takeInOrder, hmessage]
    cases messageText v <;> rfl

/-- A list tells an error by its two elements. -/
theorem ofValue_error_array_eq_some_iff {vs : List Value} :
    errorShape.ofValue takeField (.array vs) = some e ↔ TellsError (.array vs) e := by
  by_cases hvs : ∃ c v, vs = [c, v]
  · obtain ⟨c, v, rfl⟩ := hvs
    simp only [ofValue_error_pair, Option.bind_eq_some_iff, Option.map_eq_some_iff,
      optional?_string?_eq_some_iff, messageText_eq_some_iff]
    constructor
    · rintro ⟨code, hcode, message, hmessage, rfl⟩
      exact .list hcode hmessage
    · intro h
      cases h with
      | list hcode hmessage => exact ⟨_, hcode, _, hmessage, rfl⟩
  · rw [ofValue_error_array fun c v h ↦ hvs ⟨c, v, h⟩]
    constructor
    · intro h
      cases h
    · intro h
      cases h
      exact absurd ⟨_, _, rfl⟩ hvs

/-- An error is read of a value that tells it. -/
theorem ofValue_error_eq_some_iff : errorShape.ofValue takeField v = some e ↔ TellsError v e := by
  cases v with
  | object es => exact ofValue_error_object_eq_some_iff
  | array vs => exact ofValue_error_array_eq_some_iff
  | null | bool | number | string =>
    constructor
    · intro h
      cases h
    · intro h
      cases h

/-- A document holds an error: under the name for it, or as the one element of a list. -/
inductive HoldsError : Value → ToldError → Prop
  | object {v w : Value} {e : ToldError} (h : v.only? "error" = some w) (htells : TellsError w e) :
      HoldsError v e
  | list {w : Value} {e : ToldError} (htells : TellsError w e) : HoldsError (.array [w]) e

/-- What tells of an error starts with a bracket. -/
theorem TellsOf.opens (h : TellsOf body e) : ∃ b start,
    body.dropWhile Json.isBlankByte = b :: start ∧ (Json.opened b).isSome = true := by
  obtain ⟨rest, hread, -⟩ := Json.readAll_eq_ok_iff.mp h
  exact Shape.opened_of_read hread

private theorem decodes_document : Decodes documentShape.read
    fun v ↦ (v.held "error").bind (errorShape.ofValue takeField) := by
  have hdecodes : Decodes documentShape.read _ :=
    documentShape.decodes (fun _ v ↦ (errorShape.ofValue takeField v).map fun e _ ↦ some e)
      (List.forall_mem_singleton.mpr (decodes_error.map _))
  intro depth input v rest h
  have hread := hdecodes depth input v rest h
  rwa [Shape.ofValue_of_single rfl rfl rfl rfl rfl] at hread

/-- A body that is parsed tells of the error that its value holds. -/
theorem tellsOf_iff (h : Json.parse body = .ok v) : TellsOf body e ↔ HoldsError v e := by
  rw [TellsOf, decodes_document.readAll_eq_ok_iff h, Option.bind_eq_some_iff]
  constructor
  · rintro ⟨w, hheld, hw⟩
    rw [ofValue_error_eq_some_iff] at hw
    rcases Value.held_eq_some_iff.mp hheld with honly | rfl
    · exact .object honly hw
    · exact .list hw
  · intro hholds
    cases hholds with
    | object honly hw =>
      exact ⟨_, Value.held_eq_some_iff.mpr (.inl honly), ofValue_error_eq_some_iff.mpr hw⟩
    | list hw =>
      exact ⟨_, Value.held_eq_some_iff.mpr (.inr rfl), ofValue_error_eq_some_iff.mpr hw⟩

/-! ## Documents of errors -/

private theorem gets_message (depth : Nat) (text : String) :
    Json.Gets (readMessage depth) (Json.stringChars text) text := by
  intro blanks rest hblanks hparted
  rw [readMessage, Json.Reader.bind_of_ok (Json.gets_value_string depth text _ _ hblanks hparted)]
  rfl

/-- An error as a document has it. -/
def ToldError.entries (e : ToldError) : List (String × Value) :=
  match e.code with
  | some code => [("code", .string code), ("message", .string e.message)]
  | none => [("message", .string e.message)]

/-- The document of an error. -/
def ToldError.document (e : ToldError) : Value := .object [("error", .object e.entries)]

variable {depth level : Nat}

private theorem gets_error (e : ToldError) :
    Json.Gets (errorShape.read (depth + 1)) ((Value.object e.entries).prettyChars level) e := by
  obtain ⟨code, message⟩ := e
  have hmessage := (gets_message depth message).map fun message (e : PartialError) ↦
    { e with message := some message }
  cases code with
  | none => exact Shape.gets_object (.field rfl rfl hmessage (.nil _)) rfl
  | some code =>
    have hcode := (Json.gets_optional_string code).map fun code (e : PartialError) ↦
      { e with code := some code }
    exact Shape.gets_object (.field rfl rfl hcode (.field rfl rfl hmessage (.nil _))) rfl

/-- Every error is told by its document. -/
theorem tellsOf_document (e : ToldError) : TellsOf (Text.encode (e.document.prettyChars 0)) e := by
  have herror : Json.Gets (errorShape.read (Json.depthLimit - 1))
      ((Value.object e.entries).prettyChars 1) e := gets_error e
  have hfield := herror.map fun e (_ : Option ToldError) ↦ some e
  have hread : Json.Gets (documentShape.read Json.depthLimit) (e.document.prettyChars 0) e :=
    Shape.gets_object (.field rfl rfl hfield (.nil _)) rfl
  exact hread.readAll_encode

end Harvest.Service
