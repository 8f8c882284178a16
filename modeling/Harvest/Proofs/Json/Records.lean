import Harvest.Proofs.Json.Values

/-!
# Records of values

A record is read from the bytes of an object or a list, and so is a value. Where a value is read,
the record is as the value says: each field takes the entry with its name, which occurs once, the
other entries are skipped, and a list holds the fields in order.
-/

namespace Harvest.Json

open Text (Bytes)
open Reader

variable {α β σ : Type} {read : Reader α} {input start mid rest : Bytes} {b : UInt8} {a : α}
  {depth n index : Nat} {first : Bool} {v : Value} {vs : List Value} {es : List (String × Value)}
  {result : Option α} {s : Shape σ α} {take : String → Value → Option (σ → σ)} {state : σ}

/-! ## Results -/

/-- A reader comes to a result: to a value with what follows it, or to none. -/
def Comes (read : Reader α) (input rest : Bytes) : Option α → Prop
  | some a => read input = (.ok a, rest)
  | none => ∀ a more, read input ≠ (.ok a, more)

private theorem Comes.bind {next : α → Reader β} {f : α → Option β}
    (h : Comes read input mid result)
    (hnext : ∀ a, result = some a → Comes (next a) mid rest (f a)) :
    Comes (read >>= next) input rest (result.bind f) := by
  cases result with
  | none =>
    intro b more hb
    obtain ⟨a, mid, ha, -⟩ := bind_eq_ok hb
    exact h a mid ha
  | some a =>
    have hnext := hnext a rfl
    rw [Option.bind_some]
    cases hf : f a with
    | none =>
      rw [hf] at hnext
      intro b more hb
      rw [bind_of_ok h] at hb
      exact hnext b more hb
    | some b =>
      rw [hf] at hnext
      exact (bind_of_ok h next).trans hnext

/-- What is done first and gives a value does not change the result. -/
theorem Comes.of_ok {next : β → Reader α} {first : Reader β} {b : β}
    (hfirst : first input = (.ok b, mid)) (h : Comes (next b) mid rest result) :
    Comes (first >>= next) input rest result := by
  cases result with
  | none =>
    intro a more ha
    rw [bind_of_ok hfirst] at ha
    exact h a more ha
  | some a => exact (bind_of_ok hfirst next).trans h

/-- A function of what a reader gives comes to the function of its result. -/
theorem Comes.map (h : Comes read input rest result) (f : α → β) :
    Comes (f <$> read) input rest (result.map f) := by
  rw [Option.map_eq_bind]
  exact h.bind fun _ _ ↦ rfl

private theorem Comes.settle (h : Comes read input rest result) :
    Comes (settle read) input rest result := by
  cases result with
  | none => exact fun a more ha ↦ h a more (settle_eq_ok ha)
  | some a => exact settle_of_ok h

/-- What closes behind contents counts as if it were read after them. -/
theorem comes_closing {close : Reader Unit}
    (h : Comes (read >>= fun a ↦ close >>= fun _ ↦ pure a) input rest result) :
    Comes (closing read close) input rest result := by
  cases result with
  | none =>
    intro a more ha
    obtain ⟨mid, hread, hclose⟩ := closing_eq_ok ha
    refine h a more ?_
    rw [bind_of_ok hread, bind_of_ok hclose, pure_apply]
  | some a =>
    obtain ⟨a', mid, hread, h⟩ := bind_eq_ok h
    obtain ⟨_, more, hclose, h⟩ := bind_eq_ok h
    cases h
    exact closing_of_ok hread hclose

private theorem Comes.closing {close : Reader Unit} (h : Comes read input mid result)
    (hclose : close mid = (.ok (), rest)) : Comes (closing read close) input rest result := by
  refine comes_closing ?_
  rw [← Option.bind_fun_some result]
  exact h.bind fun a _ ↦ .of_ok hclose rfl

private theorem comes_unexpected {expected : String} (b : UInt8) (input rest : Bytes) :
    Comes (unexpected b expected : Reader α) input rest none :=
  fun a more h ↦ unexpected_gives (P := fun _ ↦ False) input a more h

/-! ## Readers of values -/

/-- A reader makes of each value what `f` makes of it. -/
def Decodes (read : Nat → Reader α) (f : Value → Option α) : Prop :=
  ∀ depth input v rest, value depth input = (.ok v, rest) → Comes (read depth) input rest (f v)

/-- A function of what is decoded is decoded by the same values. -/
theorem Decodes.map {read : Nat → Reader α} {f : Value → Option α} (h : Decodes read f)
    (g : α → β) : Decodes (fun depth ↦ g <$> read depth) fun v ↦ (f v).map g :=
  fun depth input v rest hv ↦ (h depth input v rest hv).map g

/-- What holds of all scalars holds of what is read as one; `null` starts with its letter and a
string with a quote. -/
theorem scalar_gives {P : Value → Prop} (hnull : b = byte 'n' → P .null)
    (hbool : ∀ c, P (.bool c)) (hnumber : ∀ number, P (.number number))
    (hstring : b = byte '"' → ∀ s, P (.string s)) : Gives (scalar b) P := by
  unfold scalar
  split
  · next hb => exact gives_bind fun _ ↦ gives_bind fun _ ↦ gives_pure (hnull hb)
  split
  · exact gives_bind fun _ ↦ gives_bind fun _ ↦ gives_pure (hbool true)
  split
  · exact gives_bind fun _ ↦ gives_bind fun _ ↦ gives_pure (hbool false)
  split
  · next hb => exact gives_bind fun _ ↦ gives_bind fun s ↦ gives_pure (hstring hb s)
  split
  · exact gives_bind fun number ↦ gives_pure (hnumber number)
  · exact gives_failNext _

/-- What does not start with a quote is refused where a string is read. -/
theorem comes_string_none (hinput : input.dropWhile isBlankByte = b :: start)
    (hb : b ≠ byte '"') : Comes string input rest none := by
  intro a more h
  rw [string, bind_of_ok (startOfValue_of_token hinput), if_neg hb] at h
  exact comes_unexpected b (b :: start) rest a more h

/-- Only a string has a text. -/
theorem Value.string?_eq_some_iff {text : String} :
    v.string? = some text ↔ v = .string text := by
  cases v <;> simp [string?]

/-- A reader of strings decodes the texts of strings. -/
theorem decodes_string : Decodes (fun _ ↦ string) Value.string? := by
  intro depth input v rest h
  cases hasValue_of_value h with
  | array hinput _ => exact comes_string_none hinput (by decide)
  | object hinput _ _ => exact comes_string_none hinput (by decide)
  | @scalar _ _ start _ b v hinput hopened hscalar =>
    by_cases hb : b = byte '"'
    · subst hb
      have hread : (restOfString >>= fun s ↦ pure (Value.string s)) start = (.ok v, rest) := hscalar
      obtain ⟨s, more, hs, hv⟩ := bind_eq_ok hread
      cases hv
      change string input = (.ok s, rest)
      rw [string, bind_of_ok (startOfValue_of_token hinput), if_pos rfl]
      exact hs
    · have hv : v.string? = none :=
        scalar_gives (P := fun v ↦ v.string? = none) (fun _ ↦ rfl) (fun _ ↦ rfl) (fun _ ↦ rfl)
          (fun heq ↦ absurd heq hb) _ _ _ hscalar
      rw [hv]
      exact comes_string_none hinput hb

/-! ## Fields -/

/-- What a record takes from an entry of an object: the first entry with the name of a field sets
that field, and there may be no other one. -/
def Shape.takeEntry (s : Shape σ α) (take : String → Value → Option (σ → σ)) (state : σ)
    (entry : String × Value) : Option σ :=
  match s.fields.find? (·.name == entry.1) with
  | some field =>
    if field.isSet state then none else (take field.name entry.2).map fun assign ↦ assign state
  | none => some state

/-- What a record takes from the elements of a list, one for each of its fields in order. -/
def takeInOrder (take : String → Value → Option (σ → σ)) :
    List (Slot σ) → List Value → σ → Option σ
  | [], [], state => some state
  | [], _ :: _, _ => none
  | field :: fields, [], state => if field.mayMiss then takeInOrder take fields [] state else none
  | field :: fields, v :: vs, state =>
    (take field.name v).bind fun assign ↦ takeInOrder take fields vs (assign state)

/-- The record that a value holds. -/
def Shape.ofValue (s : Shape σ α) (take : String → Value → Option (σ → σ)) : Value → Option α
  | .object es => (es.foldlM (s.takeEntry take) s.start).bind fun state ↦ (s.finish state).toOption
  | .array vs => (takeInOrder take s.fields vs s.start).bind fun state ↦ (s.finish state).toOption
  | _ => none

private theorem comes_finished (s : Shape σ α) (state : σ) (input : Bytes) :
    Comes (s.finished state) input input (s.finish state).toOption := by
  rw [Shape.finished]
  cases s.finish state with
  | ok a => rfl
  | error problem =>
    rintro _ _ ⟨⟩

/-- An entry is taken or skipped. -/
theorem comes_entry (htake : ∀ field ∈ s.fields, Decodes field.read (take field.name))
    {name : String} {before : Bytes} (hcolon : colon input = (.ok (), before))
    (hv : value depth before = (.ok v, rest)) :
    Comes (s.entry depth name state) input rest (s.takeEntry take state (name, v)) := by
  rw [Shape.entry, Shape.takeEntry]
  cases hfield : s.fields.find? (·.name == name) with
  | none => exact .of_ok hcolon (.of_ok (skip_of_value hv) rfl)
  | some field =>
    dsimp only
    split
    · rintro _ _ ⟨⟩
    · refine .of_ok hcolon ?_
      exact (htake field (List.mem_of_find?_eq_some hfield) depth before v rest hv).map _

/-- Entries are taken one after the other. -/
theorem comes_entries (htake : ∀ field ∈ s.fields, Decodes field.read (take field.name))
    (h : HasEntries (value depth) first input es rest) (hn : es.length < n) :
    Comes (entries (s.entry depth) n first state) input (byte '\x7d' :: rest)
      (es.foldlM (s.takeEntry take) state) := by
  induction h generalizing n state with
  | nil hend =>
    obtain ⟨n, rfl⟩ := Nat.exists_eq_succ_of_ne_zero (Nat.ne_zero_of_lt hn)
    exact .of_ok hend rfl
  | cons hnext hname hcolon hv _ ih =>
    obtain ⟨n, rfl⟩ := Nat.exists_eq_succ_of_ne_zero (Nat.ne_zero_of_lt hn)
    refine .of_ok hnext (.of_ok hname ?_)
    rw [List.foldlM_cons]
    exact (comes_entry htake hcolon hv).bind fun _ _ ↦ ih (Nat.lt_of_succ_lt_succ hn)

private theorem hasElement_of_closer (h : input.dropWhile isBlankByte = byte ']' :: rest) :
    hasElement first input = (.ok false, byte ']' :: rest) := by
  rw [hasElement, peekToken_bind, h]
  rfl

/-- A list is closed where its bracket comes next. -/
theorem closeList_eq_ok_iff :
    closeList input = (.ok (), rest) ↔ input.dropWhile isBlankByte = byte ']' :: rest := by
  constructor
  · intro h
    obtain h | ⟨b, more, hinput, h⟩ := peekToken_bind_eq_ok h
    · cases h
    dsimp only at h
    split at h
    · next hb =>
      cases h
      rw [hinput, hb, List.tail_cons]
    split at h
    · rw [advance_bind_cons, peekToken_bind] at h
      split at h <;> cases h
    · cases h
  · intro h
    rw [closeList, peekToken_bind, h]
    rfl

/-- Elements are taken one after the other, and none may be left. -/
theorem comes_fieldsInOrder {fields : List (Slot σ)}
    (htake : ∀ field ∈ fields, Decodes field.read (take field.name))
    (h : HasElements (value depth) first input vs rest) :
    Comes (s.fieldsInOrder depth fields index first state >>= fun state ↦ s.finished state >>=
      fun a ↦ closeList >>= fun _ ↦ pure a) input rest
      ((takeInOrder take fields vs state).bind fun state ↦ (s.finish state).toOption) := by
  induction fields generalizing index first state input vs with
  | nil =>
    have hread : s.fieldsInOrder depth [] index first state input = (.ok state, input) := rfl
    refine .of_ok hread ?_
    have hfinished := comes_finished s state input
    cases h with
    | nil hend =>
      obtain ⟨⟨⟩, -⟩ | ⟨-, more, hinput, hmore⟩ := hasElement_eq_ok hend
      cases hmore
      rw [takeInOrder, Option.bind_some, ← Option.bind_fun_some (s.finish state).toOption]
      exact hfinished.bind fun _ _ ↦ .of_ok (closeList_eq_ok_iff.mpr hinput) rfl
    | cons hnext _ _ =>
      rw [takeInOrder, Option.bind_none, ← Option.bind_fun_none (s.finish state).toOption]
      refine hfinished.bind fun _ _ a more ha ↦ ?_
      obtain ⟨_, _, hclose, _⟩ := bind_eq_ok ha
      rw [closeList_eq_ok_iff] at hclose
      rw [hasElement_of_closer hclose] at hnext
      cases hnext
  | cons field fields ih =>
    obtain ⟨hfield, htake⟩ := List.forall_mem_cons.mp htake
    rw [Shape.fieldsInOrder, bind_bind]
    cases h with
    | nil hend =>
      refine .of_ok hend ?_
      rw [takeInOrder, if_neg Bool.false_ne_true]
      cases field.mayMiss with
      | true => exact ih htake (.nil (hasElement_of_closer rfl))
      | false => rintro _ _ ⟨⟩
    | cons hnext hv h =>
      refine .of_ok hnext ?_
      rw [if_pos rfl, bind_bind, takeInOrder, Option.bind_assoc]
      exact (hfield _ _ _ _ hv).bind fun _ _ ↦ ih htake h

/-- A record is read as the value says. -/
theorem Shape.decodes (s : Shape σ α) (take : String → Value → Option (σ → σ))
    (htake : ∀ field ∈ s.fields, Decodes field.read (take field.name)) :
    Decodes s.read (s.ofValue take) := by
  intro depth input v rest h
  cases hasValue_of_value h with
  | array hinput h =>
    refine .of_ok (startOfValue_of_token hinput) (.of_ok (left_apply _) ?_)
    rw [if_pos rfl, list]
    refine (Comes.of_ok (advance_apply ..) (comes_closing ?_)).settle
    rw [bind_bind]
    exact comes_fieldsInOrder htake h
  | object hinput h hlength =>
    refine .of_ok (startOfValue_of_token hinput) (.of_ok (left_apply _) ?_)
    rw [if_neg (by decide), if_pos rfl, object]
    refine (Comes.of_ok (advance_apply ..) (Comes.closing ?_ (closeObject_cons rest))).settle
    exact (comes_entries htake h hlength).bind fun state _ ↦ comes_finished s state _
  | @scalar _ _ start _ b v hinput hopened hscalar =>
    refine .of_ok (startOfValue_of_token hinput) (.of_ok (left_apply _) ?_)
    have hlist : b ≠ byte '[' := by
      rintro rfl
      cases hopened
    have hobject : b ≠ byte '\x7b' := by
      rintro rfl
      cases hopened
    have hv : s.ofValue take v = none :=
      scalar_gives (P := fun v ↦ s.ofValue take v = none) (fun _ ↦ rfl) (fun _ ↦ rfl)
        (fun _ ↦ rfl) (fun _ _ ↦ rfl) _ _ _ hscalar
    rw [if_neg hlist, if_neg hobject, hv]
    exact comes_unexpected b (b :: start) rest

/-- A record is read from a bracket on. -/
theorem Shape.opened_of_read (h : s.read depth input = (.ok a, rest)) :
    ∃ b start, input.dropWhile isBlankByte = b :: start ∧ (opened b).isSome = true := by
  rw [Shape.read] at h
  obtain ⟨b, start, hinput, h⟩ := startOfValue_bind_eq_ok h
  refine ⟨b, start, hinput, ?_⟩
  rw [left_bind] at h
  by_cases hlist : b = byte '['
  · rw [hlist]
    rfl
  by_cases hobject : b = byte '\x7b'
  · rw [hobject]
    rfl
  rw [if_neg hlist, if_neg hobject] at h
  exact absurd h (comes_unexpected b (b :: start) rest a rest)

/-! ## Records with one field -/

/-- What a value holds under one name: as an object under that name, or as a list of one element. -/
def Value.held (name : String) : Value → Option Value
  | .array [v] => some v
  | v => v.only? name

/-- A record with a single field holds a value under its name, or in a list of just that value. -/
theorem Value.held_eq_some_iff {name : String} {w : Value} :
    v.held name = some w ↔ v.only? name = some w ∨ v = .array [w] := by
  unfold held
  split
  · simp [only?, all]
  · next hv =>
    have hne : v ≠ .array [w] := hv w
    simp [hne]

/-- An entry of an object counts under its own name. -/
theorem Value.all_object_cons (name : String) (e : String × Value) (es : List (String × Value)) :
    (Value.object (e :: es)).all name =
      if e.1 = name then e.2 :: (Value.object es).all name else (Value.object es).all name := by
  by_cases h : e.1 = name
  · simp [all, h]
  · simp [all, h]

section Single

variable {s : Shape (Option α) α} {field : Slot (Option α)} {f : Value → Option α}

private theorem takeEntry_of_single (hfields : s.fields = [field])
    (hset : field.isSet = Option.isSome) (state : Option α) (e : String × Value) :
    s.takeEntry (fun _ v ↦ (f v).map fun a _ ↦ some a) state e =
      if e.1 = field.name then if state.isSome then none else (f e.2).map some else some state := by
  by_cases h : e.1 = field.name
  · simp [Shape.takeEntry, hfields, hset, h, Function.comp_def]
  · simp [Shape.takeEntry, hfields, Ne.symm h, h]

/-- A field that is set is not set again. -/
theorem foldlM_takeEntry_some (hfields : s.fields = [field]) (hset : field.isSet = Option.isSome)
    (a : α) (es : List (String × Value)) :
    es.foldlM (s.takeEntry fun _ v ↦ (f v).map fun a _ ↦ some a) (some a) =
      if (Value.object es).all field.name = [] then some (some a) else none := by
  induction es with
  | nil => rfl
  | cons e es ih =>
    rw [List.foldlM_cons, takeEntry_of_single hfields hset, Value.all_object_cons]
    by_cases h : e.1 = field.name
    · simp [h]
    · simp [h, ih]

/-- A field is set by the one entry that has its name. -/
theorem foldlM_takeEntry_none (hfields : s.fields = [field]) (hset : field.isSet = Option.isSome)
    (es : List (String × Value)) :
    (es.foldlM (s.takeEntry fun _ v ↦ (f v).map fun a _ ↦ some a) none).bind id =
      ((Value.object es).only? field.name).bind f := by
  induction es with
  | nil => rfl
  | cons e es ih =>
    rw [Value.only?] at ih ⊢
    rw [List.foldlM_cons, takeEntry_of_single hfields hset, Value.all_object_cons]
    by_cases h : e.1 = field.name
    · rw [if_pos h, if_pos h, Option.isSome_none, if_neg Bool.false_ne_true]
      cases hf : f e.2 with
      | none => cases (Value.object es).all field.name <;> simp [hf]
      | some a =>
        have hrest := foldlM_takeEntry_some (f := f) hfields hset a es
        cases hall : (Value.object es).all field.name <;> simp [hf, hrest, hall]
    · rw [if_neg h, if_neg h]
      exact ih

/-- A record with one field is read from the value that is held under its name. -/
theorem Shape.ofValue_of_single (hfields : s.fields = [field])
    (hset : field.isSet = Option.isSome) (hmiss : field.mayMiss = false) (hstart : s.start = none)
    (hfinish : s.finish = require field.name) (v : Value) :
    s.ofValue (fun _ v ↦ (f v).map fun a _ ↦ some a) v = (v.held field.name).bind f := by
  have hid : (fun state ↦ (s.finish state).toOption) = id := by
    funext state
    rw [hfinish]
    cases state <;> rfl
  unfold Shape.ofValue
  rw [hid, hstart]
  split
  · exact foldlM_takeEntry_none hfields hset _
  · next vs =>
    rw [hfields]
    match vs with
    | [] =>
      rw [takeInOrder, hmiss, if_neg Bool.false_ne_true]
      rfl
    | [v] =>
      rw [takeInOrder, Value.held]
      cases hf : f v <;> simp [takeInOrder, hf]
    | v :: w :: vs =>
      rw [takeInOrder]
      cases hf : f v <;> simp [takeInOrder, Value.held, Value.only?, Value.all]
  · next hobject hlist =>
    cases v with
    | object es => exact absurd rfl (hobject es)
    | array vs => exact absurd rfl (hlist vs)
    | null | bool | number | string => rfl

end Single

/-! ## Whole inputs -/

/-- What is parsed as a value is read as `f` says. -/
theorem Decodes.readAll_eq_ok_iff {read : Nat → Reader α} {f : Value → Option α}
    (h : Decodes read f) (hv : readAll (value depth) input = .ok v) :
    readAll (read depth) input = .ok a ↔ f v = some a := by
  obtain ⟨rest, hv, hend⟩ := Json.readAll_eq_ok_iff.mp hv
  have hcomes := h depth input v rest hv
  rw [Json.readAll_eq_ok_iff]
  cases hf : f v with
  | none =>
    rw [hf] at hcomes
    simp only [reduceCtorEq, iff_false]
    rintro ⟨more, ha, -⟩
    exact hcomes a more ha
  | some b =>
    rw [hf] at hcomes
    constructor
    · rintro ⟨more, ha, -⟩
      rw [show read depth input = (.ok b, rest) from hcomes] at ha
      cases ha
      rfl
    · intro hb
      obtain rfl : b = a := Option.some.inj hb
      exact ⟨rest, hcomes, hend⟩

end Harvest.Json
