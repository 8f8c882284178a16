import Harvest.Proofs.Json.Tokens

/-!
# Lists and objects that are read back

A list or an object that was written with every entry on a line of its own is read entry by entry:
if each of them is read back from its own text, the whole is.
-/

namespace Harvest.Json

open Text (Bytes encode)
open Reader

variable {α β σ : Type} {a : α} {rest more input : Bytes} {level rounds depth : Nat}
  {name : String} {v : Value} {vs : List Value} {es : List (String × Value)}

/-! ## Marks -/

private theorem colon_cons (rest : Bytes) : colon (byte ':' :: rest) = (.ok (), rest) := by
  rw [colon, bind_of_ok (peekToken_cons rfl)]
  rfl

/-- A closing bracket closes a list. -/
theorem closeList_cons (rest : Bytes) : closeList (byte ']' :: rest) = (.ok (), rest) := by
  rw [closeList, bind_of_ok (peekToken_cons rfl)]
  rfl

/-- A closing brace closes an object. -/
theorem closeObject_cons (rest : Bytes) : closeObject (byte '}' :: rest) = (.ok (), rest) := by
  rw [closeObject, bind_of_ok (peekToken_cons rfl)]
  rfl

/-- What is read up to a bracket that closes is read with that bracket. -/
theorem closing_of_ok {read : Reader α} {close : Reader Unit} (h : read input = (.ok a, more))
    (hclose : close more = (.ok (), rest)) : closing read close input = (.ok a, rest) := by
  simp only [closing, h, hclose]

/-- Where a value is read there is no fault to be placed. -/
theorem settle_of_ok {read : Reader α} (h : read input = (.ok a, rest)) :
    settle read input = (.ok a, rest) := by
  simp only [settle, h]

/-! ## Entries -/

/-- A string starts with a quote. -/
theorem encode_stringChars_append (s : String) (rest : Bytes) :
    ∃ bytes, encode (stringChars s) ++ rest = byte '"' :: bytes := by
  rw [stringChars, List.cons_append, encode_cons_of_lt (by decide)]
  exact ⟨_, rfl⟩

private theorem hasEntry_first (level : Nat) (name : String) (rest : Bytes) :
    hasEntry true (encode (lineBreak level) ++ (encode (stringChars name) ++ rest)) =
      (.ok true, encode (stringChars name) ++ rest) := by
  obtain ⟨bytes, hbytes⟩ := encode_stringChars_append name rest
  rw [hbytes, hasEntry, bind_of_ok (peekToken_append (areBlank_lineBreak level) rfl)]
  rfl

private theorem hasEntry_next (level : Nat) (name : String) (rest : Bytes) :
    hasEntry false (byte ',' :: (encode (lineBreak level) ++ (encode (stringChars name) ++ rest))) =
      (.ok true, encode (stringChars name) ++ rest) := by
  obtain ⟨bytes, hbytes⟩ := encode_stringChars_append name rest
  rw [hbytes, hasEntry, bind_of_ok (peekToken_cons rfl)]
  have hcomma : byte ',' ≠ byte '}' := by decide
  simp only [if_neg hcomma, Bool.false_eq_true, if_false, if_true, advance_bind_cons]
  rw [bind_of_ok (peekToken_append (areBlank_lineBreak level) rfl)]
  rfl

private theorem hasEntry_last (level : Nat) (rest : Bytes) :
    hasEntry false (encode (lineBreak level) ++ byte '}' :: rest) =
      (.ok false, byte '}' :: rest) := by
  rw [hasEntry, bind_of_ok (peekToken_append (areBlank_lineBreak level) rfl)]
  rfl

/-- A reader of entries takes some entries of a level, one after the other. -/
inductive Enters (entry : String → σ → Reader σ) (level : Nat) :
    List (String × Value) → σ → σ → Prop
  | nil (state : σ) : Enters entry level [] state state
  | cons {name : String} {v : Value} {es : List (String × Value)} {state next final : σ}
      {read : Reader σ} (hentry : entry name state = (do colon; read))
      (hread : Gets read (v.prettyChars level) next) (hrest : Enters entry level es next final) :
      Enters entry level ((name, v) :: es) state final

/-- One entry is read behind what parts it from the one before it. -/
theorem entries_of_hasEntry {entry : String → σ → Reader σ} {read : Reader σ} {first : Bool}
    {state next : σ}
    (hmore : hasEntry first input =
      (.ok true, encode (stringChars name) ++
        (byte ':' :: byte ' ' :: (encode (v.prettyChars level) ++ rest))))
    (hentry : entry name state = (do colon; read)) (hread : Gets read (v.prettyChars level) next)
    (hrest : IsParted rest) :
    entries entry (rounds + 1) first state input = entries entry rounds false next rest := by
  have hvalue := hread [byte ' '] rest areBlank_space hrest
  rw [List.singleton_append] at hvalue
  have hstate : entry name state
      (byte ':' :: byte ' ' :: (encode (v.prettyChars level) ++ rest)) = (.ok next, rest) := by
    rw [hentry, bind_of_ok (colon_cons _), hvalue]
  rw [entries, bind_of_ok hmore, if_pos rfl, bind_of_ok (entryName_append ..), bind_of_ok hstate]

/-- What follows an entry is parted from it. -/
theorem isParted_prettyEntries (level' : Nat) (es : List (String × Value)) (rest : Bytes) :
    IsParted (encode (prettyEntries level es) ++ (encode (lineBreak level') ++ rest)) := by
  cases es with
  | nil =>
    rw [prettyEntries, lineBreak, encode_cons_of_lt (by decide)]
    simp [IsParted, encode]
  | cons e es =>
    rw [prettyEntries, List.cons_append, List.cons_append, List.cons_append,
      encode_cons_of_lt (by decide)]
    simp [IsParted]

/-- An entry behind another one: what parts them, its name, its colon and its value. -/
theorem encode_prettyEntries_cons (level : Nat) (name : String) (v : Value)
    (es : List (String × Value)) (rest : Bytes) :
    encode (prettyEntries level ((name, v) :: es)) ++ rest =
      byte ',' :: (encode (lineBreak level) ++ (encode (stringChars name) ++
        (byte ':' :: byte ' ' ::
          (encode (v.prettyChars level) ++ (encode (prettyEntries level es) ++ rest))))) := by
  simp only [prettyEntries, Text.encode_append, List.append_assoc, List.cons_append,
    encode_cons_of_lt (show ','.toNat < 0x80 by decide),
    encode_cons_of_lt (show ':'.toNat < 0x80 by decide),
    encode_cons_of_lt (show ' '.toNat < 0x80 by decide)]

/-- Entries are read up to the bracket behind the last one. -/
theorem Enters.entries_eq {entry : String → σ → Reader σ} {state final : σ}
    (h : Enters entry (level + 1) es state final) (hrounds : es.length < rounds) (rest : Bytes) :
    entries entry rounds false state (encode (prettyEntries (level + 1) es) ++
      (encode (lineBreak level) ++ byte '}' :: rest)) = (.ok final, byte '}' :: rest) := by
  induction h generalizing rounds with
  | nil state =>
    cases rounds with
    | zero => exact absurd hrounds (Nat.not_lt_zero _)
    | succ rounds =>
      rw [entries]
      exact bind_of_ok (hasEntry_last level rest) _
  | cons hentry hread _ ih =>
    cases rounds with
    | zero => exact absurd hrounds (Nat.not_lt_zero _)
    | succ rounds =>
      rw [encode_prettyEntries_cons,
        entries_of_hasEntry (hasEntry_next ..) hentry hread (isParted_prettyEntries _ _ _)]
      exact ih (Nat.lt_of_succ_lt_succ hrounds)

/-! ## Objects -/

private theorem length_le_encode_prettyEntries (level : Nat) (es : List (String × Value)) :
    es.length ≤ (encode (prettyEntries level es)).length := by
  induction es with
  | nil => exact Nat.zero_le _
  | cons e es ih =>
    rw [prettyEntries, Text.encode_append, List.length_append, List.cons_append,
      List.cons_append, encode_cons_of_lt (by decide), List.length_cons, List.length_cons]
    omega

/-- What stands behind the bracket of an object: its first entry, the others and the other
bracket. -/
def contents (level : Nat) (name : String) (v : Value) (es : List (String × Value))
    (rest : Bytes) : Bytes :=
  encode (lineBreak (level + 1)) ++ (encode (stringChars name) ++ (byte ':' :: byte ' ' ::
    (encode (v.prettyChars (level + 1)) ++ (encode (prettyEntries (level + 1) es) ++
      (encode (lineBreak level) ++ byte '}' :: rest)))))

/-- An object with an entry starts with a brace and goes on with its contents. -/
theorem encode_object_cons (level : Nat) (name : String) (v : Value) (es : List (String × Value))
    (rest : Bytes) :
    encode ((Value.object ((name, v) :: es)).prettyChars level) ++ rest =
      byte '\x7b' :: contents level name v es rest := by
  simp only [Value.prettyChars, Text.encode_append, List.append_assoc, List.cons_append,
    encode_cons_of_lt (show '\x7b'.toNat < 0x80 by decide),
    encode_cons_of_lt (show ':'.toNat < 0x80 by decide),
    encode_cons_of_lt (show ' '.toNat < 0x80 by decide),
    encode_cons_of_lt (show '}'.toNat < 0x80 by decide)]
  rfl

/-- All entries of an object are read, up to its other bracket. -/
theorem Enters.entries_contents {entry : String → σ → Reader σ} {state final : σ}
    (h : Enters entry (level + 1) ((name, v) :: es) state final) (hrounds : es.length + 1 < rounds)
    (rest : Bytes) : entries entry rounds true state (contents level name v es rest) =
      (.ok final, byte '}' :: rest) := by
  cases h with
  | cons hentry hread hrest =>
    cases rounds with
    | zero => exact absurd hrounds (Nat.not_lt_zero _)
    | succ rounds =>
      rw [contents, entries_of_hasEntry (hasEntry_first (level + 1) name _) hentry hread
        (isParted_prettyEntries _ _ _)]
      exact hrest.entries_eq (Nat.lt_of_succ_lt_succ hrounds) rest

/-- An object is read from its bracket on, where a reader takes its entries and something is made of
what they come to. -/
theorem object_eq {entry : Nat → String → σ → Reader σ} {finish : σ → Reader α} {state final : σ}
    (henters : Enters (entry depth) (level + 1) ((name, v) :: es) state final)
    (hfinish : finish final = pure a) (hrounds : es.length + 1 < rounds) (rest : Bytes) :
    object (depth + 1) (fun depth ↦ do finish (← entries (entry depth) rounds true state))
      (byte '\x7b' :: contents level name v es rest) = (.ok a, rest) := by
  have hread : (do finish (← entries (entry depth) rounds true state))
      (contents level name v es rest) = (.ok a, byte '}' :: rest) := by
    rw [bind_of_ok (henters.entries_contents hrounds rest), hfinish, pure_apply]
  exact closing_of_ok hread (closeObject_cons rest)

/-- There are fewer entries than bytes. -/
theorem length_lt_contents (level : Nat) (name : String) (v : Value) (es : List (String × Value))
    (rest : Bytes) : es.length + 1 < (byte '\x7b' :: contents level name v es rest).length + 1 := by
  have hle := length_le_encode_prettyEntries (level + 1) es
  simp only [contents, List.length_cons, List.length_append]
  omega

/-! ## Records -/

/-- An entry that names a field of a record assigns what is read of it. -/
theorem Enters.field {s : Shape σ α} {field : Slot σ} {assign : σ → σ} {state final : σ}
    (hfield : s.fields.find? (·.name == name) = some field) (hset : field.isSet state = false)
    (hread : Gets (field.read depth) (v.prettyChars level) assign)
    (hrest : Enters (s.entry depth) level es (assign state) final) :
    Enters (s.entry depth) level ((name, v) :: es) state final := by
  refine .cons ?_ (hread.map (· state)) hrest
  simp only [Shape.entry, hfield, hset, Bool.false_eq_true, if_false]
  rfl

/-- A record is read from an object. -/
theorem Shape.gets_object {s : Shape σ α} {final : σ}
    (henters : Enters (s.entry depth) (level + 1) ((name, v) :: es) s.start final)
    (hfinish : s.finish final = .ok a) :
    Gets (s.read (depth + 1)) ((Value.object ((name, v) :: es)).prettyChars level) a := by
  have hfinished : s.finished final = pure a := by rw [Shape.finished, hfinish]
  intro blanks rest hblanks _
  rw [encode_object_cons, Shape.read, bind_of_ok (startOfValue_append hblanks rfl), left_bind]
  exact settle_of_ok (object_eq henters hfinished (length_lt_contents level name v es rest) rest)

/-! ## Lists -/

/-- A text whose first byte is that of a value. -/
def Opens (cs : List Char) : Prop :=
  ∃ b bytes, encode cs = b :: bytes ∧ isBlankByte b = false ∧ b ≠ byte ']'

private theorem hasElement_first {blanks : Bytes} {cs : List Char} (hblanks : AreBlank blanks)
    (h : Opens cs) (rest : Bytes) :
    hasElement true (blanks ++ (encode cs ++ rest)) = (.ok true, encode cs ++ rest) := by
  obtain ⟨b, bytes, hbytes, hb, hne⟩ := h
  rw [hbytes, List.cons_append, hasElement, bind_of_ok (peekToken_append hblanks hb)]
  simp only [if_neg hne, if_true, pure_apply]

private theorem hasElement_next {blanks : Bytes} {cs : List Char} (hblanks : AreBlank blanks)
    (h : Opens cs) (rest : Bytes) :
    hasElement false (byte ',' :: (blanks ++ (encode cs ++ rest))) =
      (.ok true, encode cs ++ rest) := by
  obtain ⟨b, bytes, hbytes, hb, hne⟩ := h
  have hcomma : byte ',' ≠ byte ']' := by decide
  rw [hbytes, List.cons_append, hasElement, bind_of_ok (peekToken_cons rfl)]
  simp only [if_neg hcomma, Bool.false_eq_true, if_false, if_true, advance_bind_cons]
  rw [bind_of_ok (peekToken_append hblanks hb)]
  simp only [if_neg hne, pure_apply]

private theorem hasElement_last {blanks : Bytes} (first : Bool) (hblanks : AreBlank blanks)
    (rest : Bytes) :
    hasElement first (blanks ++ byte ']' :: rest) = (.ok false, byte ']' :: rest) := by
  rw [hasElement, bind_of_ok (peekToken_append hblanks rfl)]
  rfl

/-- A reader of elements gets each of some elements of a level from its value. -/
def GetsAll (element : Reader α) (level : Nat) (vs : List Value) (as : List α) : Prop :=
  List.Forall₂ (fun v a ↦ Opens (v.prettyChars level) ∧ Gets element (v.prettyChars level) a) vs as

/-- What follows an element is parted from it. -/
theorem isParted_prettyElements (level' : Nat) (vs : List Value) (rest : Bytes) :
    IsParted (encode (prettyElements level vs) ++ (encode (lineBreak level') ++ rest)) := by
  cases vs with
  | nil =>
    rw [prettyElements, lineBreak, encode_cons_of_lt (by decide)]
    simp [IsParted, encode]
  | cons v vs =>
    rw [prettyElements, List.cons_append, List.cons_append, encode_cons_of_lt (by decide)]
    simp [IsParted]

/-- One element is read behind what parts it from the one before it. -/
theorem elements_of_hasElement {element : Reader α} {first : Bool} {as : List α} {cs : List Char}
    (hmore : hasElement first input = (.ok true, encode cs ++ more)) (h : Gets element cs a)
    (hparted : IsParted more) (hrest : elements element rounds false more = (.ok as, rest)) :
    elements element (rounds + 1) first input = (.ok (a :: as), rest) := by
  have hvalue := h [] more .nil hparted
  rw [List.nil_append] at hvalue
  rw [elements, bind_of_ok hmore, if_pos rfl, bind_of_ok hvalue, bind_of_ok hrest, pure_apply]

/-- Elements are read up to the bracket behind the last one. -/
theorem GetsAll.elements_eq {element : Reader α} {as : List α}
    (h : GetsAll element (level + 1) vs as) (hrounds : vs.length < rounds) (rest : Bytes) :
    elements element rounds false (encode (prettyElements (level + 1) vs) ++
      (encode (lineBreak level) ++ byte ']' :: rest)) = (.ok as, byte ']' :: rest) := by
  induction h generalizing rounds with
  | nil =>
    cases rounds with
    | zero => exact absurd hrounds (Nat.not_lt_zero _)
    | succ rounds =>
      rw [elements]
      exact bind_of_ok (hasElement_last false (areBlank_lineBreak level) rest) _
  | @cons v a vs as h _ ih =>
    cases rounds with
    | zero => exact absurd hrounds (Nat.not_lt_zero _)
    | succ rounds =>
      have hmore := hasElement_next (areBlank_lineBreak (level + 1)) h.1
        (encode (prettyElements (level + 1) vs) ++ (encode (lineBreak level) ++ byte ']' :: rest))
      rw [prettyElements, List.cons_append, List.cons_append, encode_cons_of_lt (by decide)]
      simp only [Text.encode_append, List.append_assoc, List.cons_append]
      exact elements_of_hasElement hmore h.2 (isParted_prettyElements _ _ _)
        (ih (Nat.lt_of_succ_lt_succ hrounds))

private theorem length_le_encode_prettyElements (level : Nat) (vs : List Value) :
    vs.length ≤ (encode (prettyElements level vs)).length := by
  induction vs with
  | nil => exact Nat.zero_le _
  | cons v vs ih =>
    rw [prettyElements, Text.encode_append, List.length_append, List.cons_append,
      encode_cons_of_lt (by decide), List.length_cons, List.length_cons]
    omega

/-- What stands behind the bracket of a list: its elements and the other bracket. -/
def elementBytes (level : Nat) (rest : Bytes) : List Value → Bytes
  | [] => byte ']' :: rest
  | v :: vs => encode (lineBreak (level + 1)) ++ (encode (v.prettyChars (level + 1)) ++
    (encode (prettyElements (level + 1) vs) ++ (encode (lineBreak level) ++ byte ']' :: rest)))

private theorem encode_array (level : Nat) (vs : List Value) (rest : Bytes) :
    encode ((Value.array vs).prettyChars level) ++ rest =
      byte '[' :: elementBytes level rest vs := by
  cases vs with
  | nil => rfl
  | cons v vs =>
    simp only [Value.prettyChars, Text.encode_append, List.append_assoc, List.cons_append,
      encode_cons_of_lt (show '['.toNat < 0x80 by decide),
      encode_cons_of_lt (show ']'.toNat < 0x80 by decide)]
    rfl

private theorem length_lt_elementBytes (level : Nat) (vs : List Value) (rest : Bytes) :
    vs.length < (byte '[' :: elementBytes level rest vs).length + 1 := by
  cases vs with
  | nil => exact Nat.zero_lt_succ _
  | cons v vs =>
    have hle := length_le_encode_prettyElements (level + 1) vs
    simp only [elementBytes, List.length_cons, List.length_append]
    omega

/-- All elements of a list are read, up to its other bracket. -/
theorem GetsAll.elements_bytes {element : Reader α} {as : List α}
    (h : GetsAll element (level + 1) vs as) (hrounds : vs.length < rounds) (rest : Bytes) :
    elements element rounds true (elementBytes level rest vs) = (.ok as, byte ']' :: rest) := by
  cases rounds with
  | zero => exact absurd hrounds (Nat.not_lt_zero _)
  | succ rounds =>
    cases h with
    | nil =>
      rw [elements]
      exact bind_of_ok (hasElement_last true .nil rest) _
    | cons h htail =>
      have hmore := hasElement_first (areBlank_lineBreak (level + 1)) h.1
      exact elements_of_hasElement (hmore _) h.2 (isParted_prettyElements _ _ _)
        (GetsAll.elements_eq htail (Nat.lt_of_succ_lt_succ hrounds) rest)

/-- A list is read if its elements are. -/
theorem gets_listOf {element : Nat → Reader α} {as : List α}
    (h : GetsAll (element depth) (level + 1) vs as) :
    Gets (listOf (depth + 1) element) ((Value.array vs).prettyChars level) as := by
  intro blanks rest hblanks _
  rw [encode_array, listOf, bind_of_ok (startOfValue_append hblanks rfl), left_bind]
  refine settle_of_ok ?_
  have hread := h.elements_bytes (length_lt_elementBytes level vs rest) rest
  exact closing_of_ok hread (closeList_cons rest)

/-! ## Whole inputs -/

/-- A text is read back as a whole. -/
theorem Gets.readAll_encode {read : Reader α} {cs : List Char} (h : Gets read cs a) :
    readAll read (encode cs) = .ok a := by
  have hread := h [] [] .nil .nil
  rw [List.nil_append, List.append_nil] at hread
  rw [readAll, bind_of_ok hread]
  rfl

end Harvest.Json
