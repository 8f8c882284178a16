import Harvest.Proofs.Json.Tokens

/-!
# What readers give

A property of what a reader gives, whatever its input is: whole numbers have 64 bits, the elements
of a list have what their reader gives them, and a record has what each of its fields keeps.
-/

namespace Harvest.Json

open Text (Bytes)
open Reader

variable {α β σ : Type} {P : α → Prop} {Q : β → Prop} {I : σ → Prop} {read : Reader α}
  {input rest : Bytes} {a : α} {n : Nat} {negative : Bool} {exponent : Int}

/-- Whatever a reader gives has a property. -/
def Gives (read : Reader α) (P : α → Prop) : Prop :=
  ∀ input a rest, read input = (.ok a, rest) → P a

/-- A reader that gives a value after another one has got a value from that. -/
theorem Reader.bind_eq_ok {next : α → Reader β} {b : β}
    (h : (read >>= next) input = (.ok b, rest)) :
    ∃ a more, read input = (.ok a, more) ∧ next a more = (.ok b, rest) := by
  rcases hread : read input with ⟨result, more⟩
  cases result with
  | error fault =>
    simp only [bind, hread] at h
    cases h
  | ok a => exact ⟨a, more, rfl, (bind_of_ok hread next).symm.trans h⟩

/-- Whatever a reader gives is something. -/
theorem gives_trivial (read : Reader α) : Gives read fun _ ↦ True := fun _ _ _ _ ↦ trivial

/-- A value that is given has the properties that it has. -/
theorem gives_pure {a : α} (h : P a) : Gives (pure a) P := by
  rintro _ _ _ ⟨⟩
  exact h

/-- A reader that fails gives nothing. -/
theorem gives_fail (problem : Problem) : Gives (fail problem) P := by
  rintro _ _ _ ⟨⟩

private theorem gives_failHere (problem : Problem) : Gives (failHere problem) P := by
  rintro _ _ _ ⟨⟩

/-- Nor does one that fails at the next byte. -/
theorem gives_failNext (problem : Problem) : Gives (failNext problem) P := by
  rintro _ _ _ ⟨⟩

/-- What a second reader gives has a property where it has that behind whatever the first one gives.
-/
theorem Gives.bind {next : α → Reader β} (h : Gives read P) (hnext : ∀ a, P a → Gives (next a) Q) :
    Gives (read >>= next) Q := by
  intro input b rest hread
  obtain ⟨a, more, ha, hb⟩ := bind_eq_ok hread
  exact hnext a (h input a more ha) more b rest hb

/-- What comes after a reader has the property whatever that one gives. -/
theorem gives_bind {next : α → Reader β} (hnext : ∀ a, Gives (next a) Q) :
    Gives (read >>= next) Q :=
  (gives_trivial read).bind fun a _ ↦ hnext a

/-- A property of what a reader gives carries over to a function of it. -/
theorem Gives.map {f : α → β} (h : Gives read P) (hf : ∀ a, P a → Q (f a)) :
    Gives (f <$> read) Q :=
  h.bind fun a ha ↦ gives_pure (hf a ha)

/-- To place faults makes no value. -/
theorem settle_eq_ok (h : settle read input = (.ok a, rest)) : read input = (.ok a, rest) := by
  simp only [settle] at h
  split at h
  · cases h
  · exact h

/-- To place faults does not change what is given. -/
theorem Gives.settle (h : Gives read P) : Gives (settle read) P :=
  fun input a rest hread ↦ h input a rest (settle_eq_ok hread)

/-- What is read with the bracket behind it is read before the bracket is. -/
theorem closing_eq_ok {close : Reader Unit} (h : closing read close input = (.ok a, rest)) :
    ∃ more, read input = (.ok a, more) ∧ close more = (.ok (), rest) := by
  simp only [closing] at h
  split at h
  · next hvalue hclose =>
    cases h
    exact ⟨_, Prod.ext hvalue rfl, hclose⟩
  · cases h
  · cases h

private theorem Gives.closing {close : Reader Unit} (h : Gives read P) :
    Gives (closing read close) P := by
  intro input a rest hread
  obtain ⟨more, hread, -⟩ := closing_eq_ok hread
  exact h input a more hread

/-! ## Numbers -/

/-- A number, if it is a whole one from 0 on, has 64 bits. -/
def IsShort : Number → Prop
  | .nat n => n ≤ greatestNat
  | _ => True

private theorem appendDigits_le {bound : Nat} (h : n ≤ bound) (ds : List Nat) :
    (appendDigits bound n ds).1 ≤ bound := by
  induction ds generalizing n with
  | nil => exact h
  | cons d ds ih =>
    rw [appendDigits]
    split
    · next hle => exact ih hle
    · exact h

private theorem digit?_le {b : UInt8} {d : Nat} (h : digit? b = some d) : d ≤ 9 := by
  rw [digit?] at h
  split at h
  · next hrange =>
    cases h
    have hle : b.toNat ≤ 0x39 := UInt8.le_iff_toNat_le.mp hrange.2
    omega
  · cases h

private theorem floatNumber_gives :
    Gives (floatNumber negative n exponent) IsShort := by
  rw [floatNumber]
  split
  · exact gives_pure trivial
  · exact gives_failHere _

private theorem exponentPart_gives :
    Gives (exponentPart negative n exponent) IsShort := by
  refine gives_bind fun sign ↦ ?_
  extract_lets minus behindSign
  have hbehind : ∀ u, Gives (behindSign u) IsShort := by
    intro u
    refine gives_bind fun b ↦ ?_
    split
    · exact gives_failHere _
    · exact gives_failHere _
    · refine gives_bind fun before ↦ gives_bind fun ds ↦ ?_
      split
      split
      · exact floatNumber_gives
      · split
        · exact gives_bind fun _ ↦ gives_failHere _
        · exact gives_pure trivial
  split
  · exact gives_bind hbehind
  · exact hbehind ()

private theorem fractionPart_gives :
    Gives (fractionPart negative n exponent) IsShort := by
  refine gives_bind fun ds ↦ ?_
  split
  · refine gives_bind fun b ↦ ?_
    split
    · exact gives_failNext _
    · exact gives_failNext _
  · refine gives_bind fun b ↦ ?_
    split
    · exact gives_bind fun _ ↦ exponentPart_gives
    · exact floatNumber_gives

private theorem numberBehindSign_gives (negative : Bool) :
    Gives (numberBehindSign negative) IsShort := by
  refine gives_bind fun b ↦ ?_
  split
  · exact gives_failHere _
  · exact gives_failHere _
  · next first hfirst =>
    obtain ⟨digit, -, hfirst'⟩ := Option.map_eq_some_iff.mp hfirst
    refine gives_bind fun b ↦ ?_
    split
    · exact gives_failNext _
    · refine gives_bind fun ds ↦ gives_bind fun b ↦ ?_
      split
      · exact gives_bind fun _ ↦ fractionPart_gives
      split
      · exact gives_bind fun _ ↦ exponentPart_gives
      split
      · refine gives_pure ?_
        have hnine : 9 ≤ greatestNat := by decide
        have hle := appendDigits_le (Nat.le_trans (digit?_le hfirst') hnine) ds
        rw [wholeNumber]
        split
        · exact hle
        split
        · trivial
        · trivial
      · exact floatNumber_gives

/-- A value that is refused is not given. -/
theorem unexpected_gives {b : UInt8} {expected : String} : Gives (unexpected b expected) P := by
  refine Gives.settle ?_
  split
  · exact gives_fail _
  split
  · exact gives_fail _
  · exact gives_bind fun _ ↦ gives_fail _

/-- A natural number that is read has at most 64 bits. -/
theorem natural_gives (expected : String) : Gives (natural expected) (· ≤ greatestNat) := by
  refine gives_bind fun b ↦ ?_
  split
  · have hnumber : Gives (number b) IsShort := by
      rw [number]
      split
      · exact gives_bind fun _ ↦ numberBehindSign_gives true
      · exact numberBehindSign_gives false
    refine hnumber.bind fun v hv ↦ ?_
    split
    · exact gives_pure hv
    · exact (gives_fail _).settle
    · exact (gives_fail _).settle
  · exact unexpected_gives

/-! ## Lists and objects -/

private theorem elements_gives {element : Reader α} (h : Gives element P) (rounds : Nat)
    (first : Bool) :
    Gives (elements element rounds first) fun as ↦ ∀ a ∈ as, P a := by
  induction rounds generalizing first with
  | zero => exact gives_failNext _
  | succ rounds ih =>
    refine gives_bind fun more ↦ ?_
    split
    · refine h.bind fun head hhead ↦ (ih false).bind fun tail htail ↦ gives_pure ?_
      exact List.forall_mem_cons.mpr ⟨hhead, htail⟩
    · exact gives_pure (List.forall_mem_nil _)

/-- A property of what is read for elements holds of all elements of a list. -/
theorem listOf_gives {element : Nat → Reader α} (h : ∀ depth, Gives (element depth) P)
    (depth : Nat) : Gives (listOf depth element) fun as ↦ ∀ a ∈ as, P a := by
  refine gives_bind fun b ↦ gives_bind fun input ↦ ?_
  simp only
  split
  · cases depth with
    | zero => exact (gives_failNext _).settle
    | succ depth =>
      exact (gives_bind fun _ ↦ (elements_gives (h depth) _ true).closing).settle
  · exact unexpected_gives

/-- What every entry keeps holds when all of them have been read. -/
theorem entries_gives {entry : String → σ → Reader σ}
    (h : ∀ name state, I state → Gives (entry name state) I) (rounds : Nat) (first : Bool)
    {state : σ} (hstate : I state) : Gives (entries entry rounds first state) I := by
  induction rounds generalizing first state with
  | zero => exact gives_failNext _
  | succ rounds ih =>
    refine gives_bind fun more ↦ ?_
    split
    · exact gives_bind fun name ↦ (h name state hstate).bind fun next hnext ↦ ih false hnext
    · exact gives_pure hstate

/-- A property of what is read for the contents of an object holds of the object. -/
theorem object_gives {read : Nat → Reader α} (h : ∀ depth, Gives (read depth) P) (depth : Nat) :
    Gives (object depth read) P := by
  cases depth with
  | zero => exact gives_failNext _
  | succ depth => exact gives_bind fun _ ↦ (h depth).closing

/-! ## Records -/

/-- What each field of a record keeps holds of what is made of them. -/
structure Shape.Keeps (s : Shape σ α) (I : σ → Prop) (P : α → Prop) : Prop where
  start : I s.start
  field : ∀ field ∈ s.fields, ∀ depth, Gives (field.read depth) fun assign ↦
    ∀ state, I state → I (assign state)
  finish : ∀ state a, I state → s.finish state = .ok a → P a

variable {s : Shape σ α}

/-- What is made of the fields of a record, if it is, has the property. -/
theorem Shape.Keeps.finished (h : s.Keeps I P) {state : σ} (hstate : I state) :
    Gives (s.finished state) P := by
  rw [Shape.finished]
  split
  · next a hfinish => exact gives_pure (h.finish state a hstate hfinish)
  · exact gives_fail _

private theorem Shape.Keeps.entry (h : s.Keeps I P) (depth : Nat) (name : String) {state : σ}
    (hstate : I state) : Gives (s.entry depth name state) I := by
  rw [Shape.entry]
  split
  · next field hfield =>
    split
    · exact gives_fail _
    · exact gives_bind fun _ ↦ (h.field field (List.mem_of_find?_eq_some hfield) depth).bind
        fun assign hassign ↦ gives_pure (hassign state hstate)
  · exact gives_bind fun _ ↦ gives_bind fun _ ↦ gives_pure hstate

private theorem Shape.Keeps.fieldsInOrder (h : s.Keeps I P) (depth : Nat) {fields : List (Slot σ)}
    (hfields : ∀ field ∈ fields, field ∈ s.fields) (index : Nat) (first : Bool) {state : σ}
    (hstate : I state) : Gives (s.fieldsInOrder depth fields index first state) I := by
  induction fields generalizing index first state with
  | nil => exact gives_pure hstate
  | cons field fields ih =>
    obtain ⟨hfield, hfields⟩ := List.forall_mem_cons.mp hfields
    refine gives_bind fun more ↦ ?_
    split
    · exact (h.field field hfield depth).bind fun assign hassign ↦
        ih hfields _ _ (hassign state hstate)
    split
    · exact ih hfields _ _ hstate
    · exact gives_fail _

/-- A record is read with what its fields keep. -/
theorem Shape.Keeps.gives (h : s.Keeps I P) (depth : Nat) : Gives (s.read depth) P := by
  refine gives_bind fun b ↦ gives_bind fun input ↦ ?_
  simp only
  split
  · refine Gives.settle ?_
    cases depth with
    | zero => exact gives_failNext _
    | succ depth =>
      exact gives_bind fun _ ↦ ((h.fieldsInOrder depth (fun _ hfield ↦ hfield) 0 true
        h.start).bind fun _ hstate ↦ h.finished hstate).closing
  split
  · refine (object_gives (fun depth ↦ ?_) depth).settle
    exact (entries_gives (fun name _ hstate ↦ h.entry depth name hstate) _ true h.start).bind
      fun _ hstate ↦ h.finished hstate
  · exact unexpected_gives

/-! ## Whole inputs -/

/-- A document is a value with nothing but blanks behind it. -/
theorem readAll_eq_ok_iff : readAll read input = .ok a ↔
    ∃ rest, read input = (.ok a, rest) ∧ rest.dropWhile isBlankByte = [] := by
  constructor
  · intro h
    obtain ⟨a', rest, ha, hend⟩ := bind_eq_ok (Prod.ext h rfl)
    rw [peekToken_bind] at hend
    cases hrest : rest.dropWhile isBlankByte with
    | nil =>
      rw [hrest] at hend
      obtain rfl : a' = a := Except.ok.inj (Prod.mk.inj hend).1
      exact ⟨rest, ha, hrest⟩
    | cons b more =>
      rw [hrest] at hend
      cases (Prod.mk.inj hend).1
  · rintro ⟨rest, ha, hend⟩
    rw [readAll, bind_of_ok ha, peekToken_bind, hend]
    rfl

/-- What is read as a whole is what a reader gives. -/
theorem Gives.of_readAll {a : α} (h : Gives read P) (hread : readAll read input = .ok a) : P a := by
  obtain ⟨rest, ha, -⟩ := readAll_eq_ok_iff.mp hread
  exact h input a rest ha

end Harvest.Json
