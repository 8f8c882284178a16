import Mathlib.Data.List.DropRight
import Harvest.Proofs.Json.Entries
import Harvest.Proofs.Json.Skips

/-!
# Values within an input

Reading a value gives the grammar that the input follows: the elements of a list or the entries of
an object are parted by commas, up to the bracket that closes it. Skipping keeps track of the open
brackets and of nothing else, and yet it comes to the same place: it passes over a value as over a
single token, whatever brackets are open around it.
-/

namespace Harvest.Json

open Text (Bytes)
open Reader

variable {α : Type} {read : Reader α} {input start mid rest : Bytes} {b : UInt8} {a : α}
  {rounds depth n : Nat} {first : Bool} {v : Value} {vs : List Value} {es : List (String × Value)}
  {bracket : Bracket} {open_ : List Bracket}

/-! ## Blanks -/

/-- A token takes a byte at least. -/
theorem length_lt_of_token (h : input.dropWhile isBlankByte = b :: rest) :
    rest.length < input.length := by
  have hle := List.length_dropWhile_le isBlankByte input
  rw [h, List.length_cons] at hle
  exact hle

/-- A reader that looks at the next token finds the end of the input or a byte behind blanks. -/
theorem peekToken_bind_eq_ok {next : Option UInt8 → Reader α}
    (h : (peekToken >>= next) input = (.ok a, rest)) : next none [] = (.ok a, rest) ∨
      ∃ b more, input.dropWhile isBlankByte = b :: more ∧
        next (some b) (b :: more) = (.ok a, rest) := by
  rw [peekToken_bind] at h
  cases hinput : input.dropWhile isBlankByte with
  | nil => exact .inl (by rwa [hinput] at h)
  | cons b more => exact .inr ⟨b, more, rfl, by rwa [hinput] at h⟩

/-- Blanks that come next make no difference to what starts with a token. -/
theorem peekToken_bind_dropWhile (next : Option UInt8 → Reader α) (input : Bytes) :
    (peekToken >>= next) (input.dropWhile isBlankByte) = (peekToken >>= next) input := by
  rw [peekToken_bind, peekToken_bind, List.dropWhile_idempotent]

/-- Blanks before a value make no difference. -/
theorem startOfValue_bind_dropWhile (next : UInt8 → Reader α) (input : Bytes) :
    (startOfValue >>= next) (input.dropWhile isBlankByte) = (startOfValue >>= next) input := by
  have h : startOfValue (input.dropWhile isBlankByte) = startOfValue input :=
    peekToken_bind_dropWhile _ input
  simp only [bind, h]

/-- The first byte behind blanks starts a value. -/
theorem startOfValue_of_token (h : input.dropWhile isBlankByte = b :: rest) :
    startOfValue input = (.ok b, b :: rest) := by
  rw [startOfValue, peekToken_bind, h]
  rfl

/-- A value that is read has a first byte behind blanks. -/
theorem startOfValue_bind_eq_ok {next : UInt8 → Reader α}
    (h : (startOfValue >>= next) input = (.ok a, rest)) :
    ∃ b more, input.dropWhile isBlankByte = b :: more ∧ next b (b :: more) = (.ok a, rest) := by
  cases hinput : input.dropWhile isBlankByte with
  | nil =>
    obtain ⟨b, more, hb, -⟩ := bind_eq_ok h
    rw [startOfValue, peekToken_bind, hinput] at hb
    cases hb
  | cons b more =>
    rw [bind_of_ok (startOfValue_of_token hinput)] at h
    exact ⟨b, more, rfl, h⟩

/-! ## The grammar of what is read -/

/-- The elements of a list, from behind its bracket or an element on, and what follows its other
bracket. -/
inductive HasElements (read : Reader α) : Bool → Bytes → List α → Bytes → Prop
  | nil {first : Bool} {input rest : Bytes}
      (hend : hasElement first input = (.ok false, byte ']' :: rest)) :
      HasElements read first input [] rest
  | cons {first : Bool} {input start mid rest : Bytes} {a : α} {as : List α}
      (hnext : hasElement first input = (.ok true, start)) (hread : read start = (.ok a, mid))
      (h : HasElements read false mid as rest) : HasElements read first input (a :: as) rest

/-- The entries of an object, from behind its bracket or an entry on, and what follows its other
bracket. -/
inductive HasEntries (read : Reader α) : Bool → Bytes → List (String × α) → Bytes → Prop
  | nil {first : Bool} {input rest : Bytes}
      (hend : hasEntry first input = (.ok false, byte '\x7d' :: rest)) :
      HasEntries read first input [] rest
  | cons {first : Bool} {input start behind before mid rest : Bytes} {name : String} {a : α}
      {es : List (String × α)} (hnext : hasEntry first input = (.ok true, byte '"' :: start))
      (hname : restOfString start = (.ok name, behind)) (hcolon : colon behind = (.ok (), before))
      (hread : read before = (.ok a, mid)) (h : HasEntries read false mid es rest) :
      HasEntries read first input ((name, a) :: es) rest

/-- The bracket that a byte opens. -/
def opened (b : UInt8) : Option Bracket :=
  if b = byte '[' then some .list else if b = byte '\x7b' then some .object else none

/-- A value behind blanks, and what follows it. -/
inductive HasValue : Nat → Bytes → Value → Bytes → Prop
  | array {depth : Nat} {input more rest : Bytes} {vs : List Value}
      (hinput : input.dropWhile isBlankByte = byte '[' :: more)
      (h : HasElements (value depth) true more vs rest) :
      HasValue (depth + 1) input (.array vs) rest
  | object {depth : Nat} {input more rest : Bytes} {es : List (String × Value)}
      (hinput : input.dropWhile isBlankByte = byte '\x7b' :: more)
      (h : HasEntries (value depth) true more es rest) (hlength : es.length < more.length + 2) :
      HasValue (depth + 1) input (.object es) rest
  | scalar {depth : Nat} {input more rest : Bytes} {b : UInt8} {v : Value}
      (hinput : input.dropWhile isBlankByte = b :: more) (hb : opened b = none)
      (h : Json.scalar b (b :: more) = (.ok v, rest)) : HasValue depth input v rest

/-- The byte that closes a bracket. -/
def Bracket.closer : Bracket → UInt8
  | .list => byte ']'
  | .object => byte '\x7d'

/-- A bracket closes where no other item follows. -/
def Ends (bracket : Bracket) (input rest : Bytes) : Prop :=
  ∃ more, input.dropWhile isBlankByte = bracket.closer :: more ∧ rest = bracket.closer :: more

/-- Another item follows among those of a bracket: the first one at once, the others behind a
comma. -/
inductive Follows (bracket : Bracket) : Bool → Bytes → Bytes → Prop
  | first {b : UInt8} {input more : Bytes} (h : input.dropWhile isBlankByte = b :: more)
      (hb : b ≠ bracket.closer) : Follows bracket true input (b :: more)
  | next {input more : Bytes} (h : input.dropWhile isBlankByte = byte ',' :: more) :
      Follows bracket false input (more.dropWhile isBlankByte)

/-- A look for another element finds one, or the end of the list. -/
theorem hasElement_eq_ok {next : Bool} (h : hasElement first input = (.ok next, rest)) :
    next = true ∧ Follows .list first input rest ∨ next = false ∧ Ends .list input rest := by
  obtain h | ⟨b, more, hinput, h⟩ := peekToken_bind_eq_ok h
  · cases h
  dsimp only at h
  split at h
  · next hb =>
    cases h
    rw [hb] at hinput ⊢
    exact .inr ⟨rfl, more, hinput, rfl⟩
  next hb =>
  split at h
  · next hfirst =>
    cases h
    exact .inl ⟨rfl, hfirst ▸ .first hinput hb⟩
  next hfirst =>
  split at h
  · next hcomma =>
    rw [advance_bind_cons] at h
    have hnext : next = true ∧ more.dropWhile isBlankByte = rest := by
      obtain h | ⟨c, behind, hmore, h⟩ := peekToken_bind_eq_ok h
      · cases h
      dsimp only at h
      split at h
      · cases h
      · cases h
        exact ⟨rfl, hmore⟩
    rw [Bool.eq_false_of_not_eq_true hfirst, ← hnext.2]
    exact .inl ⟨hnext.1, .next (hcomma ▸ hinput)⟩
  · cases h

private theorem hasEntry_eq_ok {next : Bool} (h : hasEntry first input = (.ok next, rest)) :
    next = true ∧ (∃ start, rest = byte '"' :: start ∧ Follows .object first input rest) ∨
      next = false ∧ Ends .object input rest := by
  obtain h | ⟨b, more, hinput, h⟩ := peekToken_bind_eq_ok h
  · cases h
  dsimp only at h
  split at h
  · next hb =>
    cases h
    rw [hb] at hinput ⊢
    exact .inr ⟨rfl, more, hinput, rfl⟩
  next hb =>
  split at h
  · next hfirst =>
    split at h
    · next hquote =>
      cases h
      exact .inl ⟨rfl, more, by rw [hquote], hfirst ▸ .first hinput hb⟩
    · cases h
  next hfirst =>
  split at h
  · next hcomma =>
    rw [advance_bind_cons] at h
    obtain h | ⟨c, start, hmore, h⟩ := peekToken_bind_eq_ok h
    · cases h
    dsimp only at h
    split at h
    · next hquote =>
      cases h
      rw [Bool.eq_false_of_not_eq_true hfirst, ← hmore]
      exact .inl ⟨rfl, start, by rw [hmore, hquote], .next (hcomma ▸ hinput)⟩
    split at h
    · cases h
    · cases h
  · cases h

/-- Elements are read up to the bracket behind the last one. -/
theorem hasElements_of_elements {as : List α}
    (h : elements read n first input = (.ok as, rest)) :
    ∃ more, rest = byte ']' :: more ∧ HasElements read first input as more := by
  induction n generalizing first input as with
  | zero => cases h
  | succ n ih =>
    obtain ⟨next, start, hnext, h⟩ := bind_eq_ok h
    cases next with
    | true =>
      obtain ⟨head, mid, hhead, h⟩ := bind_eq_ok h
      obtain ⟨tail, behind, htail, h⟩ := bind_eq_ok h
      cases h
      obtain ⟨more, rfl, has⟩ := ih htail
      exact ⟨more, rfl, .cons hnext hhead has⟩
    | false =>
      cases h
      obtain ⟨⟨⟩, -⟩ | ⟨-, more, -, rfl⟩ := hasElement_eq_ok hnext
      exact ⟨more, rfl, .nil hnext⟩

/-- Entries are read up to the bracket behind the last one, in a round each; they are kept with the
last one first. -/
theorem hasEntries_of_entries {entry : String → List (String × α) → Reader (List (String × α))}
    (hentry : ∀ name es input, entry name es input =
      (colon >>= fun _ ↦ read >>= fun a ↦ pure ((name, a) :: es)) input)
    {es before : List (String × α)} (h : entries entry n first before input = (.ok es, rest)) :
    ∃ more added, rest = byte '\x7d' :: more ∧ es = added.reverse ++ before ∧ added.length < n ∧
      HasEntries read first input added more := by
  induction n generalizing first input before with
  | zero => cases h
  | succ n ih =>
    obtain ⟨next, start, hnext, h⟩ := bind_eq_ok h
    cases next with
    | true =>
      obtain ⟨-, start, rfl, -⟩ | ⟨⟨⟩, -⟩ := hasEntry_eq_ok hnext
      obtain ⟨name, behind, hname, h⟩ := bind_eq_ok h
      obtain ⟨state, mid, hstate, h⟩ := bind_eq_ok h
      rw [hentry] at hstate
      obtain ⟨_, before', hcolon, hstate⟩ := bind_eq_ok hstate
      obtain ⟨a, mid', hread, hstate⟩ := bind_eq_ok hstate
      cases hstate
      obtain ⟨more, added, rfl, rfl, hlt, hadded⟩ := ih h
      exact ⟨more, (name, a) :: added, rfl, by simp, Nat.succ_lt_succ hlt,
        .cons hnext hname hcolon hread hadded⟩
    | false =>
      cases h
      obtain ⟨⟨⟩, -⟩ | ⟨-, more, -, rfl⟩ := hasEntry_eq_ok hnext
      exact ⟨more, [], rfl, rfl, Nat.succ_pos n, .nil hnext⟩

/-- A value that is read has the structure of a value. -/
theorem hasValue_of_value (h : value depth input = (.ok v, rest)) :
    HasValue depth input v rest := by
  rw [value] at h
  obtain ⟨b, more, hinput, h⟩ := startOfValue_bind_eq_ok h
  rw [left_bind] at h
  dsimp only at h
  split at h
  · next hb =>
    cases depth with
    | zero => cases h
    | succ depth =>
      simp only [advance_bind_cons] at h
      obtain ⟨vs, _, hread, h⟩ := bind_eq_ok h
      cases h
      obtain ⟨_, helements, hclose⟩ := closing_eq_ok hread
      obtain ⟨more', rfl, hvs⟩ := hasElements_of_elements helements
      rw [closeList_cons] at hclose
      cases hclose
      exact .array (hb ▸ hinput) hvs
  split at h
  · next hb =>
    cases depth with
    | zero => cases h
    | succ depth =>
      simp only [advance_bind_cons] at h
      obtain ⟨es, _, hreversed, h⟩ := bind_eq_ok h
      cases h
      obtain ⟨added, _, hread, hreversed⟩ := bind_eq_ok hreversed
      cases hreversed
      obtain ⟨_, hentries, hclose⟩ := closing_eq_ok hread
      obtain ⟨more', es, rfl, rfl, hlt, hes⟩ :=
        hasEntries_of_entries (fun _ _ _ ↦ rfl) hentries
      rw [closeObject_cons] at hclose
      cases hclose
      rw [List.append_nil, List.reverse_reverse]
      exact .object (hb ▸ hinput) hes hlt
  · next hlist hobject =>
    refine .scalar hinput ?_ h
    rw [opened, if_neg hlist, if_neg hobject]

/-! ## Skipping values -/

/-- Skip what comes behind a bracket or a comma, among the brackets that are open there. -/
def skipOn (rounds : Nat) (brackets : List Bracket) : Reader Unit :=
  match brackets with
  | [] => pure ()
  | .list :: _ => skipWithin rounds brackets
  | .object :: _ => do
    skipName
    skipWithin rounds brackets

/-- Skip what comes behind a value. -/
def skipBehind (rounds : Nat) (open_ : List Bracket) : Reader Unit := do
  skipOn rounds (← closeBrackets true open_)

/-- Skipping passes over a value as over a single token, whatever brackets are open around it. -/
def Passes (input rest : Bytes) : Prop :=
  rest.length < input.length ∧ ∀ rounds open_, input.length < rounds →
    ∃ left, rest.length < left ∧ skipWithin rounds open_ input = skipBehind left open_ rest

/-- Skipping passes over an item among those of a bracket: an element of a list, or an entry of an
object with its name. -/
inductive PassesItem : Bracket → Bytes → Bytes → Prop
  | element {input rest : Bytes} (h : Passes input rest) : PassesItem .list input rest
  | entry {input start rest : Bytes} (hname : skipName input = (.ok (), start))
      (hlt : start.length < input.length) (h : Passes start rest) : PassesItem .object input rest

/-- Skipping passes over the items of a bracket, with the bracket that closes it. -/
def Closes (comma : Bool) (bracket : Bracket) (input rest : Bytes) : Prop :=
  rest.length < input.length ∧ ∀ rounds open_, input.length < rounds →
    ∃ left, rest.length < left ∧
      (closeBrackets comma (bracket :: open_) >>= skipOn rounds) input = skipBehind left open_ rest

private theorem skipWithin_eq (rounds : Nat) (open_ : List Bracket) :
    skipWithin (rounds + 1) open_ = (do
    let b ← startOfValue
    let brackets ← match opened b with
      | some bracket => do
        advance
        closeBrackets false (bracket :: open_)
      | none => do
        skipScalar b
        closeBrackets true open_
    skipOn rounds brackets) := rfl

/-- A value in brackets is passed over with its items. -/
theorem Closes.passes (hinput : input.dropWhile isBlankByte = b :: start)
    (hb : opened b = some bracket) (h : Closes false bracket start rest) : Passes input rest := by
  obtain ⟨hlt, h⟩ := h
  have hstart := length_lt_of_token hinput
  refine ⟨by omega, fun rounds open_ hrounds ↦ ?_⟩
  obtain ⟨rounds, rfl⟩ := Nat.exists_eq_succ_of_ne_zero (Nat.ne_zero_of_lt hrounds)
  rw [skipWithin_eq, bind_of_ok (startOfValue_of_token hinput), hb]
  exact h rounds open_ (by omega)

private theorem passes_scalar (hinput : input.dropWhile isBlankByte = b :: start)
    (hb : opened b = none) (h : scalar b (b :: start) = (.ok v, rest)) : Passes input rest := by
  obtain ⟨hskip, hle⟩ := skipScalar_of_scalar h
  have hstart := length_lt_of_token hinput
  refine ⟨by omega, fun rounds open_ hrounds ↦ ?_⟩
  obtain ⟨rounds, rfl⟩ := Nat.exists_eq_succ_of_ne_zero (Nat.ne_zero_of_lt hrounds)
  refine ⟨rounds, by omega, ?_⟩
  rw [skipWithin_eq, bind_of_ok (startOfValue_of_token hinput), hb]
  exact bind_of_ok hskip _

/-- Blanks before a value are passed over with it. -/
theorem Passes.of_dropWhile (h : Passes (input.dropWhile isBlankByte) rest) :
    Passes input rest := by
  obtain ⟨hlt, h⟩ := h
  have hle := List.length_dropWhile_le isBlankByte input
  refine ⟨by omega, fun rounds open_ hrounds ↦ ?_⟩
  obtain ⟨left, hleft, h⟩ := h rounds open_ (by omega)
  refine ⟨left, hleft, ?_⟩
  obtain ⟨rounds, rfl⟩ := Nat.exists_eq_succ_of_ne_zero (Nat.ne_zero_of_lt hrounds)
  rw [← h, skipWithin_eq]
  exact (startOfValue_bind_dropWhile _ input).symm

private theorem PassesItem.of_dropWhile
    (h : PassesItem bracket (input.dropWhile isBlankByte) rest) :
    PassesItem bracket input rest := by
  cases h with
  | element h => exact .element h.of_dropWhile
  | entry hname hlt h =>
    refine .entry ?_ (Nat.lt_of_lt_of_le hlt (List.length_dropWhile_le isBlankByte input)) h
    rw [← hname]
    exact (peekToken_bind_dropWhile _ input).symm

private theorem PassesItem.skipOn_eq (h : PassesItem bracket input rest) :
    rest.length < input.length ∧
    ∀ rounds open_, input.length < rounds → ∃ left, rest.length < left ∧
      skipOn rounds (bracket :: open_) input = skipBehind left (bracket :: open_) rest := by
  cases h with
  | element h => exact ⟨h.1, fun rounds open_ ↦ h.2 rounds (.list :: open_)⟩
  | entry hname hlt h =>
    refine ⟨Nat.lt_trans h.1 hlt, fun rounds open_ hrounds ↦ ?_⟩
    obtain ⟨left, hleft, h⟩ := h.2 rounds (.object :: open_) (Nat.lt_trans hlt hrounds)
    exact ⟨left, hleft, (bind_of_ok hname _).trans h⟩

/-- A bracket closes at once. -/
theorem closes_end (comma : Bool) (h : input.dropWhile isBlankByte = bracket.closer :: rest) :
    Closes comma bracket input rest := by
  have hlt := length_lt_of_token h
  refine ⟨hlt, fun rounds open_ hrounds ↦ ⟨rounds, by omega, ?_⟩⟩
  have hclose : closeBrackets comma (bracket :: open_) input = closeBrackets true open_ rest := by
    rw [closeBrackets, peekToken_bind, h]
    cases comma <;> cases bracket <;> rfl
  simp only [bind, hclose, skipBehind]

private theorem closeBrackets_of_first (h : input.dropWhile isBlankByte = b :: rest)
    (hb : b ≠ bracket.closer) :
    closeBrackets false (bracket :: open_) input = (.ok (bracket :: open_), b :: rest) := by
  have hclosed : ¬(b = byte ']' ∧ bracket = .list ∨ b = byte '\x7d' ∧ bracket = .object) := by
    rintro (⟨rfl, rfl⟩ | ⟨rfl, rfl⟩) <;> exact hb rfl
  rw [closeBrackets, peekToken_bind, h]
  simp only [List.head?_cons, Bool.false_eq_true, false_and, if_false, if_neg hclosed]
  rfl

private theorem closeBrackets_of_next (h : input.dropWhile isBlankByte = byte ',' :: rest) :
    closeBrackets true (bracket :: open_) input = (.ok (bracket :: open_), rest) := by
  rw [closeBrackets, peekToken_bind, h]
  rfl

/-- A bracket closes behind another item. -/
theorem Closes.of_item (hfollows : Follows bracket first input start)
    (hitem : PassesItem bracket start mid) (h : Closes true bracket mid rest) :
    Closes (!first) bracket input rest := by
  -- where the item starts, what is open is what was open before it
  obtain ⟨start', hitem', hle, hopen⟩ : ∃ start', PassesItem bracket start' mid ∧
      start'.length ≤ input.length ∧ ∀ open_,
        closeBrackets (!first) (bracket :: open_) input = (.ok (bracket :: open_), start') := by
    cases hfollows with
    | first hinput hb =>
      exact ⟨_, hitem, hinput ▸ List.length_dropWhile_le isBlankByte input,
        fun _ ↦ closeBrackets_of_first hinput hb⟩
    | next hinput =>
      exact ⟨_, hitem.of_dropWhile, Nat.le_of_lt (length_lt_of_token hinput),
        fun _ ↦ closeBrackets_of_next hinput⟩
  obtain ⟨hlt', hskip⟩ := hitem'.skipOn_eq
  obtain ⟨hlt, hcloses⟩ := h
  refine ⟨by omega, fun rounds open_ hrounds ↦ ?_⟩
  obtain ⟨left, hleft, hskip⟩ := hskip rounds open_ (by omega)
  rw [bind_of_ok (hopen open_), hskip]
  exact hcloses left open_ hleft

private theorem HasElements.closes
    (hread : ∀ input a rest, read input = (.ok a, rest) → Passes input rest) {as : List α}
    (h : HasElements read first input as rest) :
    Closes (!first) .list input rest := by
  induction h with
  | nil hend =>
    obtain ⟨⟨⟩, -⟩ | ⟨-, more, hinput, hmore⟩ := hasElement_eq_ok hend
    cases hmore
    exact closes_end _ hinput
  | cons hnext hvalue _ ih =>
    obtain ⟨-, hfollows⟩ | ⟨⟨⟩, -⟩ := hasElement_eq_ok hnext
    exact ih.of_item hfollows (.element (hread _ _ _ hvalue))

private theorem length_lt_of_colon (h : colon input = (.ok (), rest)) :
    rest.length < input.length := by
  obtain h | ⟨b, more, hinput, h⟩ := peekToken_bind_eq_ok h
  · cases h
  dsimp only at h
  split at h
  · cases h
    exact length_lt_of_token hinput
  · cases h

/-- A name is passed over with its colon. -/
theorem skipName_of_restOfString {name : String} {before : Bytes}
    (hname : restOfString start = (.ok name, mid)) (hcolon : colon mid = (.ok (), before)) :
    skipName (byte '"' :: start) = (.ok (), before) ∧ before.length ≤ start.length := by
  obtain ⟨hskip, hle⟩ := skipString_of_restOfString hname (Nat.lt_succ_self _)
  refine ⟨?_, Nat.le_trans (Nat.le_of_lt (length_lt_of_colon hcolon)) hle⟩
  rw [← hcolon]
  exact bind_of_ok hskip _

private theorem HasEntries.closes
    (hread : ∀ input a rest, read input = (.ok a, rest) → Passes input rest)
    {es : List (String × α)} (h : HasEntries read first input es rest) :
    Closes (!first) .object input rest := by
  induction h with
  | nil hend =>
    obtain ⟨⟨⟩, -⟩ | ⟨-, more, hinput, hmore⟩ := hasEntry_eq_ok hend
    cases hmore
    exact closes_end _ hinput
  | cons hnext hname hcolon hvalue _ ih =>
    obtain ⟨-, -, -, hfollows⟩ | ⟨⟨⟩, -⟩ := hasEntry_eq_ok hnext
    obtain ⟨hskip, hle⟩ := skipName_of_restOfString hname hcolon
    exact ih.of_item hfollows (.entry hskip (Nat.lt_succ_of_le hle) (hread _ _ _ hvalue))

/-- What is read as a value is passed over as one. -/
theorem passes_of_value (h : value depth input = (.ok v, rest)) : Passes input rest := by
  induction depth generalizing input v rest with
  | zero =>
    cases hasValue_of_value h with
    | scalar hinput hb h => exact passes_scalar hinput hb h
  | succ depth ih =>
    cases hasValue_of_value h with
    | array hinput h => exact (h.closes fun _ _ _ ↦ ih).passes hinput rfl
    | object hinput h _ => exact (h.closes fun _ _ _ ↦ ih).passes hinput rfl
    | scalar hinput hb h => exact passes_scalar hinput hb h

/-- What is read as a value is skipped. -/
theorem skip_of_value (h : value depth input = (.ok v, rest)) : skip input = (.ok (), rest) := by
  obtain ⟨-, h⟩ := passes_of_value h
  obtain ⟨left, -, h⟩ := h (input.length + 1) [] (Nat.lt_succ_self _)
  exact h

end Harvest.Json
