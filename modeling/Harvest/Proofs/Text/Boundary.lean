import Harvest.Proofs.Text.Utf8
import Harvest.Text.Boundary

/-!
# Texts that are cut

The places where the bytes of a text can be cut are those between its characters. The search for
the last one up to a limit ends at the start of the text at the latest and comes by three bytes at
most, so what it leaves of the text is the longest beginning within the limit.
-/

namespace Harvest.Text

variable {bytes : Bytes} {c : Char} {cs whole part : List Char} {n place limit : Nat}

/-! ## Bytes of characters -/

private theorem isInner_ofNat (h : n < 0x100) :
    isInner (UInt8.ofNat n) = true ↔ 0x80 ≤ n ∧ n < 0xC0 := by
  rw [isInner, toNat_ofNat_byte h, Bool.and_eq_true, decide_eq_true_eq, decide_eq_true_eq]

/-- The bytes of a character: the first one, and up to three behind it. -/
theorem utf8EncodeChar_eq_cons (c : Char) : ∃ b inner, String.utf8EncodeChar c = b :: inner ∧
    isInner b = false ∧ (∀ b ∈ inner, isInner b = true) ∧ inner.length ≤ 3 := by
  have hvalid : c.toNat < 0x110000 := by
    rcases c.valid with h | h
    · exact Nat.lt_trans h (by decide)
    · exact h.2
  have hval : c.val.toNat = c.toNat := rfl
  have hinner : ∀ k, isInner (UInt8.ofNat (k % 0x40 + 0x80)) = true := by
    intro k
    rw [isInner_ofNat (by omega)]
    omega
  have hfirst : ∀ k, k < 0x100 → k < 0x80 ∨ 0xC0 ≤ k → isInner (UInt8.ofNat k) = false := by
    intro k hk hrange
    rw [← Bool.not_eq_true, isInner_ofNat hk]
    omega
  simp only [String.utf8EncodeChar, hval]
  generalize c.toNat = n at hvalid
  split
  · next h => exact ⟨_, [], rfl, hfirst n (by omega) (by omega), by simp, by simp⟩
  split
  · next h =>
    exact ⟨_, _, rfl, hfirst _ (by omega) (by omega),
      List.forall_mem_singleton.mpr (hinner _), by simp⟩
  split
  · next h =>
    exact ⟨_, _, rfl, hfirst _ (by omega) (by omega),
      List.forall_mem_cons.mpr ⟨hinner _, List.forall_mem_singleton.mpr (hinner _)⟩, by simp⟩
  · next h =>
    exact ⟨_, _, rfl, hfirst _ (by omega) (by omega),
      List.forall_mem_cons.mpr ⟨hinner _, List.forall_mem_cons.mpr ⟨hinner _,
        List.forall_mem_singleton.mpr (hinner _)⟩⟩, by simp⟩

/-! ## Boundaries -/

private theorem isBoundary_of_ne_zero (h : place ≠ 0) : isBoundary bytes place =
    (bytes[place]?.elim (place == bytes.length) fun b ↦ !isInner b) := by
  rw [isBoundary, beq_eq_false_iff_ne.mpr h, Bool.false_or]
  cases bytes[place]? <;> rfl

/-- A character is not cut. -/
theorem isBoundary_encode_cons_of_lt (h : place ≠ 0)
    (hlt : place < (String.utf8EncodeChar c).length) :
    isBoundary (encode (c :: cs)) place = false := by
  obtain ⟨b, inner, hbytes, -, hinner, -⟩ := utf8EncodeChar_eq_cons c
  obtain ⟨k, rfl⟩ := Nat.exists_eq_succ_of_ne_zero h
  rw [hbytes, List.length_cons] at hlt
  have hk : k < inner.length := Nat.lt_of_succ_lt_succ hlt
  have hget : (encode (c :: cs))[k + 1]? = some inner[k] := by
    rw [encode_cons, hbytes, List.cons_append, List.getElem?_cons_succ,
      List.getElem?_append_left hk, List.getElem?_eq_getElem hk]
  rw [isBoundary_of_ne_zero h, hget, Option.elim_some, hinner _ (List.getElem_mem hk)]
  rfl

/-- What follows a character starts with no byte from within one. -/
theorem isInner_of_head?_encode {b : UInt8} (h : (encode cs)[0]? = some b) : isInner b = false := by
  cases cs with
  | nil => cases h
  | cons c cs =>
    obtain ⟨first, inner, hbytes, hfirst, -⟩ := utf8EncodeChar_eq_cons c
    rw [encode_cons, hbytes] at h
    rw [← Option.some.inj h]
    exact hfirst

/-- Behind a character a text is cut as what follows is. -/
theorem isBoundary_encode_cons_add (c : Char) (cs : List Char) (k : Nat) :
    isBoundary (encode (c :: cs)) ((String.utf8EncodeChar c).length + k) =
      isBoundary (encode cs) k := by
  have hpos : (String.utf8EncodeChar c).length ≠ 0 := by
    obtain ⟨b, inner, hbytes, -⟩ := utf8EncodeChar_eq_cons c
    rw [hbytes]
    exact Nat.succ_ne_zero _
  have hget : (encode (c :: cs))[(String.utf8EncodeChar c).length + k]? = (encode cs)[k]? := by
    rw [encode_cons, List.getElem?_append_right (Nat.le_add_right _ _), Nat.add_sub_cancel_left]
  rw [isBoundary_of_ne_zero (by omega), hget]
  cases hnext : (encode cs)[k]? with
  | some b =>
    rw [Option.elim_some]
    by_cases hk : k = 0
    · subst hk
      rw [isInner_of_head?_encode hnext, isBoundary_zero]
      rfl
    · rw [isBoundary_of_ne_zero hk, hnext, Option.elim_some]
  | none =>
    have hlength : (String.utf8EncodeChar c).length + k = (encode (c :: cs)).length ↔
        k = (encode cs).length := by
      rw [encode_cons, List.length_append]
      omega
    rw [Option.elim_none, Bool.eq_iff_iff, beq_iff_eq, hlength]
    by_cases hk : k = 0
    · subst hk
      have hnil := List.getElem?_eq_none_iff.mp hnext
      simp only [isBoundary_zero, iff_true]
      omega
    · rw [isBoundary_of_ne_zero hk, hnext, Option.elim_none, beq_iff_eq]

/-- A text is cut between its characters. -/
theorem isBoundary_encode_iff : isBoundary (encode cs) place = true ↔
    ∃ before, before <+: cs ∧ (encode before).length = place := by
  induction cs generalizing place with
  | nil =>
    by_cases h : place = 0
    · subst h
      exact iff_of_true (isBoundary_zero _) ⟨[], List.prefix_rfl, rfl⟩
    · simp [isBoundary_of_ne_zero h, encode, Ne.symm h, h]
  | cons c cs ih =>
    constructor
    · intro h
      by_cases hzero : place = 0
      · exact ⟨[], List.nil_prefix, hzero.symm⟩
      have hle : (String.utf8EncodeChar c).length ≤ place := by
        by_contra hlt
        rw [isBoundary_encode_cons_of_lt hzero (Nat.lt_of_not_le hlt)] at h
        cases h
      obtain ⟨k, rfl⟩ := Nat.exists_eq_add_of_le hle
      rw [isBoundary_encode_cons_add, ih] at h
      obtain ⟨before, hbefore, rfl⟩ := h
      refine ⟨c :: before, (List.prefix_cons_inj c).mpr hbefore, ?_⟩
      rw [encode_cons, List.length_append]
    · rintro ⟨before, hbefore, rfl⟩
      cases before with
      | nil => exact isBoundary_zero _
      | cons d before =>
        obtain ⟨rfl, hwithin⟩ := List.cons_prefix_cons.mp hbefore
        have hlength : (encode (d :: before)).length =
            (String.utf8EncodeChar d).length + (encode before).length := by
          rw [encode_cons, List.length_append]
        rw [hlength, isBoundary_encode_cons_add, ih]
        exact ⟨before, hwithin, rfl⟩

/-! ## The search -/

/-- How the last boundary is looked for: back by one byte from a place that is none, up to a place
that is one. There is no step back from the start. -/
inductive Retreats (bytes : Bytes) : Nat → Nat → Prop
  | found {place : Nat} (h : isBoundary bytes place = true) : Retreats bytes place place
  | back {place found : Nat} (h : isBoundary bytes (place + 1) = false)
      (hrest : Retreats bytes place found) : Retreats bytes (place + 1) found

/-- The last boundary is found by retreating. -/
theorem retreats_lastBoundary (bytes : Bytes) (place : Nat) :
    Retreats bytes place (lastBoundary bytes place) := by
  induction place with
  | zero =>
    rw [lastBoundary, dif_pos (isBoundary_zero bytes)]
    exact .found (isBoundary_zero bytes)
  | succ place ih =>
    rw [lastBoundary]
    by_cases h : isBoundary bytes (place + 1) = true
    · rw [dif_pos h]
      exact .found h
    · rw [dif_neg h, Nat.add_sub_cancel]
      exact .back (Bool.eq_false_of_not_eq_true h) ih

private theorem Retreats.le {found : Nat} (h : Retreats bytes place found) : found ≤ place := by
  induction h with
  | found => exact Nat.le_refl _
  | back _ _ ih => exact Nat.le_succ_of_le ih

private theorem Retreats.isBoundary {found : Nat} (h : Retreats bytes place found) :
    isBoundary bytes found = true := by
  induction h with
  | found h => exact h
  | back _ _ ih => exact ih

/-- No boundary is passed over. -/
theorem Retreats.le_found {found : Nat} (h : Retreats bytes place found) (hle : n ≤ place)
    (hn : Text.isBoundary bytes n = true) : n ≤ found := by
  induction h with
  | found => exact hle
  | @back place _ hnot _ ih =>
    by_cases heq : n = place + 1
    · rw [heq, hnot] at hn
      cases hn
    · exact ih (by omega)

/-! ## Beginnings -/

/-- A part of a text is what a limit on bytes leaves of it: its longest beginning within the limit.
That is the whole text where it keeps to the limit, and else at most three bytes short of that. -/
structure IsBeginning (limit : Nat) (whole part : List Char) : Prop where
  isPrefix : part <+: whole
  fits : (encode part).length ≤ limit
  longest : ∀ other, other <+: whole → (encode other).length ≤ limit → other <+: part
  complete : (encode whole).length ≤ limit → part = whole
  close : limit < (encode whole).length → limit ≤ (encode part).length + 3

private theorem length_encode_le (h : part <+: whole) :
    (encode part).length ≤ (encode whole).length := by
  obtain ⟨rest, rfl⟩ := h
  rw [encode_append, List.length_append]
  exact Nat.le_add_right _ _

/-- A longer beginning takes more bytes. -/
theorem prefix_of_length_encode_le {other : List Char} (h : part <+: whole) (h' : other <+: whole)
    (hle : (encode other).length ≤ (encode part).length) : other <+: part := by
  obtain hother | ⟨rest, rfl⟩ := List.prefix_or_prefix_of_prefix h' h
  · exact hother
  · rw [encode_append, List.length_append] at hle
    cases rest with
    | nil => exact (List.append_nil part).symm ▸ List.prefix_rfl
    | cons c rest =>
      obtain ⟨b, inner, hbytes, -⟩ := utf8EncodeChar_eq_cons c
      rw [encode_cons, List.length_append, hbytes, List.length_cons] at hle
      omega

/-- What is cut off at a boundary is the beginning up to it. -/
theorem take_length_encode (h : part <+: whole) :
    (encode whole).take (encode part).length = encode part := by
  obtain ⟨rest, rfl⟩ := h
  rw [encode_append, List.take_left]

/-- The search for a place to cut a text goes back by three bytes at most. -/
theorem le_lastBoundary_encode (h : place ≤ (encode cs).length) :
    place ≤ lastBoundary (encode cs) place + 3 := by
  have hretreats := retreats_lastBoundary (encode cs) place
  obtain ⟨before, ⟨rest, rfl⟩, hbefore⟩ := isBoundary_encode_iff.mp hretreats.isBoundary
  rw [← hbefore] at hretreats ⊢
  cases rest with
  | nil =>
    rw [List.append_nil] at h
    omega
  | cons c rest =>
    obtain ⟨b, inner, hbytes, -, -, hinner⟩ := utf8EncodeChar_eq_cons c
    -- the next boundary is behind the next character, and was not met by the search
    have hnext : isBoundary (encode (before ++ c :: rest)) (encode (before ++ [c])).length = true :=
      isBoundary_encode_iff.mpr ⟨before ++ [c], ⟨rest, by simp⟩, rfl⟩
    have hlength : (encode (before ++ [c])).length = (encode before).length + inner.length + 1 := by
      rw [encode_append, List.length_append, encode_cons, hbytes]
      simp [encode, Nat.add_assoc]
    by_contra hfar
    have hle := hretreats.le_found (by omega) hnext
    omega

/-- Where a text is cut, and what is left of it. -/
theorem beginning_spec (limit : Nat) (cs : List Char) :
    IsBeginning limit cs (beginning limit cs) ∧
      encode (beginning limit cs) =
        (encode cs).take (lastBoundary (encode cs) (min (encode cs).length limit)) := by
  have hretreats := retreats_lastBoundary (encode cs) (min (encode cs).length limit)
  have hclose : min (encode cs).length limit ≤
      lastBoundary (encode cs) (min (encode cs).length limit) + 3 :=
    le_lastBoundary_encode (Nat.min_le_left _ _)
  obtain ⟨before, hwithin, hbefore⟩ := isBoundary_encode_iff.mp hretreats.isBoundary
  have hle := hretreats.le
  have hpart : beginning limit cs = before := by
    rw [beginning, ← hbefore, take_length_encode hwithin, decodeLossy_encode]
  rw [← hbefore] at hretreats hclose hle
  have hlongest : ∀ other, other <+: cs → (encode other).length ≤ limit → other <+: before := by
    intro other hother hfits
    have hbound : (encode other).length ≤ min (encode cs).length limit :=
      Nat.le_min.mpr ⟨length_encode_le hother, hfits⟩
    apply prefix_of_length_encode_le hwithin hother
    exact hretreats.le_found hbound (isBoundary_encode_iff.mpr ⟨other, hother, rfl⟩)
  rw [hpart, ← hbefore, take_length_encode hwithin]
  refine ⟨⟨hwithin, by omega, hlongest, ?_, by omega⟩, rfl⟩
  intro hfits
  exact hwithin.eq_of_length_le (hlongest cs List.prefix_rfl hfits).length_le

end Harvest.Text
