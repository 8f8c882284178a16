import Harvest.Proofs.Text.Utf8
import Harvest.Url.Basic

/-!
# Reading a query back

A query is read as pairs of names and values: parts between ampersands, each with its name before
the first equals sign and its value behind it. A plus sign stands for a space, and escaped bytes
for the text that they encode. What was escaped is read back as it was meant.
-/

namespace Harvest.Url

variable {set : EscapeSet} {c : Char} {cs rest : Chars} {n : Nat}

/-! ## Percent encoding -/

private theorem hexValue?_hexDigit (h : n < 16) : hexValue? (hexDigit n) = some n := by
  interval_cases n <;> rfl

/-- Only a percent sign stands for more than itself. -/
theorem unescape_cons_of_ne (h : c ≠ '%') (rest : Chars) :
    unescape (c :: rest) = String.utf8EncodeChar c ++ unescape rest := by
  match rest with
  | [] => simp [unescape]
  | [_] => simp [unescape]
  | _ :: _ :: _ => rw [unescape, if_neg h]

private theorem unescape_escapeByte (b : UInt8) (rest : Chars) :
    unescape (escapeByte b ++ rest) = b :: unescape rest := by
  have hlt : b.toNat < 256 := b.toNat_lt
  have hvalue : b.toNat / 16 * 16 + b.toNat % 16 = b.toNat := by omega
  simp only [escapeByte, List.cons_append, List.nil_append, unescape,
    hexValue?_hexDigit (n := b.toNat / 16) (by omega),
    hexValue?_hexDigit (n := b.toNat % 16) (by omega), hvalue, UInt8.ofNat_toNat, if_pos]

private theorem unescape_flatMap_escapeByte (bytes : Text.Bytes) (rest : Chars) :
    unescape (bytes.flatMap escapeByte ++ rest) = bytes ++ unescape rest := by
  induction bytes with
  | nil => rfl
  | cons b bytes ih =>
    rw [List.flatMap_cons, List.append_assoc, unescape_escapeByte, ih, List.cons_append]

/-- Where percent signs are escaped, what was escaped is read back. -/
theorem unescape_escape (h : set '%' = true) (cs : Chars) :
    unescape (escape set cs) = Text.encode cs := by
  induction cs with
  | nil => rfl
  | cons c cs ih =>
    rw [escape, List.flatMap_cons, ← escape, Text.encode, List.flatMap_cons, ← Text.encode, ← ih,
      escapeChar]
    split
    · next hsafe =>
      apply unescape_cons_of_ne
      rintro rfl
      simp [h] at hsafe
    · exact unescape_flatMap_escapeByte _ _

/-- The characters of an escaped text are safe ones, percent signs and digits. -/
theorem of_mem_escape (h : c ∈ escape set cs) :
    c.toNat < 0x80 ∧ set c = false ∨ c = '%' ∨ ∃ n < 16, c = hexDigit n := by
  obtain ⟨d, -, hd⟩ := List.mem_flatMap.mp h
  rw [escapeChar] at hd
  split at hd
  · next hsafe =>
    obtain rfl := List.mem_singleton.mp hd
    exact .inl (by simpa using hsafe)
  · obtain ⟨b, -, hb⟩ := List.mem_flatMap.mp hd
    have hlt : b.toNat < 256 := b.toNat_lt
    simp only [escapeByte, List.mem_cons, List.not_mem_nil, or_false] at hb
    obtain rfl | rfl | rfl := hb
    · exact .inr (.inl rfl)
    · exact .inr (.inr ⟨_, by omega, rfl⟩)
    · exact .inr (.inr ⟨_, by omega, rfl⟩)

/-- Safe characters are not escaped. -/
theorem escape_eq_self (h : ∀ c ∈ cs, c.toNat < 0x80 ∧ set c = false) : escape set cs = cs := by
  induction cs with
  | nil => rfl
  | cons c cs ih =>
    obtain ⟨⟨hascii, hsafe⟩, hrest⟩ := List.forall_mem_cons.mp h
    rw [escape, List.flatMap_cons, ← escape, ih hrest, escapeChar]
    simp [hascii, hsafe]

/-! ## Pairs -/

/-- A name or value of a query as it is meant. -/
def meant (part : Chars) : String :=
  Text.textOf (unescape (part.map fun c ↦ if c = '+' then ' ' else c))

/-- The name and the value of a part of a query. -/
def pair (part : Chars) : String × String :=
  (meant (part.takeWhile (· ≠ '=')), meant ((part.dropWhile (· ≠ '=')).drop 1))

/-- The pairs of a URL's query. -/
def pairs (u : Url) : List (String × String) :=
  ((Text.splitAt '&' (u.query.getD [])).filter (· ≠ [])).map pair

/-- An escaped text is read back where percent and plus signs are escaped. -/
theorem meant_escape (hpercent : set '%' = true) (hplus : set '+' = true) (text : String) :
    meant (escape set text.toList) = text := by
  have hnone : ∀ c ∈ escape set text.toList, c ≠ '+' := by
    rintro c hc rfl
    obtain ⟨-, hsafe⟩ | hc | ⟨n, hn, hc⟩ := of_mem_escape hc
    · simp [hplus] at hsafe
    · simp at hc
    · interval_cases n <;> simp [hexDigit] at hc
  have hmap : (escape set text.toList).map (fun c ↦ if c = '+' then ' ' else c) =
      escape set text.toList := by
    rw [List.map_congr_left fun c hc ↦ if_neg (hnone c hc), List.map_id']
  rw [meant, hmap, unescape_escape hpercent, Text.textOf_encode, String.ofList_toList]

/-- Name and value are told apart by the first equals sign. -/
theorem pair_append {name value : Chars} (h : '=' ∉ name) :
    pair (name ++ '=' :: value) = (meant name, meant value) := by
  have hname : ∀ c ∈ name, decide (c ≠ '=') = true := by
    intro c hc
    rw [decide_eq_true_eq]
    rintro rfl
    exact h hc
  rw [pair, List.takeWhile_append_of_pos hname, List.dropWhile_append_of_pos hname]
  simp

end Harvest.Url
