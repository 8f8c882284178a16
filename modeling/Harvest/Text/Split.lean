/-!
# Splitting and joining

A text is split at each character of a class; a class that matches nothing leaves one part.
-/

namespace Harvest.Text

/-- The parts of a text between the characters of a class. -/
def splitWhere (p : Char → Bool) : List Char → List (List Char)
  | [] => [[]]
  | c :: cs =>
    match splitWhere p cs with
    | [] => [[c]]
    | part :: parts => if p c then [] :: part :: parts else (c :: part) :: parts

/-- The parts of a text between the occurrences of a character. -/
def splitAt (sep : Char) (cs : List Char) : List (List Char) :=
  splitWhere (· == sep) cs

/-- Parts with a text between them. -/
def joinWith (sep : List Char) : List (List Char) → List Char
  | [] => []
  | [part] => part
  | part :: parts => part ++ sep ++ joinWith sep parts

/-- Whether a text holds another. -/
def holds (needle : List Char) : List Char → Bool
  | [] => needle.isEmpty
  | c :: cs => needle.isPrefixOf (c :: cs) || holds needle cs

private theorem joinWith_cons_cons (sep part next : List Char) (parts : List (List Char)) :
    joinWith sep (part :: next :: parts) = part ++ sep ++ joinWith sep (next :: parts) := rfl

/-- Nothing stands in joined parts but the parts and what joins them. -/
theorem mem_joinWith {c : Char} {sep : List Char} {parts : List (List Char)}
    (h : c ∈ joinWith sep parts) : c ∈ sep ∨ ∃ part ∈ parts, c ∈ part := by
  induction parts with
  | nil => simp [joinWith] at h
  | cons part parts ih =>
    cases parts with
    | nil => exact .inr ⟨part, List.mem_singleton_self _, h⟩
    | cons next parts =>
      rw [joinWith_cons_cons, List.mem_append, List.mem_append] at h
      obtain (hpart | hsep) | hrest := h
      · exact .inr ⟨part, List.mem_cons_self, hpart⟩
      · exact .inl hsep
      · obtain hsep | ⟨other, hother, hc⟩ := ih hrest
        · exact .inl hsep
        · exact .inr ⟨other, List.mem_cons_of_mem _ hother, hc⟩

/-- A text has at least one part. -/
theorem splitWhere_ne_nil (p : Char → Bool) (cs : List Char) : splitWhere p cs ≠ [] := by
  cases cs with
  | nil => simp [splitWhere]
  | cons c cs =>
    rw [splitWhere]
    split
    · simp
    · split <;> simp

/-- A text with a separator in it has the parts before the separator and those behind it. -/
theorem splitWhere_append_cons {p : Char → Bool} {sep : Char} (h : p sep = true)
    (before behind : List Char) :
    splitWhere p (before ++ sep :: behind) = splitWhere p before ++ splitWhere p behind := by
  induction before with
  | nil =>
    cases hq : splitWhere p behind with
    | nil => exact absurd hq (splitWhere_ne_nil _ _)
    | cons part parts => simp [splitWhere, hq, h]
  | cons c before ih =>
    cases hq : splitWhere p before with
    | nil => exact absurd hq (splitWhere_ne_nil _ _)
    | cons part parts =>
      simp only [List.cons_append, splitWhere, ih, hq]
      split <;> rfl

/-- A separator parts what is before it from what is behind it. -/
theorem splitAt_append_cons (sep : Char) (before behind : List Char) :
    splitAt sep (before ++ sep :: behind) = splitAt sep before ++ splitAt sep behind :=
  splitWhere_append_cons (p := (· == sep)) (beq_self_eq_true sep) before behind

/-- A text without characters of the class is its own only part. -/
theorem splitWhere_eq_self {p : Char → Bool} {cs : List Char} (h : ∀ c ∈ cs, p c = false) :
    splitWhere p cs = [cs] := by
  induction cs with
  | nil => rfl
  | cons c cs ih =>
    obtain ⟨hc, hcs⟩ := List.forall_mem_cons.mp h
    simp [splitWhere, ih hcs, hc]

/-- A text without the separator is its own only part. -/
theorem splitAt_of_not_mem {sep : Char} {cs : List Char} (h : sep ∉ cs) :
    splitAt sep cs = [cs] := by
  refine splitWhere_eq_self fun c hc ↦ beq_false_of_ne ?_
  rintro rfl
  exact h hc

/-- What is behind a text belongs to its last part where no characters of the class are in it. -/
theorem splitWhere_append {p : Char → Bool} {tail : List Char} (h : ∀ c ∈ tail, p c = false)
    (cs : List Char) :
    ∃ parts last, splitWhere p cs = parts ++ [last] ∧
      splitWhere p (cs ++ tail) = parts ++ [last ++ tail] := by
  induction cs with
  | nil => exact ⟨[], [], rfl, splitWhere_eq_self h⟩
  | cons c cs ih =>
    obtain ⟨parts, last, hparts, hparts'⟩ := ih
    rw [List.cons_append, splitWhere, splitWhere, hparts, hparts']
    cases parts with
    | nil =>
      by_cases hc : p c = true
      · exact ⟨[[]], last, by simp [hc], by simp [hc]⟩
      · exact ⟨[], c :: last, by simp [hc], by simp [hc]⟩
    | cons part parts =>
      by_cases hc : p c = true
      · exact ⟨[] :: part :: parts, last, by simp [hc], by simp [hc]⟩
      · exact ⟨(c :: part) :: parts, last, by simp [hc], by simp [hc]⟩

/-- Parts without the separator are the parts of what joins them. -/
theorem splitAt_joinWith {sep : Char} {parts : List (List Char)} (hne : parts ≠ [])
    (h : ∀ part ∈ parts, sep ∉ part) : splitAt sep (joinWith [sep] parts) = parts := by
  induction parts with
  | nil => exact absurd rfl hne
  | cons part parts ih =>
    obtain ⟨hpart, hparts⟩ := List.forall_mem_cons.mp h
    cases parts with
    | nil => exact splitAt_of_not_mem hpart
    | cons next parts =>
      rw [joinWith_cons_cons, List.append_assoc, List.singleton_append, splitAt_append_cons,
        splitAt_of_not_mem hpart, ih (List.cons_ne_nil _ _) hparts, List.singleton_append]

/-- No part holds a character of the class. -/
theorem not_of_mem_splitWhere {p : Char → Bool} {cs part : List Char}
    (h : part ∈ splitWhere p cs) : ∀ c ∈ part, p c = false := by
  induction cs generalizing part with
  | nil => simp_all [splitWhere]
  | cons c cs ih =>
    rw [splitWhere] at h
    split at h
    · next hn => exact absurd hn (splitWhere_ne_nil _ _)
    · next q qs hq =>
      rw [hq] at ih
      split at h <;> grind

/-- The parts of a text hold nothing that the text does not. -/
theorem mem_of_mem_splitWhere {p : Char → Bool} {cs part : List Char} {c : Char}
    (h : part ∈ splitWhere p cs) (hc : c ∈ part) : c ∈ cs := by
  induction cs generalizing part with
  | nil => simp_all [splitWhere]
  | cons d cs ih =>
    rw [splitWhere] at h
    split at h
    · next hn => exact absurd hn (splitWhere_ne_nil _ _)
    · next q qs hq =>
      rw [hq] at ih
      split at h <;> grind

end Harvest.Text
