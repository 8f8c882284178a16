import Harvest.Text.Grouped
import Harvest.Text.Split

/-!
# Groups of digits

A comma stands before a digit where a multiple of three digits, the digit itself among them, is left
to come. Said by the index of the digit, that is where the digits behind the first group are counted
off in threes. So a grouped number is one group of one to three digits, and groups of three digits
behind it.
-/

namespace Harvest.Text

/-! ## Where commas stand -/

/-- Whether the digit at an index, among so many digits, starts a group behind another one: groups
start behind the digits that make no three, and at every third digit from there. -/
def startsGroup (length index : Nat) : Bool := 0 < index && (index + 3 - length % 3) % 3 == 0

/-- The digit at an index, behind a comma where it starts a group. -/
def markDigit (length : Nat) (digit : Char × Nat) : List Char :=
  if startsGroup length digit.2 then [',', digit.1] else [digit.1]

/-- A digit starts a group behind another one exactly where it is not the first, and a multiple of
three digits is left to come. -/
theorem startsGroup_add_iff (before behind : Nat) :
    startsGroup (before + behind) before = true ↔ 0 < before ∧ behind % 3 = 0 := by
  simp only [startsGroup, Bool.and_eq_true, decide_eq_true_eq, beq_iff_eq]
  omega

/-- Digits that are left to come get the commas that grouping them gives, and one before them where
they start a group. -/
private theorem flatMap_markDigit (ds : List Char) (index : Nat) :
    (ds.zipIdx index).flatMap (markDigit (index + ds.length)) =
      (if 0 < index ∧ ds ≠ [] ∧ ds.length % 3 = 0 then [','] else []) ++ groupDigits ds := by
  induction ds generalizing index with
  | nil => simp [groupDigits]
  | cons d ds ih =>
    have hlength : index + (d :: ds).length = index + 1 + ds.length := by
      rw [List.length_cons]
      omega
    have hdigit : markDigit (index + (d :: ds).length) (d, index) =
        (if 0 < index ∧ (d :: ds).length % 3 = 0 then [','] else []) ++ [d] := by
      simp only [markDigit, startsGroup_add_iff]
      split <;> rfl
    have hrest : groupDigits (d :: ds) =
        [d] ++ ((if ds ≠ [] ∧ ds.length % 3 = 0 then [','] else []) ++ groupDigits ds) := by
      rw [groupDigits]
      split <;> rfl
    rw [List.zipIdx_cons, List.flatMap_cons, hdigit, hlength, ih, hrest, List.append_assoc]
    simp

/-- Grouped digits are the digits with their commas. -/
theorem groupDigits_eq_flatMap (ds : List Char) :
    groupDigits ds = ds.zipIdx.flatMap (markDigit ds.length) := by
  have h := flatMap_markDigit ds 0
  rw [Nat.zero_add, if_neg (by simp), List.nil_append] at h
  exact h.symm

/-! ## What stands between commas -/

/-- A text that does not start with a separator has its first character in its first part. -/
private theorem splitAt_cons {sep c : Char} {cs part : List Char} {parts : List (List Char)}
    (hc : c ≠ sep) (h : splitAt sep cs = part :: parts) :
    splitAt sep (c :: cs) = (c :: part) :: parts := by
  rw [splitAt] at h ⊢
  rw [splitWhere, h]
  simp [hc]

/-- The groups of some digits: the first one has the digits that make no three, or three where there
are none, and all others have three. -/
theorem splitAt_groupDigits {ds : List Char} (hne : ds ≠ []) (h : ',' ∉ ds) :
    ∃ first rest, splitAt ',' (groupDigits ds) = first :: rest ∧
      first.length = (ds.length - 1) % 3 + 1 ∧ ∀ group ∈ rest, group.length = 3 := by
  induction ds with
  | nil => exact absurd rfl hne
  | cons d ds ih =>
    obtain ⟨hd, hds⟩ : d ≠ ',' ∧ ',' ∉ ds := by simpa [eq_comm] using h
    rw [groupDigits]
    by_cases hnone : ds = []
    · subst hnone
      exact ⟨[d], [], by simp [groupDigits, splitAt, splitWhere, hd], rfl, by simp⟩
    · obtain ⟨first, rest, hgroups, hfirst, hrest⟩ := ih hnone hds
      have hpos : 0 < ds.length := List.length_pos_iff.mpr hnone
      by_cases hthree : ds.length % 3 = 0
      · -- The digits behind this one make groups of three.
        rw [if_pos ⟨hnone, hthree⟩]
        have hone : splitAt ',' [d] = [[d]] := splitAt_of_not_mem (by simpa using Ne.symm hd)
        have hsplit : splitAt ',' (d :: ',' :: groupDigits ds) = [d] :: first :: rest := by
          rw [← List.singleton_append, splitAt_append_cons, hone, hgroups, List.singleton_append]
        refine ⟨[d], first :: rest, hsplit, ?_, List.forall_mem_cons.mpr ⟨by omega, hrest⟩⟩
        rw [List.length_singleton, List.length_cons]
        omega
      · rw [if_neg (fun h ↦ hthree h.2)]
        refine ⟨d :: first, rest, splitAt_cons hd hgroups, ?_, hrest⟩
        rw [List.length_cons, List.length_cons, hfirst]
        omega

/-- Where no part of a text is empty, the text neither starts nor ends with a separator. -/
theorem ends_ne_of_splitAt {sep : Char} {cs : List Char} (h : ∀ part ∈ splitAt sep cs, part ≠ []) :
    cs.head? ≠ some sep ∧ cs.getLast? ≠ some sep := by
  have hends : ∀ before behind, cs = before ++ sep :: behind → before ≠ [] ∧ behind ≠ [] := by
    rintro before behind rfl
    rw [splitAt_append_cons] at h
    constructor
    · rintro rfl
      exact h [] (List.mem_append_left _ (by simp [splitAt, splitWhere])) rfl
    · rintro rfl
      exact h [] (List.mem_append_right _ (by simp [splitAt, splitWhere])) rfl
  constructor
  · intro hhead
    obtain ⟨behind, hcs⟩ := List.head?_eq_some_iff.mp hhead
    exact (hends [] behind hcs).1 rfl
  · intro hlast
    obtain ⟨before, hcs⟩ := List.getLast?_eq_some_iff.mp hlast
    exact (hends before [] hcs).2 rfl

/-! ## Grouped numbers -/

section

variable {n : Nat} {c : Char} {group : List Char}

/-- The decimal form of a number. -/
theorem toList_toString (n : Nat) : (toString n).toList = Nat.toDigits 10 n := by
  rw [Nat.toString_eq_ofList_toDigits, String.toList_ofList]

private theorem isDigit_of_mem_toString (h : c ∈ (toString n).toList) : c.isDigit = true := by
  rw [toList_toString] at h
  exact Nat.isDigit_of_mem_toDigits (by omega) (by omega) h

private theorem comma_notMem_toString (n : Nat) : ',' ∉ (toString n).toList :=
  fun h ↦ absurd (isDigit_of_mem_toString h) (by decide)

/-- A grouped number is its decimal form with grouped digits. -/
theorem toList_grouped (n : Nat) : (grouped n).toList = groupDigits (toString n).toList := by
  rw [grouped, String.toList_ofList, toList_toString]

/-- Without its commas a grouped number is its decimal form. -/
theorem filter_grouped (n : Nat) : (grouped n).toList.filter (· ≠ ',') = (toString n).toList := by
  rw [toList_grouped]
  refine filter_groupDigits fun d hd ↦ ?_
  rintro rfl
  exact comma_notMem_toString n hd

/-- A grouped number has a group of one to three digits, and groups of three digits behind it. -/
theorem splitAt_grouped (n : Nat) : ∃ first rest, splitAt ',' (grouped n).toList = first :: rest ∧
    1 ≤ first.length ∧ first.length ≤ 3 ∧ ∀ group ∈ rest, group.length = 3 := by
  have hne : (toString n).toList ≠ [] := toList_toString n ▸ Nat.toDigits_ne_nil
  obtain ⟨first, rest, hgroups, hfirst, hrest⟩ :=
    splitAt_groupDigits hne (comma_notMem_toString n)
  rw [toList_grouped]
  exact ⟨first, rest, hgroups, by omega, by omega, hrest⟩

/-- No group is empty. -/
theorem ne_nil_of_mem_groups (h : group ∈ splitAt ',' (grouped n).toList) : group ≠ [] := by
  obtain ⟨first, rest, hgroups, hpos, -, hrest⟩ := splitAt_grouped n
  rw [hgroups, List.mem_cons] at h
  obtain rfl | hmem := h
  · exact List.ne_nil_of_length_pos hpos
  · exact List.ne_nil_of_length_pos (by rw [hrest group hmem]; decide)

/-- The groups hold digits only. -/
theorem isDigit_of_mem_groups (h : group ∈ splitAt ',' (grouped n).toList) (hc : c ∈ group) :
    c.isDigit = true := by
  have hmem : c ∈ (grouped n).toList := mem_of_mem_splitWhere h hc
  have hnot : (c == ',') = false := not_of_mem_splitWhere h c hc
  refine isDigit_of_mem_toString (n := n) ?_
  rw [← filter_grouped]
  exact List.mem_filter.mpr ⟨hmem, by simpa using hnot⟩

end

/-- A grouped number is the decimal form of the number, with a comma before each digit that starts a
group behind another one; without its commas it is the decimal form again. Its groups are one of one
to three digits and others of three digits behind it, and it neither starts nor ends with a comma.
-/
theorem grouped_hasGroups (n : Nat) :
    let digits := (toString n).toList
    let groups := splitAt ',' (grouped n).toList
    (grouped n).toList = digits.zipIdx.flatMap (markDigit digits.length) ∧
    (grouped n).toList.filter (· ≠ ',') = digits ∧
    (∃ first rest, groups = first :: rest ∧ 1 ≤ first.length ∧ first.length ≤ 3 ∧
      ∀ group ∈ rest, group.length = 3) ∧
    (∀ group ∈ groups, ∀ c ∈ group, c.isDigit = true) ∧
    (grouped n).toList.head? ≠ some ',' ∧ (grouped n).toList.getLast? ≠ some ',' := by
  intro digits groups
  have hmarked : (grouped n).toList = digits.zipIdx.flatMap (markDigit digits.length) :=
    (toList_grouped n).trans (groupDigits_eq_flatMap digits)
  have hends := ends_ne_of_splitAt fun group hgroup ↦ ne_nil_of_mem_groups (n := n) hgroup
  exact ⟨hmarked, filter_grouped n, splitAt_grouped n,
    fun group hgroup c ↦ isDigit_of_mem_groups hgroup, hends⟩

/-- Seven digits make a group of one and two groups of three. -/
theorem grouped_hasGroups_million :
    (grouped 1234567).toList = "1,234,567".toList ∧
      "567".toList ∈ splitAt ',' (grouped 1234567).toList ∧
      ∀ c ∈ "567".toList, c.isDigit = true := by
  have hmem : "567".toList ∈ splitAt ',' (grouped 1234567).toList := by decide +kernel
  obtain ⟨hmarked, -, -, hdigits, -⟩ := grouped_hasGroups 1234567
  exact ⟨hmarked.trans (by decide +kernel), hmem, hdigits _ hmem⟩

end Harvest.Text
