import Harvest.Text.Blank
import Mathlib.Data.List.DropRight
import Mathlib.Tactic.IntervalCases

/-!
# What trimming drops

A text consists of blanks, of what is left of it when it is trimmed, and of blanks again. Blanks
are white space of ASCII or among those that are listed here.
-/

namespace Harvest.Text

variable {c : Char} {s : String}

/-- The blanks that trimming drops at the start of a text. -/
def blanksBefore (s : String) : List Char := s.toList.takeWhile isBlank

/-- The blanks that trimming drops at the end of a text. -/
def blanksBehind (s : String) : List Char := (s.toList.dropWhile isBlank).rtakeWhile isBlank

/-- The characters before a text that are taken off are blank. -/
theorem isBlank_of_mem_blanksBefore (h : c ∈ blanksBefore s) : isBlank c = true :=
  List.mem_takeWhile_imp h

/-- So are those behind it. -/
theorem isBlank_of_mem_blanksBehind (h : c ∈ blanksBehind s) : isBlank c = true :=
  List.mem_rtakeWhile_imp h

/-- A trimmed text stands between the blanks that were dropped. -/
theorem toList_eq_append_trim (s : String) :
    s.toList = blanksBefore s ++ ((trim s).toList ++ blanksBehind s) := by
  have htrim : (trim s).toList = (s.toList.dropWhile isBlank).rdropWhile isBlank :=
    String.toList_ofList
  rw [htrim, blanksBehind, List.rdropWhile_append_rtakeWhile, blanksBefore,
    List.takeWhile_append_dropWhile]

/-- What is left of a text when the blanks around it are taken away. -/
structure Strips (whole within : List Char) : Prop where
  parts : ∃ before behind, whole = before ++ (within ++ behind) ∧
    (∀ c ∈ before, isBlank c = true) ∧ ∀ c ∈ behind, isBlank c = true
  first : ∀ c, within.head? = some c → isBlank c = false
  last : ∀ c, within.getLast? = some c → isBlank c = false

private theorem trimChars_eq (cs : List Char) :
    trimChars cs = (cs.dropWhile isBlank).rdropWhile isBlank := rfl

/-- Trimming strips blanks on both sides, and no more. -/
theorem strips_trimChars (cs : List Char) : Strips cs (trimChars cs) := by
  rw [trimChars_eq]
  refine ⟨⟨cs.takeWhile isBlank, (cs.dropWhile isBlank).rtakeWhile isBlank, ?_,
    fun c ↦ List.mem_takeWhile_imp, fun c ↦ List.mem_rtakeWhile_imp⟩, ?_, ?_⟩
  · rw [List.rdropWhile_append_rtakeWhile, List.takeWhile_append_dropWhile]
  · intro c hc
    obtain ⟨behind, hbehind⟩ := List.rdropWhile_prefix isBlank (l := cs.dropWhile isBlank)
    have hfirst : (cs.dropWhile isBlank).head? = some c := by
      rw [← hbehind, List.head?_append, hc, Option.some_or]
    have hnot := List.head?_dropWhile_not isBlank cs
    rw [hfirst] at hnot
    exact hnot
  · intro c hc
    have hne : (cs.dropWhile isBlank).rdropWhile isBlank ≠ [] := by
      intro hnil
      rw [hnil] at hc
      cases hc
    rw [List.getLast?_eq_some_getLast hne] at hc
    rw [← Option.some.inj hc]
    exact Bool.eq_false_of_not_eq_true (List.rdropWhile_last_not isBlank _ hne)

/-- There is only one way to take away the blanks around a text. -/
theorem Strips.trimChars_eq {whole within : List Char} (h : Strips whole within) :
    trimChars whole = within := by
  obtain ⟨⟨before, behind, rfl, hbefore, hbehind⟩, hfirst, hlast⟩ := h
  rw [Text.trimChars_eq, List.dropWhile_append_of_pos hbefore]
  cases within with
  | nil => rw [List.nil_append, List.dropWhile_eq_nil_iff.mpr hbehind, List.rdropWhile_nil]
  | cons c cs =>
    have hc : isBlank c = false := hfirst c rfl
    have hself : (c :: cs).rdropWhile isBlank = c :: cs := by
      rw [List.rdropWhile_eq_self_iff]
      intro hne
      simp [hlast _ (List.getLast?_eq_some_getLast hne)]
    rw [List.cons_append, List.dropWhile_cons_of_neg (by simp [hc]), ← List.cons_append,
      List.rdropWhile, List.reverse_append, List.dropWhile_append_of_pos (by simpa using hbehind)]
    exact hself

/-- The blanks beyond ASCII. -/
def wideBlanks : List Char :=
  ['\u0085', '\u00a0', '\u1680', '\u2000', '\u2001', '\u2002', '\u2003', '\u2004', '\u2005',
    '\u2006', '\u2007', '\u2008', '\u2009', '\u200a', '\u2028', '\u2029', '\u202f', '\u205f',
    '\u3000']

/-- What holds of all blanks beyond ASCII is checked one blank after another. -/
theorem of_mem_wideBlanks {P : Char → Prop} [DecidablePred P] (h : c ∈ wideBlanks)
    (hall : wideBlanks.all (P ·) = true) : P c :=
  of_decide_eq_true (List.all_eq_true.mp hall c h)

/-- Any other blank is white space of ASCII. -/
theorem mem_wideBlanks_of_isBlank (h : isBlank c = true) (hwide : 0x20 < c.toNat) :
    c ∈ wideBlanks := by
  rw [← c.ofNat_toNat]
  simp only [isBlank, Bool.or_eq_true, Bool.and_eq_true, decide_eq_true_eq, beq_iff_eq] at h
  generalize c.toNat = n at h hwide
  have hcases : n = 0x85 ∨ n = 0xA0 ∨ n = 0x1680 ∨ n = 0x2028 ∨ n = 0x2029 ∨ n = 0x202F ∨
      n = 0x205F ∨ n = 0x3000 ∨ 0x2000 ≤ n ∧ n ≤ 0x200A := by omega
  rcases hcases with rfl | rfl | rfl | rfl | rfl | rfl | rfl | rfl | ⟨hlow, hhigh⟩
  case inr.inr.inr.inr.inr.inr.inr.inr => interval_cases n <;> decide
  all_goals decide

/-- No digit is blank. -/
theorem isBlank_of_isDigit (h : c.isDigit = true) : isBlank c = false := by
  have hrange : 0x30 ≤ c.toNat ∧ c.toNat ≤ 0x39 := Char.isDigit_iff_toNat.mp h
  simp only [isBlank, Bool.or_eq_false_iff, Bool.and_eq_false_iff, beq_eq_false_iff_ne,
    decide_eq_false_iff_not]
  omega

/-- A text is not blank where one of its characters is not. -/
theorem blank_eq_false_of_mem (hc : c ∈ s.toList) (h : isBlank c = false) : blank s = false :=
  List.all_eq_false.mpr ⟨c, hc, by simp [h]⟩

/-- What trimming leaves of a text is blank only where it is empty. -/
theorem blank_trim (h : trim s ≠ "") : blank (trim s) = false := by
  have htrim : (trim s).toList = (s.toList.dropWhile isBlank).rdropWhile isBlank :=
    String.toList_ofList
  have hne : (s.toList.dropWhile isBlank).rdropWhile isBlank ≠ [] := by
    rw [← htrim]
    exact fun hnil ↦ h (String.toList_eq_nil_iff.mp hnil)
  have hlast : isBlank (((s.toList.dropWhile isBlank).rdropWhile isBlank).getLast hne) = false :=
    Bool.eq_false_of_not_eq_true (List.rdropWhile_last_not isBlank _ hne)
  refine blank_eq_false_of_mem ?_ hlast
  rw [htrim]
  exact List.getLast_mem hne

/-- Nothing is left of a text just where it is blank. -/
theorem nonBlank_eq (s : String) : nonBlank s = if blank s = true then none else some (trim s) := by
  by_cases h : blank s = true
  · rw [if_pos h, nonBlank, trimChars_eq_nil_of_all h]
  · have hne : trimChars s.toList ≠ [] := by
      intro hnil
      have hwhole := toList_eq_append_trim s
      rw [trim, hnil, String.toList_ofList, List.nil_append] at hwhole
      refine h (List.all_eq_true.mpr fun c hc ↦ ?_)
      rw [hwhole, List.mem_append] at hc
      exact hc.elim isBlank_of_mem_blanksBefore isBlank_of_mem_blanksBehind
    obtain ⟨c, cs, hcs⟩ := List.exists_cons_of_ne_nil hne
    rw [if_neg h, nonBlank, trim, hcs]

end Harvest.Text
