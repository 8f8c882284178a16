import Harvest.Extraction
import Harvest.Proofs.Disk.Walk

/-!
# Page files are told apart by their names

The name of a page file holds the number of the split and that of the page between underscores, and
neither number holds an underscore. So two pages never share a file, and the names of pages, drafts
and the manifest are all different.
-/

namespace Harvest.Plan

variable {i j k l : Nat}

private theorem not_mem_digits {n : Nat} {c : Char} (hc : c.isDigit = false) :
    c ∉ Nat.toDigits 10 n := by
  intro hmem
  have hdigit : c.isDigit = true := Nat.isDigit_of_mem_toDigits (by omega) (by omega) hmem
  simp [hc] at hdigit

private theorem digits_inj {m n : Nat} (h : Nat.toDigits 10 m = Nat.toDigits 10 n) : m = n := by
  have hvalue := congrArg (Nat.ofDigitChars 10 · 0) h
  simpa only [Nat.ofDigitChars_ten_toDigits] using hvalue

/-- The characters of the name of a page file. -/
theorem toList_pageFileName (i j : Nat) : (pageFileName i j).toList =
    "split".toList ++ '_' :: (Nat.toDigits 10 i ++ '_' ::
      ("page".toList ++ '_' :: (Nat.toDigits 10 j ++ ".json".toList))) := by
  simp [pageFileName, toString]

/-- The parts of the name of a page file between its underscores. -/
theorem splitAt_pageFileName (i j : Nat) : Text.splitAt '_' (pageFileName i j).toList =
    ["split".toList, Nat.toDigits 10 i, "page".toList, Nat.toDigits 10 j ++ ".json".toList] := by
  have hi : '_' ∉ Nat.toDigits 10 i := not_mem_digits (by decide)
  have hj : '_' ∉ Nat.toDigits 10 j ++ ".json".toList := by
    rw [List.mem_append, not_or]
    exact ⟨not_mem_digits (by decide), by decide⟩
  rw [toList_pageFileName, Text.splitAt_append_cons, Text.splitAt_append_cons,
    Text.splitAt_append_cons, Text.splitAt_of_not_mem hi, Text.splitAt_of_not_mem hj]
  rfl

/-- Pages with one name are one page. -/
theorem pageFileName_inj : pageFileName i j = pageFileName k l ↔ i = k ∧ j = l := by
  constructor
  · intro h
    have hparts := splitAt_pageFileName i j
    rw [h, splitAt_pageFileName] at hparts
    simp only [List.cons.injEq, true_and, and_true, List.append_left_inj] at hparts
    obtain ⟨hi, hj⟩ := hparts
    exact ⟨digits_inj hi.symm, digits_inj hj.symm⟩
  · rintro ⟨rfl, rfl⟩
    rfl

/-- The name that a page has until it is written in full. -/
def draftName (split page : Nat) : String := pageFileName split page ++ ".tmp"

/-- A name of a page: that of its file or that of its draft. -/
def IsPageName (split page : Nat) (name : String) : Prop :=
  name = pageFileName split page ∨ name = draftName split page

private theorem slash_not_mem_pageFileName (i j : Nat) : '/' ∉ (pageFileName i j).toList := by
  have hdigits : ∀ n : Nat, '/' ∉ Nat.toDigits 10 n := fun n ↦ not_mem_digits (by decide)
  simp [toList_pageFileName, hdigits]

private theorem isPlain_of_toList {name : String} {rest : List Char}
    (h : name.toList = 's' :: rest) (hslash : '/' ∉ name.toList) : Disk.IsPlain name where
  ne_empty := by rintro rfl; simp at h
  ne_dot := by rintro rfl; simp at h
  ne_dots := by rintro rfl; simp at h
  no_slash := hslash

/-- The name of a page file is plain. -/
theorem isPlain_pageFileName (i j : Nat) : Disk.IsPlain (pageFileName i j) :=
  isPlain_of_toList (toList_pageFileName i j) (slash_not_mem_pageFileName i j)

/-- The name of a draft is plain. -/
theorem isPlain_draftName (i j : Nat) : Disk.IsPlain (draftName i j) := by
  have hslash : '/' ∉ (draftName i j).toList := by
    rw [draftName, String.toList_append, List.mem_append, not_or]
    exact ⟨slash_not_mem_pageFileName i j, by decide⟩
  have hchars : ∃ rest, (draftName i j).toList = 's' :: rest := by
    rw [draftName, String.toList_append, toList_pageFileName]
    exact ⟨_, rfl⟩
  obtain ⟨rest, hrest⟩ := hchars
  exact isPlain_of_toList hrest hslash

/-- No page file has the name of a draft. -/
theorem pageFileName_ne_draftName : pageFileName i j ≠ draftName k l := by
  intro h
  have hlast := congrArg (fun name : String ↦ name.toList.getLast?) h
  simp [draftName, toList_pageFileName, List.getLast?_cons, List.getLast?_append] at hlast

/-- Pages that share a name are one page. -/
theorem IsPageName.unique {name : String} (h : IsPageName i j name) (h' : IsPageName k l name) :
    i = k ∧ j = l := by
  obtain rfl | rfl := h
  · obtain h' | h' := h'
    · exact pageFileName_inj.mp h'
    · exact absurd h' pageFileName_ne_draftName
  · obtain h' | h' := h'
    · exact absurd h'.symm pageFileName_ne_draftName
    · rw [draftName, draftName, String.append_left_inj] at h'
      exact pageFileName_inj.mp h'

/-- The name of a page file is a name of that page only. -/
theorem isPageName_pageFileName : IsPageName i j (pageFileName k l) ↔ i = k ∧ j = l := by
  constructor
  · intro h
    exact h.unique (.inl rfl)
  · rintro ⟨rfl, rfl⟩
    exact .inl rfl

/-- The manifest has the name of no page. -/
theorem not_isPageName_manifest : ¬ IsPageName i j Manifest.fileName := by
  rintro (h | h)
  all_goals
    have hfirst := congrArg (fun name : String ↦ name.toList.head?) h
    simp [draftName, toList_pageFileName, Manifest.fileName] at hfirst

/-- The name of the manifest is plain. -/
theorem isPlain_manifest : Disk.IsPlain Manifest.fileName := by
  constructor <;> decide

end Harvest.Plan
