import Harvest.Proofs.Endpoints.Meaning
import Harvest.Proofs.Text.Blank

/-!
# Options without a value

Blank fragments are left out of the URLs of an entity, and numbers are not blank. The fields that
pages are asked for by default are joined as they are: a single blank one is all that an option
without a value comes from.
Design: `SPEC_FULL.md:234–242`.
-/

namespace Harvest.Endpoints

open Text (blank)
open Url (pairs)

variable {base name label value : String} {q : Query} {e : Endpoints} {endpoint : Endpoint}
  {o : String × String} {text : Option String} {fields : List String}

/-- The selection of pages falls back on a single field, and that field is blank. -/
structure FallsBackOnBlank (q : Query) (field : String) : Prop where
  select : fragment q.select = none
  expand : fragment q.expand = none
  fields : q.defaultFields = [field]
  blank : Text.blank field = true

/-! ## Values -/

private theorem blank_of_fragment (h : fragment text = some value) : blank value = false := by
  obtain ⟨hmap, hne⟩ := Option.filter_eq_some_iff.mp h
  obtain ⟨raw, -, rfl⟩ := Option.map_eq_some_iff.mp hmap
  exact Text.blank_trim (of_decide_eq_true hne)

private theorem blank_toString (n : Nat) : blank (toString n) = false := by
  have hdigits : (toString n).toList = Nat.toDigits 10 n := Nat.toList_repr
  have hne : Nat.toDigits 10 n ≠ [] := Nat.toDigits_ne_nil
  have hdigit := Nat.isDigit_of_mem_toDigits (by omega) (by omega) (List.head_mem hne)
  refine Text.blank_eq_false_of_mem ?_ (Text.isBlank_of_isDigit hdigit)
  rw [hdigits]
  exact List.head_mem hne

/-- Several fields have a comma between them. -/
theorem blank_intercalate (hne : fields ≠ []) (h : blank (",".intercalate fields) = true) :
    ∃ field, fields = [field] ∧ blank field = true := by
  cases fields with
  | nil => exact absurd rfl hne
  | cons field rest =>
    cases rest with
    | nil => exact ⟨field, rfl, by rwa [String.intercalate_singleton] at h⟩
    | cons next rest =>
      have hcomma : ',' ∈ (",".intercalate (field :: next :: rest)).toList := by
        simp [String.intercalate_cons_cons]
      rw [Text.blank_eq_false_of_mem hcomma (by decide)] at h
      exact absurd h (by decide)

/-- Pages are selected by a blank text just where the selection falls back on a blank field. -/
theorem pageSelection_blank_iff :
    pageSelection q = some value ∧ blank value = true ↔ FallsBackOnBlank q value := by
  constructor
  · rintro ⟨hvalue, hblank⟩
    unfold pageSelection at hvalue
    cases hselect : fragment q.select with
    | some select =>
      rw [hselect, Option.some_or, Option.some.injEq] at hvalue
      rw [← hvalue, blank_of_fragment hselect] at hblank
      exact absurd hblank (by decide)
    | none =>
      by_cases hfields : q.defaultFields = []
      · simp [hselect, hfields] at hvalue
      · simp only [hselect, if_neg hfields, Option.none_or, Option.some.injEq] at hvalue
        rw [← hvalue] at hblank
        obtain ⟨field, hjoined, hfield⟩ := blank_intercalate (by simp [hfields]) hblank
        have hparts : q.defaultFields = [field] ∧ (fragment q.expand).toList = [] := by
          simpa [List.append_eq_singleton_iff, hfields] using hjoined
        rw [hjoined, String.intercalate_singleton] at hvalue
        rw [← hvalue]
        exact ⟨hselect, Option.toList_eq_nil_iff.mp hparts.2, hparts.1, hfield⟩
  · intro h
    refine ⟨?_, h.blank⟩
    simp [pageSelection, h.select, h.expand, h.fields]

/-! ## Options -/

private theorem mem_given : o ∈ given name text ↔ o.1 = name ∧ text = some o.2 := by
  cases text with
  | none => simp [given]
  | some value => simp [given, Prod.ext_iff, eq_comm]

/-- Where a fragment is given, it is not blank. -/
theorem blank_of_mem_given (h : (name, value) ∈ given label (fragment text)) :
    blank value = false :=
  blank_of_fragment (mem_given.mp h).2

/-- An option that is meant has a blank value just where it is the selection of pages and falls back
on a blank field. -/
theorem intended_blank_iff : (name, value) ∈ intended q endpoint ∧ blank value = true ↔
    (∃ page, endpoint = .data page) ∧ name = "$select" ∧ FallsBackOnBlank q value := by
  cases endpoint with
  | metadata => simp [intended]
  | count =>
    simp only [intended, reduceCtorEq, exists_false, false_and, iff_false, not_and]
    intro h
    simp [blank_of_mem_given h]
  | tester =>
    simp only [intended, reduceCtorEq, exists_false, false_and, iff_false, not_and, List.mem_append,
      List.mem_singleton, Prod.mk.injEq]
    rintro (((h | h) | h) | ⟨-, rfl⟩)
    · simp [blank_of_mem_given h]
    · simp [blank_of_mem_given h]
    · simp [blank_of_mem_given h]
    · decide
  | data page =>
    simp only [intended, List.mem_append, List.mem_singleton, Prod.mk.injEq]
    constructor
    · rintro ⟨(((h | h) | h) | h) | ⟨-, rfl⟩, hblank⟩
      · simp [blank_of_mem_given h] at hblank
      · obtain ⟨hname, hvalue⟩ := mem_given.mp h
        exact ⟨⟨page, rfl⟩, hname, pageSelection_blank_iff.mp ⟨hvalue, hblank⟩⟩
      · simp [blank_of_mem_given h] at hblank
      · split at h
        · simp at h
        · obtain ⟨-, rfl⟩ := Prod.mk.inj (List.mem_singleton.mp h)
          exact absurd hblank (ne_true_of_eq_false (blank_toString _))
      · exact absurd hblank (ne_true_of_eq_false (blank_toString _))
    · rintro ⟨-, rfl, hback⟩
      obtain ⟨hvalue, hblank⟩ := pageSelection_blank_iff.mpr hback
      exact ⟨.inl (.inl (.inl (.inr (mem_given.mpr ⟨rfl, hvalue⟩)))), hblank⟩

/-- An option of an entity's URL has no value, or a blank one, just where it is the selection of
pages and falls back on a single blank field. -/
theorem blank_option_iff (h : make base q = .ok e) :
    (name, value) ∈ pairs (e.url endpoint) ∧ blank value = true ↔
      (∃ page, endpoint = .data page) ∧ name = "$select" ∧ FallsBackOnBlank q value := by
  rw [(pairs_url_eq_intended h).1, intended_blank_iff]

/-- A query whose only default field is blank. -/
def blankField : Query := ⟨"E", none, none, none, none, [" "]⟩

/-- A web base URL without a query. -/
def plainBase : Url :=
  ⟨"http".toList, some ⟨[], [], .name "h.example.com".toList, none⟩, .segments ["odata".toList],
    none, none⟩

/-- Pages are asked for with a selection of nothing. -/
theorem blank_option_iff_blankField :
    make "http://h.example.com/odata" blankField = .ok ⟨plainBase, blankField⟩ ∧
    ("$select", " ") ∈ pairs (url ⟨plainBase, blankField⟩ (.data ⟨0, 5⟩)) := by
  have hmake : make "http://h.example.com/odata" blankField = .ok ⟨plainBase, blankField⟩ :=
    make_eq_ok_iff.mpr ⟨plainBase, by decide +kernel, rfl, rfl⟩
  exact ⟨hmake, ((blank_option_iff hmake).mpr ⟨⟨⟨0, 5⟩, rfl⟩, rfl, rfl, rfl, rfl, by decide⟩).1⟩

end Harvest.Endpoints
