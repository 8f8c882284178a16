import Harvest.Endpoints
import Harvest.Proofs.Url.Pairs
import Harvest.Text.Number

/-!
# Query options are read back from URLs

Names and values of options are written so that none of their characters separates options, and so
that a URL leaves them as they are. The pairs of an endpoint's query are its options, and a data
URL tells which page it asks for.
Design: `SPEC_FULL.md:243–246`.
-/

namespace Harvest

open Plan (Page)
open Url (escape pair pairs)

/-! ## Queries that a URL leaves as they are -/

namespace Url

variable {c : Char} {query : Chars}

/-- A URL of any scheme keeps a character of its query that special schemes keep. -/
theorem of_specialQuerySet_eq_false (h : specialQuerySet c = false) :
    querySet c = false ∧ isLineBreakOrTab c = false := by
  simp only [specialQuerySet, querySet, EscapeSet.add, Bool.or_eq_false_iff] at h ⊢
  obtain ⟨hquery, -⟩ := h
  refine ⟨hquery, ?_⟩
  rw [← Bool.not_eq_true]
  intro hbreak
  simp only [isLineBreakOrTab, Bool.or_eq_true, beq_iff_eq] at hbreak
  obtain (rfl | rfl) | rfl := hbreak <;> exact absurd hquery.1 (by decide)

private theorem query_withQuery (u : Url)
    (h : ∀ c ∈ query, c.toNat < 0x80 ∧ specialQuerySet c = false) :
    (u.withQuery (some query)).query = some query := by
  have hfilter : query.filter (!isLineBreakOrTab ·) = query := by
    rw [List.filter_eq_self]
    intro c hc
    rw [(of_specialQuerySet_eq_false (h c hc).2).2]
    rfl
  rw [withQuery, Option.map_some, hfilter, Option.some.injEq]
  apply escape_eq_self
  intro c hc
  obtain ⟨hascii, hkept⟩ := h c hc
  refine ⟨hascii, ?_⟩
  split
  · exact hkept
  · exact (of_specialQuerySet_eq_false hkept).1

end Url

namespace Endpoints

variable {c : Char} {name : String} {endpoint : Endpoint} {q : Query} {o : String × String}

/-! ## Options as they are written -/

/-- The names of all options. -/
def optionNames : List String := ["$filter", "$select", "$expand", "$skip", "$top"]

private theorem mem_optionNames_of_option {value : Option String} (hname : name ∈ optionNames)
    (h : o ∈ option name value) : o.1 ∈ optionNames := by
  simp only [option, Option.mem_toList, Option.map_eq_some_iff] at h
  obtain ⟨_, -, rfl⟩ := h
  exact hname

/-- An option has one of the names of options. -/
theorem mem_optionNames (h : o ∈ options q endpoint) : o.1 ∈ optionNames := by
  cases endpoint with
  | metadata => simp [options] at h
  | count => exact mem_optionNames_of_option (by decide) h
  | tester =>
    simp only [options, List.mem_append, List.mem_singleton] at h
    rcases h with ((h | h) | h) | rfl
    · exact mem_optionNames_of_option (by decide) h
    · exact mem_optionNames_of_option (by decide) h
    · exact mem_optionNames_of_option (by decide) h
    · decide
  | data page =>
    simp only [options, List.mem_append, List.mem_singleton] at h
    rcases h with (((h | h) | h) | h) | rfl
    · exact mem_optionNames_of_option (by decide) h
    · exact mem_optionNames_of_option (by decide) h
    · exact mem_optionNames_of_option (by decide) h
    · exact mem_optionNames_of_option (by decide) h
    · simp [optionNames]

/-- Names need no escaping. -/
theorem escape_of_mem_optionNames (h : name ∈ optionNames) :
    escape valueSet name.toList = name.toList := by
  revert name
  decide

/-- What has been escaped keeps clear of what separates options, and a URL keeps it. -/
theorem of_mem_escape_valueSet {text : Chars} (h : c ∈ escape valueSet text) :
    c.toNat < 0x80 ∧ Url.specialQuerySet c = false ∧ c ≠ '&' ∧ c ≠ '=' := by
  obtain ⟨hascii, hsafe⟩ | rfl | ⟨n, hn, rfl⟩ := Url.of_mem_escape h
  · refine ⟨hascii, ?_⟩
    simp only [valueSet, Url.specialQuerySet, Url.querySet, Url.EscapeSet.add,
      Bool.or_eq_false_iff] at hsafe ⊢
    obtain ⟨hcontrol, hmore⟩ := hsafe
    simp only [List.contains_eq_mem, List.mem_cons, List.not_mem_nil, or_false,
      decide_eq_false_iff_not, not_or] at hmore ⊢
    simp only [hcontrol, hmore, not_false_eq_true, and_self, ne_eq]
  · decide
  · interval_cases n <;> decide

/-- The options of a query are read back as they are meant. -/
theorem pair_optionChars (h : o.1 ∈ optionNames) : pair (optionChars o) = o := by
  rw [optionChars, ← escape_of_mem_optionNames h, Url.pair_append fun hmem ↦
    (of_mem_escape_valueSet hmem).2.2.2 rfl, Url.meant_escape rfl rfl, Url.meant_escape rfl rfl]

/-- An option is written with characters that are kept in a query, and that do not part options. -/
theorem of_mem_optionChars (h : o.1 ∈ optionNames) (hc : c ∈ optionChars o) :
    c.toNat < 0x80 ∧ Url.specialQuerySet c = false ∧ c ≠ '&' := by
  rw [optionChars, ← escape_of_mem_optionNames h, List.mem_append, List.mem_cons] at hc
  obtain hc | rfl | hc := hc
  · obtain ⟨hascii, hkept, hne, -⟩ := of_mem_escape_valueSet hc
    exact ⟨hascii, hkept, hne⟩
  · decide
  · obtain ⟨hascii, hkept, hne, -⟩ := of_mem_escape_valueSet hc
    exact ⟨hascii, hkept, hne⟩

/-! ## Queries of endpoints -/

/-- The query of an endpoint is what its options are written as. -/
theorem query_url (e : Endpoints) (endpoint : Endpoint) :
    (e.url endpoint).query = queryChars (options e.query endpoint) := by
  rw [url, queryChars]
  split
  · rfl
  · apply Url.query_withQuery
    intro c hc
    obtain hc | ⟨part, hpart, hc⟩ := Text.mem_joinWith hc
    · obtain rfl := List.mem_singleton.mp hc
      decide
    · obtain ⟨o, ho, rfl⟩ := List.mem_map.mp hpart
      obtain ⟨hascii, hkept, -⟩ := of_mem_optionChars (mem_optionNames ho) hc
      exact ⟨hascii, hkept⟩

/-- The pairs of an endpoint's query are its options. -/
theorem pairs_url (e : Endpoints) (endpoint : Endpoint) :
    pairs (e.url endpoint) = options e.query endpoint := by
  rw [pairs, query_url, queryChars]
  split
  · next hnone =>
    rw [hnone]
    rfl
  · next hsome =>
    have hparts : ∀ part ∈ (options e.query endpoint).map optionChars, '&' ∉ part := by
      intro part hpart hmem
      obtain ⟨o, ho, rfl⟩ := List.mem_map.mp hpart
      exact (of_mem_optionChars (mem_optionNames ho) hmem).2.2 rfl
    have hne : ((options e.query endpoint).map optionChars).filter (· ≠ []) =
        (options e.query endpoint).map optionChars := by
      rw [List.filter_eq_self]
      intro part hpart
      obtain ⟨o, -, rfl⟩ := List.mem_map.mp hpart
      simp [optionChars]
    rw [Option.getD_some, Text.splitAt_joinWith (by simpa using hsome) hparts, hne, List.map_map]
    calc
      _ = (options e.query endpoint).map id :=
        List.map_congr_left fun o ho ↦ pair_optionChars (mem_optionNames ho)
      _ = options e.query endpoint := List.map_id _

/-! ## Pages -/

/-- The number that is written in decimal digits. -/
def number? (text : String) : Option Nat :=
  if text.toList ≠ [] ∧ text.toList.all Char.isDigit then some (Text.digitsValue text.toList)
  else none

/-- The page that a URL asks for: nothing is skipped where it does not say how much. -/
def pageOf (u : Url) : Option Page := do
  let skip ← match (pairs u).lookup "$skip" with
    | none => some 0
    | some skip => number? skip
  let top ← number? (← (pairs u).lookup "$top")
  return ⟨skip, top⟩

private theorem number?_toString (n : Nat) : number? (toString n) = some n := by
  have hdigits : (toString n).toList = Nat.toDigits 10 n := Nat.toList_repr
  have hall : (Nat.toDigits 10 n).all Char.isDigit = true :=
    List.all_eq_true.mpr fun c hc ↦ Nat.isDigit_of_mem_toDigits (by omega) (by omega) hc
  have hvalue : Text.digitsValue (Nat.toDigits 10 n) = n := by
    have hread : Nat.ofDigitChars 10 (Nat.toDigits 10 n) 0 = n := Nat.ofDigitChars_ten_toDigits
    simpa only [Text.digitsValue, Nat.ofDigitChars, Nat.mul_comm 10] using hread
  rw [number?, hdigits, hvalue, if_pos ⟨Nat.toDigits_ne_nil, hall⟩]

private theorem lookup_option (name : String) (value : Option String) :
    (option name value).lookup name = value := by
  cases value <;> simp [option]

private theorem lookup_option_of_ne {other : String} (value : Option String) (h : other ≠ name) :
    (option name value).lookup other = none := by
  cases value <;> simp [option, h]

/-- A data URL tells which page it asks for. -/
theorem pageOf_url (e : Endpoints) (page : Page) : pageOf (e.url (.data page)) = some page := by
  have hskip : (pairs (e.url (.data page))).lookup "$skip" =
      if page.skip = 0 then none else some (toString page.skip) := by
    rw [pairs_url, options]
    simp [List.lookup_append, lookup_option, lookup_option_of_ne]
  have htop : (pairs (e.url (.data page))).lookup "$top" = some (toString page.top) := by
    rw [pairs_url, options]
    simp [List.lookup_append, lookup_option_of_ne]
  rw [pageOf, hskip, htop]
  by_cases hzero : page.skip = 0
  · rw [if_pos hzero]
    simp only [Option.bind_eq_bind, Option.bind_some, number?_toString]
    rw [← hzero]
    rfl
  · rw [if_neg hzero]
    simp only [Option.bind_eq_bind, Option.bind_some, number?_toString]
    rfl

end Endpoints

end Harvest
