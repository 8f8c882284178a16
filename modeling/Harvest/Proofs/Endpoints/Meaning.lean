import Harvest.Proofs.Endpoints.Options

/-!
# What the URLs of an entity ask for

The options that are read back from a URL are those that its endpoint is meant to have: fragments of
the query without the blanks around them, left out where nothing else is in them, and numbers in
decimal digits. The filter that records are counted with is the one that pages are asked for with.
Design: `SPEC_FULL.md:234–242`.
-/

namespace Harvest.Endpoints

open Plan (Page)
open Url (pairs)

variable {base : String} {q : Query} {e : Endpoints} {endpoint : Endpoint} {c : Char}

/-- A fragment as it is meant: without the blanks around it, and none where nothing is left. -/
def fragment (text : Option String) : Option String := (text.map Text.trim).filter (· ≠ "")

/-- What pages are to be selected by: the selection, else the fields that there are by default, with
the expansion as the last of them. -/
def pageSelection (q : Query) : Option String :=
  (fragment q.select).or
    (if q.defaultFields = [] then none
    else some (",".intercalate (q.defaultFields ++ (fragment q.expand).toList)))

/-- An option where there is a value for it. -/
def given (name : String) (value : Option String) : List (String × String) :=
  match value with
  | some value => [(name, value)]
  | none => []

/-- The options that an endpoint is meant to have. -/
def intended (q : Query) : Endpoint → List (String × String)
  | .metadata => []
  | .count => given "$filter" (fragment q.filter)
  | .tester =>
    given "$filter" (fragment q.filter) ++ given "$select" (fragment q.select) ++
      given "$expand" (fragment q.expand) ++ [("$top", "1")]
  | .data page =>
    given "$filter" (fragment q.filter) ++ given "$select" (pageSelection q) ++
      given "$expand" (fragment q.expand) ++
      (if page.skip = 0 then [] else [("$skip", toString page.skip)]) ++
      [("$top", toString page.top)]

/-! ## Fragments -/

/-- A fragment is what is left of a text without the blanks around it, if anything is. -/
theorem fragment_eq (text : Option String) : text.bind Text.nonBlank = fragment text := by
  cases text with
  | none => rfl
  | some text =>
    simp only [fragment, Option.bind_some, Option.map_some, Text.nonBlank, Text.trim]
    cases Text.trimChars text.toList with
    | nil => simp [Option.filter]
    | cons c cs => simp [Option.filter]

private theorem pageSelect?_eq (q : Query) : q.pageSelect? = pageSelection q := by
  rw [Query.pageSelect?, pageSelection, Query.select?, Query.expand?, fragment_eq, fragment_eq]
  cases fragment q.select with
  | some select => rfl
  | none =>
    by_cases hfields : q.defaultFields = []
    · simp only [if_pos hfields, Option.none_or]
    · simp only [if_neg hfields, Option.none_or]
      cases fragment q.expand with
      | none => simp
      | some expand =>
        rw [Option.toList_some,
          String.intercalate_append_of_ne_nil hfields (List.cons_ne_nil expand []),
          String.intercalate_singleton]

/-! ## Options -/

private theorem option_eq_given (name : String) (value : Option String) :
    option name value = given name value := by
  cases value <;> rfl

/-- The options of an endpoint are those that it is meant to have. -/
theorem options_eq_intended (q : Query) (endpoint : Endpoint) :
    options q endpoint = intended q endpoint := by
  cases endpoint with
  | metadata => rfl
  | count => rw [options, intended, Query.filter?, fragment_eq, option_eq_given]
  | tester =>
    rw [options, intended, Query.filter?, Query.select?, Query.expand?, fragment_eq, fragment_eq,
      fragment_eq, option_eq_given, option_eq_given, option_eq_given]
  | data page =>
    rw [options, intended, Query.filter?, pageSelect?_eq, Query.expand?, fragment_eq, fragment_eq,
      option_eq_given, option_eq_given, option_eq_given, option_eq_given]
    by_cases hskip : page.skip = 0
    · simp only [if_pos hskip, given]
    · simp only [if_neg hskip, given]

/-! ## Queries as they are written -/

/-- A query is made of options and the ampersands between them. -/
theorem of_mem_query (hc : c ∈ (e.url endpoint).query.getD []) :
    c = '&' ∨ ∃ o ∈ options e.query endpoint, c ∈ optionChars o := by
  rw [query_url, queryChars] at hc
  split at hc
  · simp at hc
  · obtain hc | ⟨part, hpart, hc⟩ := Text.mem_joinWith hc
    · exact .inl (List.mem_singleton.mp hc)
    · obtain ⟨o, ho, rfl⟩ := List.mem_map.mp hpart
      exact .inr ⟨o, ho, hc⟩

/-- Nothing that has been escaped is a plus sign. -/
theorem plus_not_mem_escape (text : Chars) : '+' ∉ Url.escape valueSet text := by
  intro hmem
  obtain ⟨-, hsafe⟩ | hpercent | ⟨n, hn, hdigit⟩ := Url.of_mem_escape hmem
  · exact absurd hsafe (by decide)
  · exact absurd hpercent (by decide)
  · interval_cases n <;> exact absurd hdigit (by decide)

/-- A query is written with visible characters of ASCII, and without plus signs, quotes and
hashes. -/
theorem isClean_of_mem_query (hc : c ∈ (e.url endpoint).query.getD []) :
    0x20 < c.toNat ∧ c.toNat < 0x7F ∧ c ∉ ['+', '"', '\'', '#'] := by
  obtain rfl | ⟨o, ho, hc⟩ := of_mem_query hc
  · decide
  · have hname := mem_optionNames ho
    obtain ⟨hascii, hkept, -⟩ := of_mem_optionChars hname hc
    have hplus : c ≠ '+' := by
      rintro rfl
      rw [optionChars, ← escape_of_mem_optionNames hname, List.mem_append, List.mem_cons] at hc
      rcases hc with hc | hc | hc
      · exact plus_not_mem_escape _ hc
      · exact absurd hc (by decide)
      · exact plus_not_mem_escape _ hc
    simp only [Url.specialQuerySet, Url.querySet, Url.controlSet, Url.isControl,
      Url.EscapeSet.add, Bool.or_eq_false_iff, decide_eq_false_iff_not, List.contains_eq_mem,
      List.mem_cons, List.not_mem_nil, or_false, not_or, beq_eq_false_iff_ne] at hkept ⊢
    obtain ⟨⟨⟨hlow, hdelete⟩, hspace, hquote, hhash, -⟩, hsingle⟩ := hkept
    have hne : c.toNat ≠ 0x20 := fun h ↦ hspace (Char.toNat_inj.mp h)
    exact ⟨by omega, by omega, hplus, hquote, hsingle, hhash⟩

/-! ## All URLs of an entity -/

/-- Endpoints are made of a base URL that can be read and has a hierarchical path. -/
theorem make_eq_ok_iff : make base q = .ok e ↔
    ∃ url, Url.parse base = .ok url ∧ url.isHierarchical = true ∧ e = ⟨url, q⟩ := by
  simp only [make, Transport.parseUrl, bind, Except.bind]
  cases Url.parse base with
  | error fault => simp [Except.mapError]
  | ok url =>
    by_cases hpath : url.isHierarchical = true
    · simp only [Except.mapError, hpath, if_true, pure, Except.pure, Except.ok.injEq,
        exists_eq_left']
      simp only [true_and, eq_comm]
    · simp [Except.mapError, hpath]

/-- The filter is found among the options that start with it. -/
theorem lookup_given_append (value : Option String) {others : List (String × String)}
    (h : others.lookup "$filter" = none) :
    (given "$filter" value ++ others).lookup "$filter" = value := by
  cases value with
  | none => simpa [given] using h
  | some value => simp [given]

private theorem lookup_given_of_ne {name other : String} (value : Option String)
    (h : other ≠ name) :
    (given name value).lookup other = none := by
  cases value <;> simp [given, h]

/-- What is read back from the URLs of an entity is what they are meant to ask for, and nothing
else. In particular records are counted with the filter that their pages are asked for with. -/
theorem pairs_url_eq_intended (h : make base q = .ok e) :
    (∀ endpoint, pairs (e.url endpoint) = intended q endpoint) ∧
    (pairs (e.url .count)).lookup "$filter" = fragment q.filter ∧
    (∀ page, (pairs (e.url (.data page))).lookup "$filter" = fragment q.filter) ∧
    ∀ endpoint, ∀ c ∈ (e.url endpoint).query.getD [],
      0x20 < c.toNat ∧ c.toNat < 0x7F ∧ c ∉ ['+', '"', '\'', '#'] := by
  have hpairs (endpoint : Endpoint) : pairs (e.url endpoint) = intended q endpoint := by
    obtain ⟨url, -, -, rfl⟩ := make_eq_ok_iff.mp h
    rw [pairs_url, options_eq_intended]
  refine ⟨hpairs, ?_, fun page ↦ ?_, fun endpoint c ↦ isClean_of_mem_query⟩
  · rw [hpairs, intended, ← List.append_nil (given _ _)]
    exact lookup_given_append _ rfl
  · rw [hpairs, intended]
    simp only [List.append_assoc]
    apply lookup_given_append
    by_cases hskip : page.skip = 0
    · simp [List.lookup_append, lookup_given_of_ne, hskip]
    · simp [List.lookup_append, lookup_given_of_ne, hskip]

/-- A query with what separates options, and with blanks, in its filter. -/
def reserved : Query :=
  ⟨"User", none, some " name eq 'a+b & c=100%#' ", some "\t", some "items", ["id", "name"]⟩

/-- A base URL with a query of its own. -/
def queriedBase : Url :=
  ⟨"http".toList, some ⟨[], [], .name "h.example.com".toList, none⟩, .segments ["odata".toList],
    some "x=1".toList, none⟩

/-- The filter arrives as it was meant, and the selection is made of the default fields. -/
theorem pairs_url_eq_intended_reserved :
    make "http://h.example.com/odata?x=1" reserved = .ok ⟨queriedBase, reserved⟩ ∧
    pairs (url ⟨queriedBase, reserved⟩ .count) = [("$filter", "name eq 'a+b & c=100%#'")] ∧
    pairs (url ⟨queriedBase, reserved⟩ (.data ⟨20, 10⟩)) =
      [("$filter", "name eq 'a+b & c=100%#'"), ("$select", "id,name,items"), ("$expand", "items"),
        ("$skip", "20"), ("$top", "10")] := by
  have hmake : make "http://h.example.com/odata?x=1" reserved = .ok ⟨queriedBase, reserved⟩ :=
    make_eq_ok_iff.mpr ⟨queriedBase, by decide +kernel, rfl, rfl⟩
  obtain ⟨hpairs, -⟩ := pairs_url_eq_intended hmake
  exact ⟨hmake, (hpairs .count).trans (by decide +kernel),
    (hpairs (.data ⟨20, 10⟩)).trans (by decide +kernel)⟩

end Harvest.Endpoints
