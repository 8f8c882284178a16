import Harvest.Proofs.Endpoints.Meaning
import Harvest.Proofs.Text.Blank
import Harvest.Proofs.Url.Segments

/-!
# Where the URLs of an entity lead

The URLs of an entity lead to places behind the path of a web base URL, at the same authority. The
name of the entity tells which places: each of its pieces between slashes is one segment of the
path, whatever characters it is made of.
Design: `SPEC_FULL.md:234–242`.
-/

namespace Harvest.Endpoints

open Url (isLineBreakOrTab writtenSegment withoutDots)

variable {base : String} {q : Query} {u : Url} {endpoint : Endpoint} {name : String} {c : Char}
  {piece : Chars}

/-! ## Names and their pieces -/

/-- The name that an endpoint stands under: that of the entity, for the metadata with the associated
entity behind it. -/
def placeName (q : Query) : Endpoint → String
  | .metadata => ",".intercalate (q.entity :: (fragment q.associatedEntity).toList)
  | _ => q.entity

/-- The pieces of a name that lead to a place of their own: those between slashes that are neither
empty nor dots. -/
def pieces (name : String) : List Chars :=
  (Text.splitAt '/' name.toList).filter fun piece ↦ piece ∉ [[], ['.'], ['.', '.']]

/-- What is asked for of an entity, where the path says it. -/
def mark : Endpoint → List Chars
  | .metadata => ["$metadata".toList]
  | .count => ["$count".toList]
  | _ => []

/-- The segments of an endpoint are those of its name and its mark. -/
theorem segments_eq (q : Query) (endpoint : Endpoint) :
    segments q endpoint = nameSegments (placeName q endpoint) ++ mark endpoint := by
  cases endpoint with
  | metadata =>
    rw [segments, Query.associatedEntity?, fragment_eq, placeName, mark]
    cases fragment q.associatedEntity <;> simp
  | tester => simp [segments, placeName, mark]
  | count => rfl
  | data => simp [segments, placeName, mark]

private theorem withoutDots_nameSegments (name : String) :
    withoutDots (nameSegments name) = pieces name := by
  rw [nameSegments, withoutDots, List.filter_filter, pieces]
  refine List.filter_congr fun piece _ ↦ ?_
  simp only [List.mem_cons, List.not_mem_nil, or_false, not_or]
  grind

private theorem withoutDots_segments (q : Query) (endpoint : Endpoint) :
    withoutDots (segments q endpoint) = pieces (placeName q endpoint) ++ mark endpoint := by
  have hmark : withoutDots (mark endpoint) = mark endpoint := by
    cases endpoint with
    | metadata => decide
    | count => decide
    | tester => rfl
    | data => rfl
  rw [segments_eq, withoutDots, List.filter_append, ← withoutDots, ← withoutDots,
    withoutDots_nameSegments, hmark]

/-- Marks need no escaping. -/
theorem writtenSegment_of_mem_mark (h : piece ∈ mark endpoint) : writtenSegment piece = piece := by
  cases endpoint with
  | metadata =>
    obtain rfl := List.mem_singleton.mp h
    decide
  | count =>
    obtain rfl := List.mem_singleton.mp h
    decide
  | tester => simp [mark] at h
  | data => simp [mark] at h

/-! ## Characters of names -/

private theorem of_mem_placeName (hc : c ∈ (placeName q endpoint).toList) :
    c ∈ q.entity.toList ∨ c = ',' ∨ ∃ other ∈ q.associatedEntity, c ∈ other.toList := by
  cases endpoint with
  | metadata =>
    cases hfragment : fragment q.associatedEntity with
    | none => exact .inl (by simpa [placeName, hfragment] using hc)
    | some other =>
      obtain ⟨hother, -⟩ := Option.filter_eq_some_iff.mp hfragment
      obtain ⟨raw, hraw, rfl⟩ := Option.map_eq_some_iff.mp hother
      have hname : (placeName q .metadata).toList =
          q.entity.toList ++ ',' :: (Text.trim raw).toList := by
        simp [placeName, hfragment]
      rw [hname, List.mem_append, List.mem_cons] at hc
      refine hc.imp_right (Or.imp_right fun htrim ↦ ⟨raw, hraw, ?_⟩)
      rw [Text.toList_eq_append_trim raw]
      exact List.mem_append_right _ (List.mem_append_left _ htrim)
  | tester => exact .inl hc
  | count => exact .inl hc
  | data => exact .inl hc

/-- Of given characters it is looked up that none is a tab or a line break. -/
theorem kept_of_all {cs : List Char} (h : cs.all (!isLineBreakOrTab ·) = true) :
    ∀ c ∈ cs, isLineBreakOrTab c = false := by
  simpa [List.all_eq_true] using h

/-- Where no tabs and line breaks are in the names, none are in the segments of an endpoint, and no
segment is empty. -/
theorem segments_kept (hentity : ∀ c ∈ q.entity.toList, isLineBreakOrTab c = false)
    (hassociated : ∀ other ∈ q.associatedEntity, ∀ c ∈ other.toList, isLineBreakOrTab c = false) :
    ∀ segment ∈ segments q endpoint, segment ≠ [] ∧ ∀ c ∈ segment, isLineBreakOrTab c = false := by
  intro segment hsegment
  rw [segments_eq, List.mem_append] at hsegment
  obtain hname | hmark := hsegment
  · obtain ⟨hpart, hne⟩ := List.mem_filter.mp hname
    refine ⟨by simpa using hne, fun c hc ↦ ?_⟩
    obtain hc | rfl | ⟨other, hother, hc⟩ := of_mem_placeName (Text.mem_of_mem_splitWhere hpart hc)
    · exact hentity c hc
    · rfl
    · exact hassociated other hother c hc
  · cases endpoint with
    | metadata =>
      obtain rfl := List.mem_singleton.mp hmark
      exact ⟨by decide, kept_of_all (by decide)⟩
    | count =>
      obtain rfl := List.mem_singleton.mp hmark
      exact ⟨by decide, kept_of_all (by decide)⟩
    | tester => simp [mark] at hmark
    | data => simp [mark] at hmark

/-! ## The places of an entity -/

/-- A URL of an entity differs from its base in path and query only. -/
theorem url_eq (e : Endpoints) (endpoint : Endpoint) : e.url endpoint =
    { e.base with
      path := (e.base.withSegments (segments e.query endpoint)).path
      query := queryChars (intended e.query endpoint) } := by
  rw [← options_eq_intended, ← query_url e endpoint, url, Url.withSegments_eq]
  rfl

/-- The path of an entity's URL is the one that the base has, continued by the pieces of the name
and by the mark of the endpoint. -/
theorem path_url (h : Url.parse base = .ok u) (hweb : u.isWeb = true)
    (hentity : ∀ c ∈ q.entity.toList, isLineBreakOrTab c = false)
    (hassociated : ∀ other ∈ q.associatedEntity, ∀ c ∈ other.toList, isLineBreakOrTab c = false)
    (hsome : pieces (placeName q endpoint) ++ mark endpoint ≠ []) :
    (url ⟨u, q⟩ endpoint).path.chars = Url.continued u.path.chars ++
      ((pieces (placeName q endpoint)).map writtenSegment ++ mark endpoint).flatMap ('/' :: ·) := by
  have hmark : (mark endpoint).map writtenSegment = mark endpoint :=
    List.map_congr_left (fun _ ↦ writtenSegment_of_mem_mark) |>.trans (List.map_id _)
  rw [← withoutDots_segments] at hsome
  rw [url_eq, Url.chars_withSegments h hweb (segments_kept hentity hassociated) hsome,
    withoutDots_segments, ← hmark, ← List.map_append, List.flatMap_map, hmark]

private theorem standsFor_of_mem_pieces (h : piece ∈ pieces name) :
    Url.StandsFor (writtenSegment piece) piece := by
  have hdots := of_decide_eq_true (List.mem_filter.mp h).2
  simp only [List.mem_cons, List.not_mem_nil, or_false, not_or] at hdots
  exact Url.standsFor_writtenSegment hdots.2.1 hdots.2.2

/-- Every URL of an entity leads to the authority of a web base URL, and has a query of its own. Its
path goes on behind that of the base, and each piece of the name is one segment of it that stands
for the piece: no character of a name leads anywhere else. -/
theorem url_continues_base (h : Url.parse base = .ok u) (hweb : u.isWeb = true)
    (hentity : ∀ c ∈ q.entity.toList, isLineBreakOrTab c = false)
    (hassociated : ∀ other ∈ q.associatedEntity, ∀ c ∈ other.toList, isLineBreakOrTab c = false) :
    make base q = .ok ⟨u, q⟩ ∧ ∀ endpoint,
      (url ⟨u, q⟩ endpoint).scheme = u.scheme ∧
      (url ⟨u, q⟩ endpoint).authority = u.authority ∧
      (url ⟨u, q⟩ endpoint).query = queryChars (intended q endpoint) ∧
      (url ⟨u, q⟩ endpoint).fragment = u.fragment ∧
      (pieces (placeName q endpoint) ++ mark endpoint ≠ [] →
        (url ⟨u, q⟩ endpoint).path.chars = Url.continued u.path.chars ++
          ((pieces (placeName q endpoint)).map writtenSegment ++ mark endpoint).flatMap
            ('/' :: ·)) ∧
      ∀ piece ∈ pieces (placeName q endpoint), Url.StandsFor (writtenSegment piece) piece := by
  have hmake : make base q = .ok ⟨u, q⟩ :=
    make_eq_ok_iff.mpr ⟨u, h, Url.isHierarchical_of_isWeb h hweb, rfl⟩
  refine ⟨hmake, fun endpoint ↦ ?_⟩
  have hframe := url_eq ⟨u, q⟩ endpoint
  refine ⟨by rw [hframe], by rw [hframe], by rw [hframe], by rw [hframe], ?_, ?_⟩
  · exact path_url h hweb hentity hassociated
  · exact fun _ ↦ standsFor_of_mem_pieces

/-- An entity in whose name dots, delimiters and escapes stand between slashes. -/
def oddlyNamed : Query :=
  ⟨"a/../?#//%2e\\", some " Photo", none, none, none, []⟩

/-- A base URL with a user, a port, a slash at its end and a query. -/
def portedBase : Url :=
  ⟨"https".toList, some ⟨"me".toList, [], .name "h.example.com".toList, some 8080⟩,
    .segments ["odata".toList, []], some "x=1".toList, none⟩

/-- Dots add nothing to the path, and neither delimiters nor escapes end a piece. -/
theorem url_continues_base_odd :
    Url.parse "https://me@h.example.com:8080/odata/?x=1" = .ok portedBase ∧
    (url ⟨portedBase, oddlyNamed⟩ .metadata).path.chars =
      "/odata/a/%3F%23/%252e%5C,Photo/$metadata".toList ∧
    (url ⟨portedBase, oddlyNamed⟩ .metadata).authority = portedBase.authority ∧
    (url ⟨portedBase, oddlyNamed⟩ .metadata).query = none := by
  have hparse : Url.parse "https://me@h.example.com:8080/odata/?x=1" = .ok portedBase := by
    decide +kernel
  have hassociated : ∀ other ∈ oddlyNamed.associatedEntity, ∀ c ∈ other.toList,
      isLineBreakOrTab c = false := by
    rintro other ⟨⟩
    exact kept_of_all (by decide)
  obtain ⟨-, hurls⟩ :=
    url_continues_base (q := oddlyNamed) hparse (by decide) (kept_of_all (by decide)) hassociated
  obtain ⟨-, hauthority, hquery, -, hpath, -⟩ := hurls .metadata
  refine ⟨hparse, (hpath (by decide +kernel)).trans (by decide +kernel), hauthority, hquery⟩

end Harvest.Endpoints
