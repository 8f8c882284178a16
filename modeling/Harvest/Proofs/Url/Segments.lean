import Harvest.Proofs.Url.Blanks
import Harvest.Proofs.Url.Pairs
import Harvest.Url.Edit

/-!
# Segments of a path

The path of a web URL is a list of segments without slashes. A path that is continued by segments is
written as it is but for a slash behind it, followed by the segments as they are escaped: none of
them is left out, read as dots or taken for more than one segment.
-/

namespace Harvest.Url

open Text (encode splitWhere)

variable {scheme cs part segment : Chars} {parts segments added : List Chars} {set : EscapeSet}
  {c : Char} {url : Url}

/-! ## Paths that are read -/

/-- Escaped in the path of a web URL, in which slashes and backslashes stand between segments. -/
def webPathSet : EscapeSet := pathSet.add ['/', '\\']

/-- A segment that stands in a written path of a web URL as the URL holds it. -/
structure IsNormal (segment : Chars) : Prop where
  safe : ∀ c ∈ segment, c.toNat < 0x80 ∧ webPathSet c = false
  notDots : isDots segment = false

private theorem isNormal_nil : IsNormal [] := ⟨by simp, by decide⟩

/-- A normal segment is not parted by its characters. -/
theorem IsNormal.not_isSlash (h : IsNormal segment) (hc : c ∈ segment) :
    isSlash true c = false := by
  obtain ⟨-, hsafe⟩ := h.safe c hc
  simp only [webPathSet, EscapeSet.add, Bool.or_eq_false_iff, List.contains_eq_mem, List.mem_cons,
    List.not_mem_nil, or_false, decide_eq_false_iff_not, not_or] at hsafe
  simp [isSlash, hsafe]

/-- In particular there is no slash in it. -/
theorem IsNormal.slash_not_mem (h : IsNormal segment) : '/' ∉ segment :=
  fun hslash ↦ absurd (h.not_isSlash hslash) (by decide)

/-- What stands between two slashes is safe once it is escaped. -/
theorem safe_escape (h : ∀ c ∈ cs, isSlash true c = false) :
    ∀ c ∈ escape pathSet cs, c.toNat < 0x80 ∧ webPathSet c = false := by
  -- A text without slashes is escaped as if slashes were not safe.
  have hsame : escape pathSet cs = escape webPathSet cs := by
    refine List.flatMap_congr fun d hd ↦ ?_
    have hne : ¬(d = '/' ∨ d = '\\') := by simpa [isSlash] using h d hd
    simp [escapeChar, webPathSet, EscapeSet.add, hne]
  rw [hsame]
  intro c hc
  obtain hsafe | rfl | ⟨n, hn, rfl⟩ := of_mem_escape hc
  · exact hsafe
  · decide
  · interval_cases n <;> decide

/-- A segment that enters a path leaves no segment there but empty ones and itself, unless it is
read as dots. -/
theorem of_mem_enter {last : Bool} (h : part ∈ enter false last segments segment) :
    part ∈ segments ∨ part = [] ∨ part = segment ∧ isDots segment = false := by
  have hshorten : shorten false segments ⊆ segments := by
    unfold shorten
    split
    · simp
    · exact List.dropLast_subset _
  have htrailing {more : List Chars} (hmore : more ⊆ segments)
      (h : part ∈ more ++ if last then [[]] else []) : part ∈ segments ∨ part = [] := by
    obtain h | h := List.mem_append.mp h
    · exact .inl (hmore h)
    · cases last with
      | false => simp at h
      | true => exact .inr (by simpa using h)
  dsimp only [enter] at h
  split at h
  · exact (htrailing hshorten h).imp_right .inl
  · next hdouble =>
    split at h
    · exact (htrailing (List.Subset.refl _) h).imp_right .inl
    · next hsingle =>
      rw [List.mem_append, List.mem_singleton] at h
      exact h.imp_right fun hpart ↦ .inr ⟨hpart, by simp [isDots, hdouble, hsingle]⟩

private theorem of_mem_enterAll (h : part ∈ enterAll false segments parts) :
    part ∈ segments ∨ part = [] ∨ part ∈ parts ∧ isDots part = false := by
  induction parts generalizing segments with
  | nil => exact .inl h
  | cons first parts ih =>
    have hentered {last : Bool} (h : part ∈ enter false last segments first) :
        part ∈ segments ∨ part = [] ∨ part ∈ first :: parts ∧ isDots part = false := by
      obtain hold | hnil | ⟨rfl, hdots⟩ := of_mem_enter h
      · exact .inl hold
      · exact .inr (.inl hnil)
      · exact .inr (.inr ⟨List.mem_cons_self, hdots⟩)
    cases parts with
    | nil => exact hentered h
    | cons next parts =>
      obtain hold | hnil | ⟨hlater, hdots⟩ := ih h
      · exact hentered hold
      · exact .inr (.inl hnil)
      · exact .inr (.inr ⟨List.mem_cons_of_mem _ hlater, hdots⟩)

/-- The segments of a path that is read are normal. -/
theorem isNormal_of_mem_pathSegments (hfile : isFile scheme = false)
    (hspecial : isSpecial scheme = true) (h : part ∈ pathSegments scheme cs) : IsNormal part := by
  simp only [pathSegments, hfile, hspecial, Bool.false_eq_true, if_false] at h
  obtain hnone | rfl | ⟨hpart, hdots⟩ := of_mem_enterAll h
  · simp at hnone
  · exact isNormal_nil
  · obtain ⟨raw, hraw, rfl⟩ := List.mem_map.mp hpart
    exact ⟨safe_escape (Text.not_of_mem_splitWhere hraw), hdots⟩

/-- A web URL has a scheme with rules of its own, and is no local file. -/
theorem isFile_of_isWeb (hweb : url.isWeb = true) :
    isFile url.scheme = false ∧ isSpecial url.scheme = true := by
  simp only [isWeb, Bool.or_eq_true, beq_iff_eq] at hweb
  rcases hweb with hscheme | hscheme <;> rw [hscheme] <;> decide

private theorem pathSegments_ne_nil (hfile : isFile scheme = false) (cs : Chars) :
    pathSegments scheme cs ≠ [] := by
  have hne := Text.splitWhere_ne_nil (isSlash (isSpecial scheme)) cs
  intro hnil
  have hlast := getLast?_pathSegments hfile (List.dropLast_append_getLast hne).symm
  simp [hnil] at hlast

/-- The path of a web URL has segments, and all of them are normal. -/
theorem path_of_isWeb (h : parseChars cs = .ok url) (hweb : url.isWeb = true) :
    ∃ parts, url.path = .segments parts ∧ parts ≠ [] ∧ ∀ part ∈ parts, IsNormal part := by
  obtain ⟨scheme, rest, -, hfile, hspecial, hparse⟩ := parseChars_of_isWeb h hweb
  obtain ⟨authority, behind, -, rfl⟩ := of_parseWithAuthority hparse
  refine ⟨_, rfl, ?_⟩
  generalize behind.takeWhile (!endsPath ·) = text
  have hread (path : Chars) : pathSegments scheme path ≠ [] ∧
      ∀ part ∈ pathSegments scheme path, IsNormal part :=
    ⟨pathSegments_ne_nil hfile path, fun _ ↦ isNormal_of_mem_pathSegments hfile hspecial⟩
  unfold pathAfterAuthority
  split
  · rw [if_pos hspecial]
    exact ⟨List.cons_ne_nil _ _, by simpa using isNormal_nil⟩
  · split
    · exact hread _
    · exact hread _

/-! ## Dots -/

private theorem toNat_toLower (c : Char) : c.toLower.toNat =
    if 'A'.toNat ≤ c.toNat ∧ c.toNat ≤ 'Z'.toNat then c.toNat + 0x20 else c.toNat := by
  unfold Char.toLower
  simp only [ge_iff_le, UInt32.le_iff_toNat_le]
  split
  · next h =>
    have hcapital : 'A'.toNat ≤ c.toNat ∧ c.toNat ≤ 'Z'.toNat := h
    have hz : 'Z'.toNat = 90 := rfl
    have hsum : (c.val + ('a'.val - 'A'.val)).toNat = (c.toNat + 0x20) % 2 ^ 32 :=
      UInt32.toNat_add _ _
    rw [if_pos hcapital]
    exact hsum.trans (Nat.mod_eq_of_lt (by omega))
  · next h => exact (if_neg h).symm

/-- Only a capital becomes another character where capitals become small letters. -/
theorem eq_of_toLower {d : Char} (h : c.toLower = d) (hd : d.toNat < 'a'.toNat) : c = d := by
  have hnat := congrArg Char.toNat h
  have ha : 'A'.toNat = 65 ∧ 'a'.toNat = 97 := ⟨rfl, rfl⟩
  rw [toNat_toLower] at hnat
  split at hnat
  · omega
  · exact Char.toNat_inj.mp hnat

private theorem hexValue?_of_toLower (h : c.toLower = 'e') : hexValue? c = some 14 := by
  have hnat := congrArg Char.toNat h
  have he : 'e'.toNat = 101 := rfl
  rw [toNat_toLower] at hnat
  have hcases : c.toNat = 69 ∨ c.toNat = 101 := by
    split at hnat <;> omega
  rcases hcases with hvalue | hvalue <;> simp [hexValue?, hvalue]

/-- The ways to write a dot, in small letters. -/
def writtenDots : List Chars := [['.'], "%2e".toList]

/-- A dot is read wherever one is written, with small letters or with capitals. -/
theorem unescape_of_writtenDot {dot rest : Chars} (hdot : dot ∈ writtenDots)
    (h : lowerAscii segment = dot ++ rest) :
    ∃ tail, lowerAscii tail = rest ∧ unescape segment = 0x2E :: unescape tail := by
  simp only [writtenDots, List.mem_cons, List.not_mem_nil, or_false] at hdot
  obtain rfl | rfl := hdot
  · obtain ⟨c, tail, rfl, hc, htail⟩ := List.map_eq_cons_iff.mp h
    obtain rfl := eq_of_toLower hc (by decide)
    exact ⟨tail, htail, unescape_cons_of_ne (by decide) tail⟩
  · obtain ⟨c, _, rfl, hc, h⟩ := List.map_eq_cons_iff.mp h
    obtain ⟨d, _, rfl, hd, h⟩ := List.map_eq_cons_iff.mp h
    obtain ⟨letter, tail, rfl, hletter, htail⟩ := List.map_eq_cons_iff.mp h
    obtain rfl := eq_of_toLower hc (by decide)
    obtain rfl := eq_of_toLower hd (by decide)
    refine ⟨tail, htail, ?_⟩
    simp only [unescape, hexValue?_of_toLower hletter]
    rfl

/-- Segments that are read as dots stand for dots. -/
theorem unescape_of_isDots (h : isDots segment = true) :
    unescape segment = encode ['.'] ∨ unescape segment = encode ['.', '.'] := by
  have hnone {tail : Chars} (h : lowerAscii tail = []) : unescape tail = [] := by
    rw [List.map_eq_nil_iff.mp h]
    rfl
  have hcases : (∃ dot ∈ writtenDots, lowerAscii segment = dot) ∨
      ∃ first ∈ writtenDots, ∃ second ∈ writtenDots, lowerAscii segment = first ++ second := by
    simp only [isDots, isDoubleDot, isSingleDot, Bool.or_eq_true, List.contains_iff_mem,
      List.mem_cons, List.not_mem_nil, or_false] at h
    simp only [writtenDots, List.mem_cons, List.not_mem_nil, or_false, exists_eq_or_imp,
      exists_eq_left, String.reduceToList, List.cons_append, List.nil_append] at h ⊢
    tauto
  obtain ⟨dot, hdot, h⟩ | ⟨first, hfirst, second, hsecond, h⟩ := hcases
  · obtain ⟨tail, htail, hread⟩ := unescape_of_writtenDot hdot (h.trans (List.append_nil _).symm)
    rw [hread, hnone htail]
    exact .inl rfl
  · obtain ⟨tail, htail, hread⟩ := unescape_of_writtenDot hfirst h
    obtain ⟨rest, hrest, hread'⟩ :=
      unescape_of_writtenDot hsecond (htail.trans (List.append_nil _).symm)
    rw [hread, hread', hnone hrest]
    exact .inr rfl

/-- What is escaped is read as dots only where it is dots. -/
theorem isDots_escape (hset : set '%' = true) (hone : cs ≠ ['.']) (htwo : cs ≠ ['.', '.']) :
    isDots (escape set cs) = false := by
  rw [← Bool.not_eq_true]
  intro hdots
  have hread (dots : Chars) (h : unescape (escape set cs) = encode dots) : cs = dots := by
    rw [unescape_escape hset] at h
    have hdecode := congrArg Text.decodeLossy h
    rwa [Text.decodeLossy_encode, Text.decodeLossy_encode] at hdecode
  obtain h | h := unescape_of_isDots hdots
  · exact hone (hread _ h)
  · exact htwo (hread _ h)

/-! ## Paths that are continued -/

/-- A path behind which segments are put: without a slash at its end, and nothing where it holds
nothing else. -/
def continued (path : Chars) : Chars :=
  let kept := if path.getLast? = some '/' then path.dropLast else path
  if kept = [] ∨ kept = ['/'] then [] else kept

/-- A segment as it is put behind a path. -/
def writtenSegment (segment : Chars) : Chars := escape specialSegmentSet segment

/-- Segments other than dots are put behind a path one after the other. -/
theorem pushSegment_eq (hfile : isFile scheme = false) (hspecial : isSpecial scheme = true)
    (hkept : ∀ c ∈ segment, isLineBreakOrTab c = false) :
    pushSegment scheme segments segment =
      if segment = ['.'] ∨ segment = ['.', '.'] then segments
      else (if segments = [[]] then [] else segments) ++ [writtenSegment segment] := by
  have hfilter : segment.filter (!isLineBreakOrTab ·) = segment :=
    List.filter_eq_self.mpr fun c hc ↦ by simp [hkept c hc]
  unfold pushSegment
  split
  · rfl
  · next hdots =>
    obtain ⟨hone, htwo⟩ := not_or.mp hdots
    have hnodots : isDots (writtenSegment segment) = false := isDots_escape rfl hone htwo
    obtain ⟨hdouble, hsingle⟩ := Bool.or_eq_false_iff.mp hnodots
    unfold writtenSegment at hdouble hsingle ⊢
    simp only [hfile, hfilter, if_true, enter, hdouble, hsingle, normalSegment,
      Bool.false_and, Bool.false_eq_true, if_false]

/-- Segments without dots among them. -/
def withoutDots (segments : List Chars) : List Chars :=
  segments.filter fun segment ↦ segment ≠ ['.'] ∧ segment ≠ ['.', '.']

private theorem foldl_pushSegment (hfile : isFile scheme = false)
    (hspecial : isSpecial scheme = true)
    (hadded : ∀ segment ∈ added, segment ≠ [] ∧ ∀ c ∈ segment, isLineBreakOrTab c = false) :
    added.foldl (pushSegment scheme) segments =
      if withoutDots added = [] then segments
      else (if segments = [[]] then [] else segments) ++
        (withoutDots added).map writtenSegment := by
  induction added generalizing segments with
  | nil => rfl
  | cons segment added ih =>
    obtain ⟨⟨hne, hkept⟩, hadded⟩ := List.forall_mem_cons.mp hadded
    rw [List.foldl_cons, pushSegment_eq hfile hspecial hkept, ih hadded]
    by_cases hdots : segment = ['.'] ∨ segment = ['.', '.']
    · have hsame : withoutDots (segment :: added) = withoutDots added :=
        List.filter_cons_of_neg (by simpa [-not_and, not_and_or] using hdots)
      rw [if_pos hdots, hsame]
    · have hmore : withoutDots (segment :: added) = segment :: withoutDots added :=
        List.filter_cons_of_pos (by simpa [not_or] using hdots)
      -- What is put behind a path is not empty, so no further segment takes its place.
      have hnot :
          (if segments = [[]] then [] else segments) ++ [writtenSegment segment] ≠ [[]] := by
        intro hsame
        have hlast := congrArg List.getLast? hsame
        rw [List.getLast?_concat] at hlast
        exact escape_ne_nil hne (Option.some.inj hlast)
      rw [if_neg hdots, hmore, if_neg (List.cons_ne_nil _ _), if_neg hnot, List.map_cons]
      split
      · next hnil => rw [hnil, List.map_nil]
      · rw [List.append_assoc, List.singleton_append]

/-- Segments without slashes are written as one slash where there is one, and it is empty. -/
theorem chars_eq_slash_iff : parts.flatMap ('/' :: ·) = ['/'] ↔ parts = [[]] := by
  constructor
  · intro h
    cases parts with
    | nil => simp at h
    | cons part parts =>
      simp only [List.flatMap_cons, List.cons_append, List.cons.injEq, true_and,
        List.append_eq_nil_iff, List.flatMap_eq_nil_iff] at h
      obtain ⟨rfl, hparts⟩ := h
      have hnone : parts = [] :=
        List.eq_nil_iff_forall_not_mem.mpr fun other hother ↦ by simpa using hparts other hother
      rw [hnone]
  · rintro rfl
    rfl

private theorem dropTrailingSlash_concat (parts : List Chars) (last : Chars) :
    dropTrailingSlash (parts ++ [last]) =
      if parts ≠ [] ∧ last = [] then parts else parts ++ [last] := by
  cases parts with
  | nil => simp [dropTrailingSlash]
  | cons first rest =>
    have hdrop : dropTrailingSlash (first :: (rest ++ [last])) =
        if (rest ++ [last]).getLast? = some [] then first :: (rest ++ [last]).dropLast
        else first :: (rest ++ [last]) := by
      cases rest <;> rfl
    rw [List.cons_append, hdrop, List.getLast?_concat, List.dropLast_concat]
    simp

/-- The path that segments are put behind is written as the path that holds them is continued. -/
theorem chars_kept (hne : parts ≠ []) (hslash : ∀ part ∈ parts, '/' ∉ part) :
    (if dropTrailingSlash parts = [[]] then [] else dropTrailingSlash parts).flatMap ('/' :: ·) =
      continued (parts.flatMap ('/' :: ·)) := by
  have hwritten (kept : List Chars) : (if kept = [[]] then [] else kept).flatMap ('/' :: ·) =
      if kept.flatMap ('/' :: ·) = [] ∨ kept.flatMap ('/' :: ·) = ['/'] then []
      else kept.flatMap ('/' :: ·) := by
    simp only [chars_eq_slash_iff]
    by_cases hone : kept = [[]]
    · simp [hone]
    · by_cases hnone : kept.flatMap ('/' :: ·) = [] <;> simp [hone, hnone]
  obtain ⟨init, last, rfl⟩ := (List.eq_nil_or_concat' parts).resolve_left hne
  have hlast : '/' ∉ last := hslash last (List.mem_append_right _ (List.mem_singleton_self _))
  have hchars : (init ++ [last]).flatMap ('/' :: ·) = init.flatMap ('/' :: ·) ++ '/' :: last := by
    simp
  unfold continued
  by_cases hempty : last = []
  · subst hempty
    by_cases hinit : init = []
    · subst hinit
      rfl
    · have hdrop : dropTrailingSlash (init ++ [[]]) = init := by
        rw [dropTrailingSlash_concat, if_pos ⟨hinit, rfl⟩]
      rw [hdrop, hwritten, hchars, List.getLast?_concat, if_pos rfl, List.dropLast_concat]
  · have hdrop : dropTrailingSlash (init ++ [last]) = init ++ [last] := by
      rw [dropTrailingSlash_concat, if_neg fun h ↦ hempty h.2]
    have hend : (init.flatMap ('/' :: ·) ++ '/' :: last).getLast? ≠ some '/' := by
      intro h
      rw [List.getLast?_append_cons, List.getLast?_cons_of_ne_nil hempty] at h
      exact hlast (List.mem_of_getLast? h)
    rw [hdrop, hwritten, hchars, if_neg hend]

/-- Only the path and the query of a URL change where its path is continued. -/
theorem withSegments_eq (u : Url) (added : List Chars) :
    u.withSegments added = { u with path := (u.withSegments added).path, query := none } := by
  unfold withSegments
  split <;> rfl

/-- Segments other than dots follow the path of a web URL one after the other. -/
theorem chars_withSegments (h : parseChars cs = .ok url) (hweb : url.isWeb = true)
    (hadded : ∀ segment ∈ added, segment ≠ [] ∧ ∀ c ∈ segment, isLineBreakOrTab c = false)
    (hsome : withoutDots added ≠ []) : (url.withSegments added).path.chars =
      continued url.path.chars ++ (withoutDots added).flatMap ('/' :: writtenSegment ·) := by
  obtain ⟨hfile, hspecial⟩ := isFile_of_isWeb hweb
  obtain ⟨parts, hpath, hne, hnormal⟩ := path_of_isWeb h hweb
  have hslash : ∀ part ∈ parts, '/' ∉ part := fun part hpart ↦ (hnormal part hpart).slash_not_mem
  have hpath' : (url.withSegments added).path =
      .segments (added.foldl (pushSegment url.scheme) (dropTrailingSlash parts)) := by
    simp only [withSegments, hpath]
  rw [hpath', hpath, Path.chars, Path.chars, foldl_pushSegment hfile hspecial hadded, if_neg hsome,
    List.flatMap_append, chars_kept hne hslash, List.flatMap_map]

/-! ## Segments that stay in their path -/

/-- A part of a path that is read as one segment of it, and that stands for the given text. -/
structure StandsFor (written segment : Chars) : Prop where
  decode : Text.decode (unescape written) = some segment
  notDots : isDots written = false
  inside : ∀ c ∈ written, isSlash true c = false ∧ endsPath c = false

/-- A segment that is no dots is written so that it stands for itself. -/
theorem standsFor_writtenSegment (hone : segment ≠ ['.']) (htwo : segment ≠ ['.', '.']) :
    StandsFor (writtenSegment segment) segment where
  decode := by rw [writtenSegment, unescape_escape rfl, Text.decode_encode]
  notDots := isDots_escape rfl hone htwo
  inside := by
    intro c hc
    obtain ⟨-, hsafe⟩ | rfl | ⟨n, hn, rfl⟩ := of_mem_escape hc
    · simp only [specialSegmentSet, segmentSet, pathSet, EscapeSet.add, Bool.or_eq_false_iff,
        List.contains_eq_mem, List.mem_cons, List.not_mem_nil, or_false, decide_eq_false_iff_not,
        not_or] at hsafe
      simp [isSlash, endsPath, hsafe]
    · decide
    · interval_cases n <;> decide

end Harvest.Url
