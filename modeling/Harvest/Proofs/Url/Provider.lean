import Harvest.Proofs.Url.Segments

/-!
# Identity providers

The endpoint beside a token endpoint has a path that is made from the written path of the token
endpoint, and that is read again. The segments of a web URL are read as they are once they are
written, so that nothing changes in the path but what is behind its last slash.
-/

namespace Harvest.Url

open Text (splitWhere)

variable {scheme cs first segment : Chars} {parts segments : List Chars} {c : Char} {url : Url}

/-! ## Paths that are read again -/

/-- A segment enters a path as it is, unless it is read as dots. -/
theorem enter_of_notDots {last : Bool} (h : isDots segment = false) :
    enter false last segments segment = segments ++ [segment] := by
  obtain ⟨hdouble, hsingle⟩ := Bool.or_eq_false_iff.mp h
  simp [enter, hdouble, hsingle, normalSegment]

private theorem enterAll_of_notDots (h : ∀ part ∈ parts, isDots part = false) :
    enterAll false segments parts = segments ++ parts := by
  induction parts generalizing segments with
  | nil => simp [enterAll]
  | cons first parts ih =>
    obtain ⟨hfirst, hparts⟩ := List.forall_mem_cons.mp h
    cases parts with
    | nil => exact enter_of_notDots hfirst
    | cons next parts =>
      rw [enterAll, enter_of_notDots hfirst, ih hparts, List.append_assoc, List.singleton_append]
      exact List.cons_ne_nil next parts

/-- A written path is taken apart at the slashes that it was written with. -/
theorem splitWhere_chars (hfirst : ∀ c ∈ first, isSlash true c = false)
    (h : ∀ part ∈ parts, ∀ c ∈ part, isSlash true c = false) :
    splitWhere (isSlash true) (first ++ parts.flatMap ('/' :: ·)) = first :: parts := by
  induction parts generalizing first with
  | nil => simpa using Text.splitWhere_eq_self hfirst
  | cons next parts ih =>
    obtain ⟨hnext, hparts⟩ := List.forall_mem_cons.mp h
    rw [List.flatMap_cons, List.cons_append, Text.splitWhere_append_cons rfl,
      Text.splitWhere_eq_self hfirst, ih hnext hparts, List.singleton_append]

private theorem IsNormal.escape_eq_self (h : IsNormal segment) :
    escape pathSet segment = segment := by
  refine Url.escape_eq_self fun c hc ↦ ?_
  obtain ⟨hascii, hsafe⟩ := h.safe c hc
  exact ⟨hascii, (Bool.or_eq_false_iff.mp hsafe).1⟩

/-- A path of normal segments is read as these segments once it is written. -/
theorem pathAfterAuthority_chars (hfile : isFile scheme = false)
    (hspecial : isSpecial scheme = true) (hne : parts ≠ [])
    (hnormal : ∀ part ∈ parts, IsNormal part) :
    pathAfterAuthority scheme (Path.segments parts).chars = parts := by
  obtain ⟨first, rest, rfl⟩ := List.exists_cons_of_ne_nil hne
  have hslash : ∀ part ∈ first :: rest, ∀ c ∈ part, isSlash true c = false :=
    fun part hpart c hc ↦ (hnormal part hpart).not_isSlash hc
  obtain ⟨hfirst, hrest⟩ := List.forall_mem_cons.mp hslash
  have hescape : (first :: rest).map (escape pathSet) = first :: rest := by
    rw [List.map_congr_left fun part hpart ↦ (hnormal part hpart).escape_eq_self, List.map_id']
  have hdots : ∀ part ∈ first :: rest, isDots part = false :=
    fun part hpart ↦ (hnormal part hpart).notDots
  rw [Path.chars, List.flatMap_cons, List.cons_append, pathAfterAuthority,
    if_pos (by simp [isSlash])]
  simp only [pathSegments, hfile, hspecial, splitWhere_chars hfirst hrest, hescape,
    enterAll_of_notDots hdots, List.nil_append, Bool.false_eq_true, if_false]

private theorem IsNormal.not_isLineBreakOrTab (h : IsNormal segment) (hc : c ∈ segment) :
    isLineBreakOrTab c = false := by
  obtain ⟨-, hsafe⟩ := h.safe c hc
  rw [← Bool.not_eq_true]
  intro hdropped
  simp only [isLineBreakOrTab, Bool.or_eq_true, beq_iff_eq] at hdropped
  obtain (rfl | rfl) | rfl := hdropped <;> exact absurd hsafe (by decide)

private theorem filter_chars (hnormal : ∀ part ∈ parts, IsNormal part) :
    (Path.segments parts).chars.filter (!isLineBreakOrTab ·) = (Path.segments parts).chars := by
  refine List.filter_eq_self.mpr fun c hc ↦ ?_
  obtain ⟨part, hpart, hc⟩ := List.mem_flatMap.mp hc
  obtain rfl | hc := List.mem_cons.mp hc
  · decide
  · simp [(hnormal part hpart).not_isLineBreakOrTab hc]

/-- A web URL has the segments that are written as its path. -/
theorem withPath_chars (hweb : url.isWeb = true) (hpath : url.path = .segments segments)
    (hne : parts ≠ []) (hnormal : ∀ part ∈ parts, IsNormal part) :
    url.withPath (Path.segments parts).chars = { url with path := .segments parts } := by
  obtain ⟨hfile, hspecial⟩ := isFile_of_isWeb hweb
  simp only [withPath, filter_chars hnormal, hpath,
    pathAfterAuthority_chars hfile hspecial hne hnormal]

/-! ## The path of the provider -/

private theorem isNormal_idp : IsNormal "idp".toList where
  safe := by
    simp only [String.reduceToList, List.forall_mem_cons]
    exact ⟨by decide, by decide, by decide, by simp⟩
  notDots := by decide

private theorem providerPath_append (before : Chars) (h : '/' ∉ cs) :
    providerPath (before ++ '/' :: cs) = before ++ '/' :: "idp".toList := by
  have hbehind : ∀ c ∈ cs.reverse, (c != '/') = true := fun c hc ↦
    bne_iff_ne.mpr fun heq ↦ h (heq ▸ List.mem_reverse.mp hc)
  have hcut : (before ++ '/' :: cs).reverse.dropWhile (· != '/') = '/' :: before.reverse := by
    rw [List.reverse_append, List.reverse_cons, List.append_assoc,
      List.dropWhile_append_of_pos hbehind]
    rfl
  rw [providerPath, if_pos (by simp), hcut]
  simp

private theorem chars_concat (parts : List Chars) (last : Chars) :
    (Path.segments (parts ++ [last])).chars = (Path.segments parts).chars ++ '/' :: last := by
  simp [Path.chars]

private theorem isNormal_concat_idp (h : ∀ part ∈ parts ++ [segment], IsNormal part) :
    ∀ part ∈ parts ++ ["idp".toList], IsNormal part := by
  obtain ⟨hparts, -⟩ := List.forall_mem_append.mp h
  exact List.forall_mem_append.mpr ⟨hparts, by simpa using isNormal_idp⟩

/-- The last segment of a web URL's path gives way to the name of the provider. -/
theorem identityProvider_eq (hweb : url.isWeb = true)
    (hpath : url.path = .segments (parts ++ [segment]))
    (hnormal : ∀ part ∈ parts ++ [segment], IsNormal part) :
    url.identityProvider =
      { url with path := .segments (parts ++ ["idp".toList]), query := none } := by
  have hslash : '/' ∉ segment := (hnormal segment (by simp)).slash_not_mem
  have hchars : providerPath url.path.chars = (Path.segments (parts ++ ["idp".toList])).chars := by
    rw [hpath, chars_concat, chars_concat, providerPath_append _ hslash]
  have hne : parts ++ ["idp".toList] ≠ [] := by simp
  rw [identityProvider, hchars, withPath_chars hweb hpath hne (isNormal_concat_idp hnormal)]
  rfl

/-- A URL beside another one: the same place, another name behind the last slash of the path, and
no query. -/
structure IsBeside (name : Chars) (u endpoint : Url) : Prop where
  scheme : u.scheme = endpoint.scheme
  authority : u.authority = endpoint.authority
  path : ∃ before behind, '/' ∉ behind ∧ endpoint.path.chars = before ++ '/' :: behind ∧
    u.path.chars = before ++ '/' :: name
  query : u.query = none
  fragment : u.fragment = endpoint.fragment

/-- The provider of a web URL is beside it, and is its own provider. -/
theorem identityProvider_isBeside {text : String} (h : parse text = .ok url)
    (hweb : url.isWeb = true) :
    IsBeside "idp".toList url.identityProvider url ∧
      url.identityProvider.identityProvider = url.identityProvider := by
  obtain ⟨segments, hpath, hne, hnormal⟩ := path_of_isWeb h hweb
  obtain ⟨parts, last, rfl⟩ := (List.eq_nil_or_concat' segments).resolve_left hne
  have hprovider := identityProvider_eq hweb hpath hnormal
  constructor
  · rw [hprovider]
    exact
      { scheme := rfl
        authority := rfl
        path := ⟨_, last, (hnormal last (by simp)).slash_not_mem, by rw [hpath, chars_concat],
          chars_concat parts _⟩
        query := rfl
        fragment := rfl }
  · rw [hprovider]
    exact identityProvider_eq hweb rfl (isNormal_concat_idp hnormal)

/-- An endpoint with user information, a port, escapes and empty segments in its path, a query and a
fragment. -/
def crowdedEndpoint : Url :=
  ⟨"https".toList, some ⟨"me".toList, "pw".toList, .name "h.example.com".toList, some 8443⟩,
    .segments ["a%20b".toList, [], "%2fx".toList, []], some "q=1".toList, some "f".toList⟩

/-- Escapes and empty segments stay in the path; the slash at its end is its last one. -/
theorem identityProvider_isBeside_crowded :
    parse "https://me:pw@h.example.com:8443/a%20b//%2fx/?q=1#f" = .ok crowdedEndpoint ∧
    IsBeside "idp".toList crowdedEndpoint.identityProvider crowdedEndpoint ∧
    crowdedEndpoint.identityProvider.identityProvider = crowdedEndpoint.identityProvider ∧
    crowdedEndpoint.identityProvider.text =
      "https://me:pw@h.example.com:8443/a%20b//%2fx/idp#f" := by
  have hparse : parse "https://me:pw@h.example.com:8443/a%20b//%2fx/?q=1#f" =
      .ok crowdedEndpoint := by
    decide +kernel
  obtain ⟨hbeside, hagain⟩ := identityProvider_isBeside hparse (by decide)
  exact ⟨hparse, hbeside, hagain, by decide +kernel⟩

end Harvest.Url
