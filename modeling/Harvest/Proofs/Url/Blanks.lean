import Harvest.Proofs.Url.Hosts

/-!
# Blanks around a URL

White space of ASCII is dropped at the ends of a text when it is read as a URL. Blanks beyond ASCII
are not: before a URL they leave it without a scheme, and behind it they are an error or belong to
its last part. So a text is read as what is left of it when it is trimmed only if no such blank is
trimmed off.
-/

namespace Harvest.Url

open Text (blanksBefore blanksBehind isBlank splitWhere wideBlanks)

variable {scheme cs rest tail before behind : Chars} {set : EscapeSet} {b c : Char} {url : Url}

/-! ## What is dropped -/

private theorem rdropWhile_append (p : Char → Bool) (first second : Chars) :
    (first ++ second).rdropWhile p =
      if second.rdropWhile p = [] then first.rdropWhile p else first ++ second.rdropWhile p := by
  simp only [List.rdropWhile, List.reverse_append, List.dropWhile_append, List.reverse_eq_nil_iff,
    List.isEmpty_iff]
  split <;> simp

private theorem strip_append_left (h : ∀ c ∈ before, isPadding c = true) (cs : Chars) :
    strip (before ++ cs) = strip cs := by
  rw [strip, strip, List.dropWhile_append_of_pos h]

private theorem strip_append_right (h : ∀ c ∈ behind, isPadding c = true) (cs : Chars) :
    strip (cs ++ behind) = strip cs := by
  have hnone : behind.dropWhile isPadding = [] := List.dropWhile_eq_nil_iff.mpr h
  have hnone' : behind.rdropWhile isPadding = [] := List.rdropWhile_eq_nil_iff.mpr h
  rw [strip, strip, List.dropWhile_append]
  split
  · next hempty => rw [hnone, List.isEmpty_iff.mp hempty]
  · exact congrArg (List.filter _) ((rdropWhile_append _ _ _).trans (if_pos hnone'))

private theorem mem_wideBlanks (h : isBlank c = true) (hnot : isPadding c = false) :
    c ∈ wideBlanks := by
  refine Text.mem_wideBlanks_of_isBlank h ?_
  simpa [isPadding] using hnot

/-- Before a URL a blank beyond ASCII is not dropped, and no scheme starts with it. -/
theorem splitScheme_strip_eq_none (h : ∀ c ∈ before, isBlank c = true)
    (hwide : ∃ c ∈ before, isPadding c = false) (cs : Chars) :
    splitScheme (strip (before ++ cs)) = none := by
  have hne : before.dropWhile isPadding ≠ [] := by
    simpa [List.dropWhile_eq_nil_iff] using hwide
  obtain ⟨b, others, hfirst⟩ := List.exists_cons_of_ne_nil hne
  have hnot : isPadding b = false := by
    have hhead := List.head_dropWhile_not isPadding hne
    simpa [hfirst] using hhead
  have hmem : b ∈ wideBlanks := by
    refine mem_wideBlanks (h b ?_) hnot
    exact (List.dropWhile_sublist isPadding).mem (hfirst ▸ List.mem_cons_self)
  obtain ⟨hletter, hkept⟩ := Text.of_mem_wideBlanks
    (P := fun b ↦ b.isAlpha = false ∧ isLineBreakOrTab b = false) hmem (by decide)
  -- Nothing that is dropped behind reaches this blank.
  obtain ⟨behind, hstrip⟩ : ∃ behind, strip (before ++ cs) = b :: behind := by
    have hdrop : (before ++ cs).dropWhile isPadding = [b] ++ (others ++ cs) := by
      rw [List.dropWhile_append, hfirst]
      rfl
    have hkeep : ((before ++ cs).dropWhile isPadding).rdropWhile isPadding =
        b :: (others ++ cs).rdropWhile isPadding := by
      rw [hdrop, rdropWhile_append]
      split
      · next hnil => simp [hnil, List.rdropWhile_singleton, hnot]
      · rfl
    exact ⟨_, (congrArg (List.filter _) hkeep).trans (List.filter_cons_of_pos (by simp [hkept]))⟩
  rw [hstrip, splitScheme, hletter]
  rfl

/-- Behind a URL the blanks up to the last one beyond ASCII are not dropped. -/
theorem strip_append_wide (hcs : strip cs ≠ []) (h : ∀ c ∈ behind, isBlank c = true)
    (hwide : ∃ c ∈ behind, isPadding c = false) :
    ∃ tail, IsTrail tail ∧ strip (cs ++ behind) = strip cs ++ tail := by
  have hne : behind.rdropWhile isPadding ≠ [] := by
    simpa [List.rdropWhile_eq_nil_iff] using hwide
  have hblank : ∀ c ∈ behind.rdropWhile isPadding, isBlank c = true :=
    fun c hc ↦ h c ((List.rdropWhile_prefix isPadding behind).subset hc)
  have hcs' : cs.dropWhile isPadding ≠ [] := by
    intro hnil
    exact hcs (by simp [strip, hnil])
  -- The padding that `cs` ends in is not dropped either.
  have hstrip : strip (cs ++ behind) = strip cs ++
      ((cs.dropWhile isPadding).rtakeWhile isPadding ++
        behind.rdropWhile isPadding).filter (!isLineBreakOrTab ·) := by
    have hkeep : ((cs ++ behind).dropWhile isPadding).rdropWhile isPadding =
        (cs.dropWhile isPadding).rdropWhile isPadding ++
          ((cs.dropWhile isPadding).rtakeWhile isPadding ++ behind.rdropWhile isPadding) := by
      rw [List.dropWhile_append, if_neg (by simpa [List.isEmpty_iff] using hcs'),
        rdropWhile_append, if_neg hne, ← List.append_assoc, List.rdropWhile_append_rtakeWhile]
    exact (congrArg (List.filter _) hkeep).trans (List.filter_append _ _)
  refine ⟨_, ⟨fun c hc ↦ ?_, ?_⟩, hstrip⟩
  · obtain hpadding | hc := List.mem_append.mp (List.mem_filter.mp hc).1
    · exact .inl (List.mem_rtakeWhile_imp hpadding)
    · cases hnot : isPadding c with
      | true => exact .inl rfl
      | false => exact .inr (mem_wideBlanks (hblank c hc) hnot)
  · have hlast := List.dropLast_append_getLast hne
    have hnot := List.rdropWhile_last_not isPadding behind hne
    generalize (behind.rdropWhile isPadding).getLast hne = b at hlast hnot
    have hmem : b ∈ wideBlanks := mem_wideBlanks (hblank b (hlast ▸ by simp)) (by simpa using hnot)
    have hkept := Text.of_mem_wideBlanks (P := fun b ↦ isLineBreakOrTab b = false) hmem (by decide)
    refine ⟨((cs.dropWhile isPadding).rtakeWhile isPadding ++
      (behind.rdropWhile isPadding).dropLast).filter (!isLineBreakOrTab ·), b, hmem, ?_⟩
    conv_lhs => rw [← hlast]
    simp [hkept]

/-! ## Schemes -/

private theorem schemeRest_append (h : schemeRest cs = some (scheme, rest)) (tail : Chars) :
    schemeRest (cs ++ tail) = some (scheme, rest ++ tail) := by
  induction cs generalizing scheme with
  | nil => simp [schemeRest] at h
  | cons c cs ih =>
    rw [List.cons_append, schemeRest]
    rw [schemeRest] at h
    split_ifs at h ⊢ with hcolon hkept
    · simp_all
    · obtain ⟨⟨found, behind⟩, hfound, hsame⟩ := Option.map_eq_some_iff.mp h
      obtain ⟨rfl, rfl⟩ := Prod.mk.inj hsame
      rw [ih hfound]
      rfl

private theorem splitScheme_append (h : splitScheme cs = some (scheme, rest)) (tail : Chars) :
    splitScheme (cs ++ tail) = some (scheme, rest ++ tail) := by
  cases cs with
  | nil => simp [splitScheme] at h
  | cons c cs =>
    rw [List.cons_append, splitScheme]
    rw [splitScheme] at h
    split_ifs at h ⊢
    exact schemeRest_append h tail

/-! ## Queries and fragments -/

private theorem escape_append (cs tail : Chars) :
    escape set (cs ++ tail) = escape set cs ++ escape set tail :=
  List.flatMap_append

private theorem escapeChar_ne_nil (c : Char) : escapeChar set c ≠ [] := by
  rw [escapeChar]
  split
  · exact List.cons_ne_nil _ _
  · obtain ⟨b, bytes, hbytes, -⟩ := Text.readChar_utf8EncodeChar c []
    simp [hbytes, escapeByte]

/-- No text disappears when it is escaped. -/
theorem escape_ne_nil (h : cs ≠ []) : escape set cs ≠ [] := by
  obtain ⟨c, others, rfl⟩ := List.exists_cons_of_ne_nil h
  rw [escape, List.flatMap_cons]
  exact List.append_ne_nil_of_left_ne_nil (escapeChar_ne_nil c) _

/-- More text is written longer. -/
theorem escape_append_ne (h : tail ≠ []) (cs : Chars) :
    escape set (cs ++ tail) ≠ escape set cs := by
  intro hsame
  rw [escape_append] at hsame
  exact escape_ne_nil h (List.append_right_eq_self.mp hsame)

/-- What is behind a query or a fragment belongs to it. -/
theorem queryAndFragment_append_ne (htail : IsTrail tail) (hends : endsPath c = true)
    (scheme cs : Chars) :
    queryAndFragment scheme (c :: (cs ++ tail)) ≠ queryAndFragment scheme (c :: cs) := by
  simp only [endsPath, Bool.or_eq_true, beq_iff_eq] at hends
  obtain rfl | rfl := hends
  · have hall : ∀ c ∈ tail, (c != '#') = true := by
      rintro c hc
      rw [bne_iff_ne]
      rintro rfl
      exact absurd (htail.not_endsPath hc) (by decide)
    intro hsame
    cases hhash : cs.dropWhile (· != '#') with
    | nil =>
      have hcs : ∀ c ∈ cs, (c != '#') = true := List.dropWhile_eq_nil_iff.mp hhash
      have hquery := Option.some.inj (Prod.mk.inj hsame).1
      rw [List.takeWhile_append_of_pos hcs, List.takeWhile_eq_self_iff.mpr hall,
        List.takeWhile_eq_self_iff.mpr hcs] at hquery
      exact escape_append_ne htail.ne_nil cs hquery
    | cons d fragment =>
      have hfragment := (Prod.mk.inj hsame).2
      have hdrop : (cs ++ tail).dropWhile (· != '#') = d :: (fragment ++ tail) := by
        rw [List.dropWhile_append, hhash]
        rfl
      simp only [hdrop, hhash, Option.some.injEq] at hfragment
      exact escape_append_ne htail.ne_nil fragment hfragment
  · intro hsame
    have hfragment := Option.some.inj (Prod.mk.inj hsame).2
    exact escape_append_ne htail.ne_nil cs hfragment

/-! ## Paths -/

private theorem enterAll_append_singleton (file : Bool) (segments parts : List Chars)
    (last : Chars) :
    enterAll file segments (parts ++ [last]) =
      enter file true (parts.foldl (enter file false) segments) last := by
  induction parts generalizing segments with
  | nil => rfl
  | cons part parts ih =>
    have hne := List.append_ne_nil_of_right_ne_nil parts (List.cons_ne_nil last [])
    obtain ⟨next, others, hnext⟩ := List.exists_cons_of_ne_nil hne
    rw [List.cons_append, hnext, enterAll, ← hnext, ih, List.foldl_cons]
    exact fun hnil ↦ nomatch hnil

/-- Whether a segment stands for a place that is known without it. -/
def isDots (segment : Chars) : Bool := isDoubleDot segment || isSingleDot segment

private theorem getLast?_enter (segments : List Chars) (segment : Chars) :
    (enter false true segments segment).getLast? =
      some (if isDots segment = true then [] else segment) := by
  simp only [enter, isDots, normalSegment, Bool.or_eq_true]
  by_cases hdouble : isDoubleDot segment = true
  · simp [hdouble]
  · by_cases hsingle : isSingleDot segment = true
    · simp [hdouble, hsingle]
    · simp [hdouble, hsingle]

private theorem of_mem_lowerAscii_of_isDots {segment : Chars} (h : isDots segment = true)
    (hc : c ∈ lowerAscii segment) : c ∈ ['.', '%', '2', 'e'] := by
  simp only [isDots, isDoubleDot, isSingleDot, Bool.or_eq_true, List.contains_iff_mem,
    List.mem_cons, List.not_mem_nil, or_false] at h
  have hall : (lowerAscii segment).all (· ∈ ['.', '%', '2', 'e']) = true := by
    rcases h with (h | h | h | h) | h | h <;> rw [h] <;> decide
  exact of_decide_eq_true (List.all_eq_true.mp hall c hc)

/-- A segment that ends in a blank beyond ASCII is written with other characters than dots. -/
theorem isDots_escape_append (htail : IsTrail tail) (cs : Chars) :
    isDots (escape pathSet (cs ++ tail)) = false := by
  obtain ⟨before, b, hwide, rfl⟩ := htail.last
  obtain ⟨c, hc, hnot⟩ := List.any_eq_true.mp <| Text.of_mem_wideBlanks
    (P := fun b ↦ (lowerAscii (escapeChar pathSet b)).any (· ∉ ['.', '%', '2', 'e']) = true) hwide
    (by decide)
  rw [decide_eq_true_eq] at hnot
  cases hdots : isDots (escape pathSet (cs ++ (before ++ [b]))) with
  | false => rfl
  | true =>
    refine absurd (of_mem_lowerAscii_of_isDots hdots ?_) hnot
    rw [← List.append_assoc, escape_append, lowerAscii, List.map_append]
    exact List.mem_append_right _ (by simpa [escape, lowerAscii] using hc)

/-- A path ends in the last part of its text, unless this stands for a place. -/
theorem getLast?_pathSegments (hfile : isFile scheme = false) {parts : List Chars} {last : Chars}
    (h : splitWhere (isSlash (isSpecial scheme)) cs = parts ++ [last]) :
    (pathSegments scheme cs).getLast? =
      some (if isDots (escape pathSet last) = true then [] else escape pathSet last) := by
  simp only [pathSegments, hfile, h, List.map_append, List.map_singleton,
    enterAll_append_singleton, Bool.false_eq_true, if_false, getLast?_enter]

/-- What is behind a path belongs to its last segment. -/
theorem pathSegments_append_ne (hfile : isFile scheme = false) (hspecial : isSpecial scheme = true)
    (htail : IsTrail tail) (cs : Chars) :
    pathSegments scheme (cs ++ tail) ≠ pathSegments scheme cs := by
  have hslash : ∀ c ∈ tail, isSlash (isSpecial scheme) c = false := by
    rw [hspecial]
    exact fun c hc ↦ htail.not_isSlash hc
  obtain ⟨parts, last, hparts, hparts'⟩ := Text.splitWhere_append hslash cs
  intro hsame
  have hlast := congrArg List.getLast? hsame
  rw [getLast?_pathSegments hfile hparts, getLast?_pathSegments hfile hparts',
    isDots_escape_append htail, if_neg Bool.false_ne_true, Option.some.injEq] at hlast
  split at hlast
  · exact escape_ne_nil (List.append_ne_nil_of_right_ne_nil last htail.ne_nil) hlast
  · exact escape_append_ne htail.ne_nil last hlast

private theorem pathAfterAuthority_append_ne (hfile : isFile scheme = false)
    (hspecial : isSpecial scheme = true) (htail : IsTrail tail) (cs : Chars) :
    pathAfterAuthority scheme (cs ++ tail) ≠ pathAfterAuthority scheme cs := by
  -- The slash that a path may start with is left out.
  obtain ⟨text, hcs, hcs'⟩ : ∃ text, pathAfterAuthority scheme cs = pathSegments scheme text ∧
      pathAfterAuthority scheme (cs ++ tail) = pathSegments scheme (text ++ tail) := by
    cases cs with
    | nil =>
      obtain ⟨c, others, rfl⟩ := List.exists_cons_of_ne_nil htail.ne_nil
      have hc := htail.not_isSlash List.mem_cons_self
      refine ⟨[], ?_, ?_⟩
      · simp only [pathAfterAuthority, hspecial, if_true, pathSegments, hfile]
        rfl
      · simp only [List.nil_append, pathAfterAuthority, hspecial, hc]
        rfl
    | cons c cs =>
      by_cases hc : isSlash (isSpecial scheme) c = true
      · exact ⟨cs, if_pos hc, if_pos hc⟩
      · exact ⟨c :: cs, if_neg hc, if_neg hc⟩
  rw [hcs, hcs']
  exact pathSegments_append_ne hfile hspecial htail text

/-! ## Whole URLs -/

/-- What is behind the authority belongs to the URL. -/
theorem withRest_append_ne (hfile : isFile scheme = false) (hspecial : isSpecial scheme = true)
    (htail : IsTrail tail) (authority : Option Authority) (cs : Chars) :
    withRest scheme authority (.segments ∘ pathAfterAuthority scheme) (cs ++ tail) ≠
      withRest scheme authority (.segments ∘ pathAfterAuthority scheme) cs := by
  have hends : ∀ c ∈ tail, (!endsPath c) = true := fun c hc ↦ by
    simp [htail.not_endsPath hc]
  intro hsame
  cases hbehind : cs.dropWhile (!endsPath ·) with
  | nil =>
    have hcs : ∀ c ∈ cs, (!endsPath c) = true := List.dropWhile_eq_nil_iff.mp hbehind
    have hpath := Path.segments.inj (congrArg Url.path hsame)
    rw [List.takeWhile_append_of_pos hcs, List.takeWhile_eq_self_iff.mpr hends,
      List.takeWhile_eq_self_iff.mpr hcs] at hpath
    exact pathAfterAuthority_append_ne hfile hspecial htail cs hpath
  | cons c others =>
    have hc : endsPath c = true := by
      have hhead := List.head_dropWhile_not (!endsPath ·) (l := cs) (by simp [hbehind])
      simpa [hbehind] using hhead
    have hdrop : (cs ++ tail).dropWhile (!endsPath ·) = c :: (others ++ tail) := by
      rw [List.dropWhile_append, hbehind]
      rfl
    refine queryAndFragment_append_ne htail hc scheme others ?_
    rw [← hdrop, ← hbehind]
    exact Prod.ext (congrArg Url.query hsame) (congrArg Url.fragment hsame)

/-- A URL that has an authority has the scheme before it and a hierarchical path behind it. -/
theorem of_parseWithAuthority (h : parseWithAuthority scheme cs = .ok url) :
    ∃ authority rest, readAuthority scheme cs = .ok (authority, rest) ∧
      url = withRest scheme (some authority) (.segments ∘ pathAfterAuthority scheme) rest := by
  simp only [parseWithAuthority, bind, Except.bind] at h
  cases hread : readAuthority scheme cs with
  | error e => simp [hread] at h
  | ok read =>
    rw [hread] at h
    exact ⟨read.1, read.2, rfl, (Except.ok.inj h).symm⟩

private theorem scheme_of_parseWithAuthority (h : parseWithAuthority scheme cs = .ok url) :
    url.scheme = scheme := by
  obtain ⟨authority, rest, -, rfl⟩ := of_parseWithAuthority h
  rfl

/-- A URL has the scheme that its text starts with. -/
theorem scheme_of_parseChars (hsplit : splitScheme (strip cs) = some (scheme, rest))
    (h : parseChars cs = .ok url) : url.scheme = scheme := by
  simp only [parseChars, hsplit] at h
  split at h
  · simp only [parseFile, bind, Except.bind] at h
    split at h
    · cases hhost : fileHost (rest.drop 2) with
      | error e => simp [hhost] at h
      | ok found =>
        rw [hhost] at h
        obtain rfl := Except.ok.inj h
        rfl
    · obtain rfl := Except.ok.inj h
      rfl
  · split at h
    · exact scheme_of_parseWithAuthority h
    · split at h
      · exact scheme_of_parseWithAuthority h
      · obtain rfl := Except.ok.inj h
        rfl
      · obtain rfl := Except.ok.inj h
        rfl

/-- The text of a web URL has an authority behind the scheme and any slashes. -/
theorem parseChars_of_isWeb (h : parseChars cs = .ok url) (hweb : url.isWeb = true) :
    ∃ scheme rest, splitScheme (strip cs) = some (scheme, rest) ∧ isFile scheme = false ∧
      isSpecial scheme = true ∧
      parseWithAuthority scheme (rest.dropWhile (isSlash true)) = .ok url := by
  cases hsplit : splitScheme (strip cs) with
  | none => simp [parseChars, hsplit] at h
  | some parts =>
    obtain ⟨scheme, rest⟩ := parts
    have hkind : isFile scheme = false ∧ isSpecial scheme = true := by
      simp only [isWeb, Bool.or_eq_true, beq_iff_eq, scheme_of_parseChars hsplit h] at hweb
      rcases hweb with rfl | rfl <;> decide
    refine ⟨scheme, rest, rfl, hkind.1, hkind.2, ?_⟩
    simpa only [parseChars, hsplit, hkind, Bool.false_eq_true, if_false, if_true] using h

/-- A URL of the web has a hierarchical path. -/
theorem isHierarchical_of_isWeb (h : parseChars cs = .ok url) (hweb : url.isWeb = true) :
    url.isHierarchical = true := by
  obtain ⟨scheme, rest, -, -, -, hparse⟩ := parseChars_of_isWeb h hweb
  obtain ⟨authority, rest, -, rfl⟩ := of_parseWithAuthority hparse
  rfl

/-- No slash is in a trail. -/
theorem IsTrail.dropWhile_isSlash (h : IsTrail tail) (cs : Chars) :
    (cs ++ tail).dropWhile (isSlash true) = cs.dropWhile (isSlash true) ++ tail := by
  rw [List.dropWhile_append]
  split
  · next hnone =>
    obtain ⟨c, others, rfl⟩ := List.exists_cons_of_ne_nil h.ne_nil
    have hc := h.not_isSlash List.mem_cons_self
    rw [List.isEmpty_iff.mp hnone, List.nil_append, List.dropWhile_cons_of_neg (by simp [hc])]
  · rfl

/-- A blank beyond ASCII behind the text of a web URL is an error or makes another URL of it. -/
theorem parseChars_append_ne {raw : Chars} (h : parseChars cs = .ok url) (hweb : url.isWeb = true)
    (htail : IsTrail tail) (hraw : strip raw = strip cs ++ tail) : parseChars raw ≠ .ok url := by
  obtain ⟨scheme, rest, hsplit, hfile, hspecial, hparse⟩ := parseChars_of_isWeb h hweb
  obtain ⟨authority, behind, hread, rfl⟩ := of_parseWithAuthority hparse
  have hsplit' := hraw ▸ splitScheme_append hsplit tail
  simp only [parseChars, hsplit', hfile, hspecial, Bool.false_eq_true, if_false, if_true,
    htail.dropWhile_isSlash, parseWithAuthority, bind, Except.bind]
  obtain ⟨e, he⟩ | hok := readAuthority_append hspecial htail hread
  · simp [he]
  · rw [hok]
    intro hsame
    exact withRest_append_ne hfile hspecial htail _ _ (Except.ok.inj hsame)

/-- A web URL is read from a text with blanks around it just where no blank beyond ASCII is among
those that trimming drops. -/
theorem parse_eq_ok_iff_of_trim {s : String} (h : parse (Text.trim s) = .ok url)
    (hweb : url.isWeb = true) : parse s = .ok url ↔
      ∀ c ∈ blanksBefore s ++ blanksBehind s, isPadding c = true := by
  have hbefore : ∀ c ∈ blanksBefore s, isBlank c = true := fun _ ↦ Text.isBlank_of_mem_blanksBefore
  have hbehind : ∀ c ∈ blanksBehind s, isBlank c = true := fun _ ↦ Text.isBlank_of_mem_blanksBehind
  rw [parse, Text.toList_eq_append_trim s]
  rw [parse] at h
  generalize (Text.trim s).toList = cs at h
  generalize blanksBefore s = before at hbefore
  generalize blanksBehind s = behind at hbehind
  have hne : strip cs ≠ [] := by
    intro hnil
    simp [parseChars, hnil, splitScheme] at h
  refine ⟨fun hraw ↦ ?_, fun hall ↦ ?_⟩
  · have hpadding : ∀ c ∈ before, isPadding c = true := by
      by_contra hwide
      have hnone := splitScheme_strip_eq_none hbefore (by simpa using hwide) (cs ++ behind)
      simp [parseChars, hnone] at hraw
    have hpadding' : ∀ c ∈ behind, isPadding c = true := by
      by_contra hwide
      obtain ⟨tail, htail, hstrip⟩ := strip_append_wide hne hbehind (by simpa using hwide)
      exact parseChars_append_ne h hweb htail ((strip_append_left hpadding _).trans hstrip) hraw
    exact List.forall_mem_append.mpr ⟨hpadding, hpadding'⟩
  · obtain ⟨hpadding, hpadding'⟩ := List.forall_mem_append.mp hall
    rw [← h, parseChars, strip_append_left hpadding, strip_append_right hpadding', ← parseChars]

end Harvest.Url
