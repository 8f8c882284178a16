import Harvest.Proofs.Text.Blank
import Harvest.Proofs.Text.Utf8
import Harvest.Url.Parse

/-!
# Blanks behind a host

The blanks behind a text are dropped when it is read as a URL, up to the last one that is beyond
ASCII. Behind a host or a port such a blank is an error. Behind anything else it changes nothing of
the authority.
-/

namespace Harvest.Url

open Text (wideBlanks)

variable {scheme cs tail : Chars} {b c : Char}

/-- What is left of the blanks behind a URL where not all of them are dropped. -/
structure IsTrail (cs : Chars) : Prop where
  outer : ∀ c ∈ cs, isPadding c = true ∨ c ∈ wideBlanks
  last : ∃ before, ∃ b ∈ wideBlanks, cs = before ++ [b]

/-! ## Characters of a trail -/

/-- Padding is no visible character. -/
theorem ne_of_isPadding (h : isPadding c = true) {d : Char} (hd : 0x20 < d.toNat) : c ≠ d := by
  rintro rfl
  simp only [isPadding, decide_eq_true_eq] at h
  omega

private theorem not_isDigit_of_isPadding (h : isPadding c = true) : c.isDigit = false := by
  cases hdigit : c.isDigit with
  | false => rfl
  | true =>
    have hlow : 0x30 ≤ c.toNat := (Char.isDigit_iff_toNat.mp hdigit).1
    simp only [isPadding, decide_eq_true_eq] at h
    omega

namespace IsTrail

/-- A trail is not empty. -/
theorem ne_nil (h : IsTrail cs) : cs ≠ [] := by
  obtain ⟨before, b, -, rfl⟩ := h.last
  simp

/-- No character of a trail separates anything. -/
theorem not_endsAuthority (h : IsTrail cs) : ∀ c ∈ cs, endsAuthority true c = false := by
  intro c hc
  obtain hpadding | hwide := h.outer c hc
  · have hne (d : Char) (hd : 0x20 < d.toNat) : (c == d) = false :=
      beq_false_of_ne (ne_of_isPadding hpadding hd)
    simp [endsAuthority, isSlash, endsPath, hne]
  · exact Text.of_mem_wideBlanks (P := fun c ↦ endsAuthority true c = false) hwide (by decide)

/-- There is no slash in a trail. -/
theorem not_isSlash (h : IsTrail cs) (hc : c ∈ cs) : isSlash true c = false :=
  (Bool.or_eq_false_iff.mp (h.not_endsAuthority c hc)).1

/-- Nothing in a trail ends a path. -/
theorem not_endsPath (h : IsTrail cs) (hc : c ∈ cs) : endsPath c = false :=
  (Bool.or_eq_false_iff.mp (h.not_endsAuthority c hc)).2

private theorem not_mem (h : IsTrail cs) : ':' ∉ cs ∧ '@' ∉ cs := by
  refine ⟨fun hc ↦ ?_, fun hc ↦ ?_⟩
  all_goals exact absurd (h.outer _ hc) (by decide)

private theorem not_isDigit (h : IsTrail cs) : ∀ c ∈ cs, c.isDigit = false := by
  intro c hc
  obtain hpadding | hwide := h.outer c hc
  · exact not_isDigit_of_isPadding hpadding
  · exact Text.of_mem_wideBlanks (P := fun c ↦ c.isDigit = false) hwide (by decide)

end IsTrail

/-! ## Names -/

/-- A character that is no hexadecimal digit belongs to no escape before it. -/
theorem unescape_append_singleton (h : hexValue? c = none) (cs : Chars) :
    unescape (cs ++ [c]) = unescape cs ++ String.utf8EncodeChar c := by
  induction cs using unescape.induct with
  | case1 => rfl
  | case2 d => rfl
  | case3 d d' =>
    by_cases hd : d = '%'
    · simp [unescape, hd, h]
    · simp [unescape, hd]
  | case4 d d' rest high low hhigh hlow ih => simp [unescape, hhigh, hlow, ih]
  | case5 d d' rest hvalues ih =>
    simp only [List.cons_append, unescape, if_pos] at ih ⊢
    rw [ih, List.append_assoc]
  | case6 d d' d'' rest hd ih => simpa [unescape, hd] using ih

private theorem toAscii_eq_none (hmem : b ∈ cs) (hwide : b ∈ wideBlanks) :
    Domain.toAscii cs = none := by
  obtain ⟨hself, hrefused⟩ := Text.of_mem_wideBlanks
    (P := fun b ↦ Domain.fold b = [b] ∧ Domain.isAllowed b = false) hwide (by decide)
  have hfolded : b ∈ cs.flatMap Domain.fold := List.mem_flatMap.mpr ⟨b, hmem, by simp [hself]⟩
  have hall : (cs.flatMap Domain.fold).all Domain.isAllowed = false :=
    List.all_eq_false.mpr ⟨b, hfolded, by simp [hrefused]⟩
  simp [Domain.toAscii, hall]

/-- No host ends in a blank beyond ASCII. -/
theorem specialHost_append_singleton (hwide : b ∈ wideBlanks) (cs : Chars) :
    ∃ e, specialHost (cs ++ [b]) = .error e := by
  have hdigit := Text.of_mem_wideBlanks (P := fun b ↦ hexValue? b = none) hwide (by decide)
  have hname : (Text.decode (unescape (cs ++ [b])) >>= Domain.toAscii) = none := by
    rw [unescape_append_singleton hdigit]
    cases hdecode : Text.decode (unescape cs ++ String.utf8EncodeChar b) with
    | none => rfl
    | some name => exact toAscii_eq_none (Text.mem_of_decode_append hdecode) hwide
  by_cases hopen : ∃ rest, cs ++ [b] = '[' :: rest
  · obtain ⟨rest, h⟩ := hopen
    have hlast : ('[' :: rest).getLast? = some b := by simp [← h]
    have hclosed : rest.getLast? ≠ some ']' := by
      intro hclosed
      rw [List.getLast?_cons, hclosed] at hlast
      obtain rfl : ']' = b := Option.some.inj hlast
      exact absurd hwide (by decide)
    rw [h]
    exact ⟨_, if_neg hclosed⟩
  · rw [specialHost, hname]
    · exact ⟨_, rfl⟩
    · exact fun rest h ↦ hopen ⟨rest, h⟩

/-! ## Host and port -/

private theorem splitHost_eq_self (hends : ∀ c ∈ cs, endsAuthority true c = false)
    (hcolon : ':' ∉ cs) (bracketed : Bool) : splitHost true bracketed cs = (cs, []) := by
  induction cs generalizing bracketed with
  | nil => rfl
  | cons c cs ih =>
    obtain ⟨hne, hcolon⟩ := List.ne_and_not_mem_of_not_mem_cons hcolon
    obtain ⟨hc, hends⟩ := List.forall_mem_cons.mp hends
    have hstop : ¬ ((c = ':' ∧ (!bracketed) = true) ∨ endsAuthority true c = true) := by
      simp [hne.symm, hc]
    simp only [splitHost, if_neg hstop, ih hends hcolon]

/-- What is behind a text belongs to the host that the text ends in, and else to what follows the
host. -/
theorem splitHost_append (hends : ∀ c ∈ tail, endsAuthority true c = false) (hcolon : ':' ∉ tail)
    (bracketed : Bool) (cs : Chars) :
    splitHost true bracketed (cs ++ tail) = (cs ++ tail, []) ∨
      splitHost true bracketed (cs ++ tail) =
        ((splitHost true bracketed cs).1, (splitHost true bracketed cs).2 ++ tail) := by
  induction cs generalizing bracketed with
  | nil => exact .inl (splitHost_eq_self hends hcolon bracketed)
  | cons c cs ih =>
    by_cases hstop : (c = ':' ∧ (!bracketed) = true) ∨ endsAuthority true c = true
    · simp only [List.cons_append, splitHost, if_pos hstop, or_true]
    · simp only [List.cons_append, splitHost, if_neg hstop]
      obtain hwhole | hpart := ih (if c = '[' then true else if c = ']' then false else bracketed)
      · rw [hwhole]
        exact .inl rfl
      · rw [hpart]
        exact .inr rfl

private theorem readPort_append (htail : IsTrail tail) {port : Nat} {digits : Bool}
    {found : Option Nat} {rest : Chars} (h : readPort port digits cs = .ok (found, rest)) :
    (∃ e, readPort port digits (cs ++ tail) = .error e) ∨
      readPort port digits (cs ++ tail) = .ok (found, rest ++ tail) := by
  induction cs generalizing port digits with
  | nil =>
    obtain ⟨c, others, rfl⟩ := List.exists_cons_of_ne_nil htail.ne_nil
    have hdigit := htail.not_isDigit c List.mem_cons_self
    have hends := htail.not_endsAuthority c List.mem_cons_self
    exact .inl ⟨.invalidPort, by simp [readPort, hdigit, hends]⟩
  | cons c cs ih =>
    rw [List.cons_append, readPort]
    rw [readPort] at h
    by_cases hdigit : c.isDigit = true
    · simp only [if_pos hdigit] at h ⊢
      by_cases hsize : port * 10 + (c.toNat - '0'.toNat) > 65535
      · rw [if_pos hsize] at h
        nomatch h
      · rw [if_neg hsize] at h ⊢
        exact ih h
    · rw [if_neg hdigit] at h ⊢
      by_cases hends : endsAuthority true c = true
      · rw [if_pos hends] at h ⊢
        obtain ⟨rfl, rfl⟩ := Prod.mk.inj (Except.ok.inj h)
        exact .inr rfl
      · rw [if_neg hends] at h
        nomatch h

private theorem portAfterHost_of_ne (h : cs.head? ≠ some ':') :
    portAfterHost scheme cs = .ok (none, cs) := by
  rw [portAfterHost]
  rintro text rfl
  exact h rfl

/-- A trail does not start with a colon. -/
theorem IsTrail.head?_append (h : IsTrail tail) (cs : Chars) :
    (cs ++ tail).head? = some ':' ↔ cs.head? = some ':' := by
  cases cs with
  | cons c cs => rfl
  | nil =>
    refine ⟨fun hcolon ↦ absurd (List.mem_of_head? hcolon) h.not_mem.1, fun hcolon ↦ ?_⟩
    simp at hcolon

private theorem portAfterHost_append (htail : IsTrail tail) {port : Option Nat} {rest : Chars}
    (h : portAfterHost scheme cs = .ok (port, rest)) :
    (∃ e, portAfterHost scheme (cs ++ tail) = .error e) ∨
      portAfterHost scheme (cs ++ tail) = .ok (port, rest ++ tail) := by
  by_cases hcolon : cs.head? = some ':'
  · obtain ⟨text, rfl⟩ := List.head?_eq_some_iff.mp hcolon
    simp only [List.cons_append, portAfterHost, bind, Except.bind, pure, Except.pure] at h ⊢
    cases hread : readPort 0 false text with
    | error e => simp [hread] at h
    | ok found =>
      rw [hread] at h
      obtain ⟨rfl, rfl⟩ := Prod.mk.inj (Except.ok.inj h)
      obtain ⟨e, he⟩ | hok := readPort_append htail hread
      · exact .inl ⟨e, by rw [he]⟩
      · exact .inr (by rw [hok])
  · rw [portAfterHost_of_ne hcolon] at h
    obtain ⟨rfl, rfl⟩ := Prod.mk.inj (Except.ok.inj h)
    exact .inr (portAfterHost_of_ne (mt (htail.head?_append cs).mp hcolon))

/-- Behind host and port a trail is left over, or it is an error. -/
theorem hostAndPort_append (hspecial : isSpecial scheme = true) (htail : IsTrail tail)
    {host : Host} {port : Option Nat} {rest : Chars}
    (h : hostAndPort scheme cs = .ok (host, port, rest)) :
    (∃ e, hostAndPort scheme (cs ++ tail) = .error e) ∨
      hostAndPort scheme (cs ++ tail) = .ok (host, port, rest ++ tail) := by
  simp only [hostAndPort, hspecial, if_true, bind, Except.bind] at h ⊢
  obtain hwhole | hpart := splitHost_append htail.not_endsAuthority htail.not_mem.1 false cs
  · obtain ⟨before, b, hwide, rfl⟩ := htail.last
    obtain ⟨e, he⟩ := specialHost_append_singleton hwide (cs ++ before)
    rw [List.append_assoc] at he
    exact .inl ⟨e, by simp [hwhole, he]⟩
  · rw [hpart]
    generalize splitHost true false cs = parts at h ⊢
    obtain ⟨text, behind⟩ := parts
    by_cases htext : text = []
    · rw [if_pos htext] at h
      nomatch h
    rw [if_neg htext] at h ⊢
    cases hhost : specialHost text with
    | error e => exact .inl ⟨e, rfl⟩
    | ok found =>
      simp only [hhost, htail.head?_append] at h ⊢
      by_cases hempty : found = .name [] ∧ behind.head? = some ':'
      · rw [if_pos hempty] at h
        nomatch h
      rw [if_neg hempty] at h ⊢
      cases hport : portAfterHost scheme behind with
      | error e => simp [hport] at h
      | ok read =>
        rw [hport] at h
        obtain ⟨rfl, hread⟩ := Prod.mk.inj (Except.ok.inj h)
        obtain ⟨rfl, rfl⟩ := Prod.mk.inj hread
        obtain ⟨e, he⟩ | hok := portAfterHost_append htail hport
        · exact .inl ⟨e, by rw [he]⟩
        · exact .inr (by rw [hok]; rfl)

/-! ## Authorities -/

/-- What is taken from the start of a text may go on into what is behind the text. -/
private theorem exists_takeWhile_append (p : Char → Bool) (cs tail : Chars) :
    ∃ more, more.Sublist tail ∧ (cs ++ tail).takeWhile p = cs.takeWhile p ++ more := by
  rw [List.takeWhile_append]
  split
  · next hwhole =>
    refine ⟨tail.takeWhile p, List.takeWhile_sublist p, ?_⟩
    rw [(List.takeWhile_prefix p).eq_of_length hwhole]
  · exact ⟨[], List.nil_sublist tail, (List.append_nil _).symm⟩

/-- What is behind a text stands behind its user information. -/
theorem splitUserinfo_append (hat : '@' ∉ tail) (cs : Chars) : splitUserinfo true (cs ++ tail) =
    (splitUserinfo true cs).map fun parts ↦ (parts.1, parts.2 ++ tail) := by
  obtain ⟨more, hsub, htext⟩ := exists_takeWhile_append (!endsAuthority true ·) cs tail
  have hmore : '@' ∉ more := fun hmem ↦ hat (hsub.mem hmem)
  have hle := (List.takeWhile_prefix (l := cs) (!endsAuthority true ·)).length_le
  simp only [splitUserinfo, htext]
  generalize cs.takeWhile (!endsAuthority true ·) = text at hle
  by_cases hmem : '@' ∈ text
  · have hhost : ((text ++ more).reverse.takeWhile (· != '@')).reverse =
        (text.reverse.takeWhile (· != '@')).reverse ++ more := by
      rw [List.reverse_append, List.takeWhile_append_of_pos, List.reverse_append,
        List.reverse_reverse]
      rintro c hc
      rw [bne_iff_ne]
      rintro rfl
      exact hmore (List.mem_reverse.mp hc)
    have hsize : (text ++ more).length -
        ((text.reverse.takeWhile (· != '@')).reverse ++ more).length =
          text.length - (text.reverse.takeWhile (· != '@')).reverse.length := by
      rw [List.length_append, List.length_append, Nat.add_sub_add_right]
    have hbound := Nat.sub_le text.length (text.reverse.takeWhile (· != '@')).reverse.length
    have hmem' : '@' ∈ text ++ more := List.mem_append_left _ hmem
    rw [hhost, hsize]
    generalize text.length - (text.reverse.takeWhile (· != '@')).reverse.length = size at hbound
    rw [List.drop_append_of_le_length (Nat.le_trans hbound hle),
      List.take_append_of_le_length (Nat.le_trans (Nat.sub_le _ _) hbound)]
    simp only [List.contains_eq_mem, hmem, hmem', decide_true, if_true, Option.map_some]
  · have hnone : '@' ∉ text ++ more := by simp [hmem, hmore]
    simp [hmem, hnone]

/-- A trail is no authority's end. -/
theorem IsTrail.any_head?_append (h : IsTrail tail) (cs : Chars) :
    (cs ++ tail).head?.any (endsAuthority true) = cs.head?.any (endsAuthority true) := by
  cases cs with
  | cons c cs => rfl
  | nil =>
    obtain ⟨c, others, rfl⟩ := List.exists_cons_of_ne_nil h.ne_nil
    exact h.not_endsAuthority c List.mem_cons_self

/-- Behind an authority a trail is left over, or it is an error. -/
theorem readAuthority_append (hspecial : isSpecial scheme = true) (htail : IsTrail tail)
    {authority : Authority} {rest : Chars} (h : readAuthority scheme cs = .ok (authority, rest)) :
    (∃ e, readAuthority scheme (cs ++ tail) = .error e) ∨
      readAuthority scheme (cs ++ tail) = .ok (authority, rest ++ tail) := by
  simp only [readAuthority, hspecial, bind, Except.bind, pure, Except.pure,
    splitUserinfo_append htail.not_mem.2] at h ⊢
  cases hsplit : splitUserinfo true cs with
  | none =>
    simp only [hsplit, Option.map_none] at h ⊢
    cases hread : hostAndPort scheme cs with
    | error e => simp [hread] at h
    | ok read =>
      rw [hread] at h
      obtain ⟨rfl, rfl⟩ := Prod.mk.inj (Except.ok.inj h)
      obtain ⟨e, he⟩ | hok := hostAndPort_append hspecial htail hread
      · exact .inl ⟨e, by rw [he]⟩
      · exact .inr (by rw [hok])
  | some parts =>
    obtain ⟨info, behind⟩ := parts
    simp only [hsplit, Option.map_some, htail.any_head?_append] at h ⊢
    by_cases hnone : info = [] ∧ behind.head?.any (endsAuthority true) = true
    · rw [if_pos hnone] at h
      nomatch h
    rw [if_neg hnone] at h ⊢
    cases hread : hostAndPort scheme behind with
    | error e => simp [hread] at h
    | ok read =>
      obtain ⟨e, he⟩ | hok := hostAndPort_append hspecial htail hread
      · exact .inl ⟨e, by rw [he]⟩
      · simp only [hread] at h
        simp only [hok]
        by_cases hempty : read.1 = .name [] ∧
            Authority.userinfo ⟨(userinfo info).1, (userinfo info).2, read.1, read.2.1⟩ ≠ []
        · rw [if_pos hempty] at h
          nomatch h
        · rw [if_neg hempty] at h ⊢
          obtain ⟨rfl, rfl⟩ := Prod.mk.inj (Except.ok.inj h)
          exact .inr rfl

end Harvest.Url
