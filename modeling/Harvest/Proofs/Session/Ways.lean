import Harvest.Proofs.Session.Calls

/-!
# The way that a call goes

A call with a bearer token goes exactly one of four ways, and each of them fixes what is sent and
fetched and in which order, what the call comes to, and which token is kept behind it. At most two
requests are sent, and the answer to the second one is final. A call with basic credentials is one
request.
Design: `SPEC_FULL.md:103–106,184–185`.
-/

namespace Harvest.Session

open Http (MediaType)
open Transport (Outcome forbidden)

variable {σ : Type} {peer : Peer σ} {world : World σ} {url : Url} {accept : MediaType}
  {kept after : Option String} {ms : List Moment} {value : Outcome}

/-- The ways that a call with a bearer token can go. -/
inductive Way where
  /-- There is no token for the first request. -/
  | unsent
  /-- The first request is not refused. -/
  | answered
  /-- It is refused, and no other token is granted. -/
  | notRenewed
  /-- It is refused, and sent once more with another token. -/
  | resent
deriving DecidableEq, Repr

/-- What a call that goes a way tells of, what it comes to, and which token is kept when it is over;
`kept` is the one that is kept before it. -/
def Goes (url : Url) (accept : MediaType) (kept : Option String) (ms : List Moment)
    (value : Outcome) (after : Option String) : Way → Prop
  | .unsent => ∃ e, kept = none ∧ ms = [.fetched none (.error e)] ∧ value = .error (.auth e) ∧
      after = none
  | .answered => ∃ first token, Gets false kept first (.ok token) ∧
      ms = first ++ [.sent (some token) ⟨url, accept, .bearer token⟩ value] ∧
      (∀ response, value = .ok response → response.status ≠ forbidden) ∧ after = some token
  | .notRenewed => ∃ first token refusal e, Gets false kept first (.ok token) ∧
      ms = first ++ [.sent (some token) ⟨url, accept, .bearer token⟩ (.ok refusal),
        .fetched (some token) (.error e)] ∧
      refusal.status = forbidden ∧ value = .error (.auth e) ∧ after = some token
  | .resent => ∃ first token refusal fresh, Gets false kept first (.ok token) ∧
      ms = first ++ [.sent (some token) ⟨url, accept, .bearer token⟩ (.ok refusal),
        .fetched (some token) (.ok fresh),
        .sent (some fresh) ⟨url, accept, .bearer fresh⟩ value] ∧
      refusal.status = forbidden ∧ after = some fresh

/-! ## Every call goes one of the ways -/

/-- Where no token is got at first, none is kept. -/
theorem Gets.eq_of_error {e : Token.Error} (h : Gets false kept ms (.error e)) :
    kept = none ∧ ms = [.fetched none (.error e)] := by
  cases h with
  | fetched hnone =>
    obtain rfl : kept = none := by simpa using hnone
    exact ⟨rfl, rfl⟩

/-- What follows on the first token decides which one is kept: the one fetched last, if any. -/
private theorem Gets.or_newest_append {token : String} {rest : List Moment}
    (h : Gets false kept ms (.ok token)) :
    (newest (ms ++ rest)).or kept = (newest rest).or (some token) := by
  rw [newest_append, Option.or_assoc, h.newest_or]

/-- A call that takes certain moments goes one of the ways. -/
theorem CallTakes.exists_goes (h : CallTakes url accept .bearer kept ms value) :
    ∃ way, Goes url accept kept ms value ((newest ms).or kept) way := by
  cases h with
  | noToken hfirst =>
    obtain ⟨rfl, rfl⟩ := hfirst.eq_of_error
    exact ⟨.unsent, _, rfl, rfl, rfl, rfl⟩
  | answered hfirst hanswer =>
    rw [hfirst.or_newest_append]
    exact ⟨.answered, _, _, hfirst, rfl, hanswer, rfl⟩
  | notRenewed hfirst hrefusal =>
    rw [hfirst.or_newest_append]
    exact ⟨.notRenewed, _, _, _, _, hfirst, rfl, hrefusal, rfl, rfl⟩
  | resent hfirst hrefusal =>
    rw [hfirst.or_newest_append]
    exact ⟨.resent, _, _, _, _, hfirst, rfl, hrefusal, rfl⟩

/-! ## No call goes two of them -/

/-- Whether something is sent at a moment. -/
def Moment.isSent : Moment → Bool
  | sent _ _ _ => true
  | _ => false

/-- The order of sending and fetching from the first request on. -/
def Way.pattern : Way → List Bool
  | unsent => []
  | answered => [true]
  | notRenewed => [true, false]
  | resent => [true, false, true]

/-- Ways are told apart by their patterns. -/
theorem Way.pattern_inj {way other : Way} (h : way.pattern = other.pattern) : way = other := by
  revert h
  cases way <;> cases other <;> decide

/-- Nothing is sent to get the first token. -/
private theorem Gets.dropWhile_isSent {got : Except Token.Error String} {rest : List Moment}
    (h : Gets false kept ms got) : ((ms ++ rest).map Moment.isSent).dropWhile (!·) =
      (rest.map Moment.isSent).dropWhile (!·) := by
  cases h <;> rfl

/-- The moments of a call show the pattern of its way from the first request on. -/
theorem Goes.dropWhile_isSent {way : Way} (h : Goes url accept kept ms value after way) :
    (ms.map Moment.isSent).dropWhile (!·) = way.pattern := by
  cases way with
  | unsent =>
    obtain ⟨e, -, rfl, -, -⟩ := h
    rfl
  | answered =>
    obtain ⟨first, token, hgets, rfl, -, -⟩ := h
    exact hgets.dropWhile_isSent
  | notRenewed =>
    obtain ⟨first, token, refusal, e, hgets, rfl, -, -, -⟩ := h
    exact hgets.dropWhile_isSent
  | resent =>
    obtain ⟨first, token, refusal, fresh, hgets, rfl, -, -⟩ := h
    exact hgets.dropWhile_isSent

/-- The moments tell which way a call has gone. -/
theorem Goes.unique {way other : Way} (h : Goes url accept kept ms value after way)
    (k : Goes url accept kept ms value after other) : way = other :=
  Way.pattern_inj (h.dropWhile_isSent.symm.trans k.dropWhile_isSent)

/-- A call with a bearer token goes exactly one of the four ways, whatever token is kept and
whatever comes of fetches and requests. A call with basic credentials sends one request, comes to
what comes of it, and neither fetches nor stores a token. -/
theorem call_goes_one_way (peer : Peer σ) (url : Url) (accept : MediaType) (world : World σ) :
    (let r := (Transport.call peer .bearer url accept).run world
      ∃ way, Goes url accept world.cache (moments peer 0 world r.trace) r.value r.state.cache way ∧
        ∀ other, Goes url accept world.cache (moments peer 0 world r.trace) r.value r.state.cache
          other → other = way) ∧
    ∀ username password,
      let r := (Transport.call peer (.basic username password) url accept).run world
      moments peer 0 world r.trace =
          [.sent world.cache ⟨url, accept, .basic username password⟩ r.value] ∧
        r.state.cache = world.cache := by
  refine ⟨?_, fun username password ↦ ?_⟩
  · obtain ⟨ms, htells, htakes⟩ := call_takes peer .bearer url accept world
    obtain ⟨way, hgoes⟩ := htakes.exists_goes
    simp only [htells.moments_eq, htells.cache_eq]
    exact ⟨way, hgoes, fun other hother ↦ hother.unique hgoes⟩
  · obtain ⟨ms, htells, htakes⟩ := call_takes peer (.basic username password) url accept world
    simp only [htells.moments_eq, htells.cache_eq]
    cases htakes with
    | basic => exact ⟨rfl, rfl⟩

end Harvest.Session
