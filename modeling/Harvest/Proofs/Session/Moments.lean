import Harvest.Proofs.Transport.Retry
import Harvest.Session

/-!
# What happens in a session

The trace of a run says which requests were sent and when tokens were fetched, and the peer says
what came of it: together they tell what happened, moment by moment, and which token was kept at
each of them. The moments of a call have one of six shapes, and those of a call with retries are
the moments of calls with delays between them.
-/

namespace Harvest.Session

open Http (Authorization MediaType)
open Transport (Credentials Outcome Policy forbidden mayPass)

variable {σ α β : Type}

/-- Something that happens in a session: an operation is asked for, a request is sent and something
comes of it, a token is fetched or not, a delay goes by. Where a request is sent or a token is
fetched the moment tells which token was kept right before. -/
inductive Moment where
  | asked (operation : Operation)
  | sent (kept : Option String) (request : Http.Request) (outcome : Outcome)
  | fetched (kept : Option String) (outcome : Except Token.Error String)
  | slept (delay : Duration)

/-- The moments that a trace tells of, from a world on. What comes of a request or of a fetch is up
to the peer, whose own events follow in the trace; the given number of events is still of these. -/
def moments (peer : Peer σ) : Nat → World σ → List Event → List Moment
  | _, _, [] => []
  | own + 1, world, _ :: trace => moments peer own world trace
  | 0, world, .request request :: trace =>
    let sent := (Transport.send peer request).run world
    .sent world.cache request sent.value :: moments peer (sent.trace.length - 1) sent.state trace
  | 0, world, .tokenFetch :: trace =>
    let fetched := (Token.renew peer).run world
    .fetched world.cache fetched.value ::
      moments peer (fetched.trace.length - 1) fetched.state trace
  | 0, world, .sleep delay :: trace => .slept delay :: moments peer 0 world trace
  | 0, world, _ :: trace => moments peer 0 world trace

/-- The token that a moment stores. -/
def Moment.stored? : Moment → Option String
  | asked (.store token) => some token
  | fetched _ (.ok token) => some token
  | _ => none

/-- The token that is stored last among some moments. -/
def newest (ms : List Moment) : Option String := ms.reverse.findSome? Moment.stored?

/-- A result that tells of certain moments: its trace does, also where more follows on it, and the
token that is kept at the end is the newest of these moments. -/
structure Tells (peer : Peer σ) (world : World σ) (r : Act.Result (World σ) α)
    (ms : List Moment) : Prop where
  moments_append : ∀ trace, moments peer 0 world (r.trace ++ trace) =
    ms ++ moments peer 0 r.state trace
  cache_eq : r.state.cache = (newest ms).or world.cache

variable {peer : Peer σ} {world : World σ} {ms ms' : List Moment}

/-- The newest token is the one that is stored last among the later moments, if any is. -/
theorem newest_append : newest (ms ++ ms') = (newest ms').or (newest ms) := by
  simp [newest, List.findSome?_append]

/-- The peer's own events tell of nothing more. -/
theorem moments_own (own trace : List Event) :
    moments peer own.length world (own ++ trace) = moments peer 0 world trace := by
  induction own with
  | nil => rfl
  | cons e own ih => exact ih

namespace Tells

/-- The trace alone tells of the moments. -/
theorem moments_eq {r : Act.Result (World σ) α} (h : Tells peer world r ms) :
    moments peer 0 world r.trace = ms := by
  have hall := h.moments_append []
  have hnil : moments peer 0 r.state [] = [] := by simp only [moments]
  rwa [hnil, List.append_nil, List.append_nil] at hall

/-- What leaves no trace and the world as it is tells of nothing. -/
theorem pure (a : α) : Tells peer world ((Pure.pure a : Act (World σ) α).run world) [] :=
  ⟨fun _ ↦ rfl, rfl⟩

/-- A report tells of nothing. -/
theorem report (level : Log.Level) (source : Log.Source) (text : String) :
    Tells peer world ((Act.report level source text).run world) [] :=
  ⟨fun _ ↦ by simp [moments], rfl⟩

/-- A delay is a moment. -/
theorem sleep (delay : Duration) :
    Tells peer world ((Act.emit (.sleep delay)).run world) [.slept delay] :=
  ⟨fun _ ↦ by simp [moments], rfl⟩

/-- One result after another tells of the moments of both. -/
theorem append {r : Act.Result (World σ) α} {r' : Act.Result (World σ) β}
    (h : Tells peer world r ms) (k : Tells peer r.state r' ms') :
    Tells peer world ⟨r'.value, r.trace ++ r'.trace, r'.state⟩ (ms ++ ms') := by
  constructor
  · intro trace
    rw [List.append_assoc, h.moments_append, k.moments_append, List.append_assoc]
  · rw [k.cache_eq, h.cache_eq, newest_append, Option.or_assoc]

/-- What follows and tells of nothing changes nothing of what is told. -/
theorem append_silent {r : Act.Result (World σ) α} {r' : Act.Result (World σ) β}
    (h : Tells peer world r ms) (k : Tells peer r.state r' []) :
    Tells peer world ⟨r'.value, r.trace ++ r'.trace, r'.state⟩ ms := by
  have happend := h.append k
  rwa [List.append_nil] at happend

end Tells

/-! ## Traces -/

/-- The event that a moment is read off. -/
def Moment.event? : Moment → Option Event
  | asked _ => none
  | sent _ request _ => some (.request request)
  | fetched _ _ => some .tokenFetch
  | slept delay => some (.sleep delay)

/-- Whether an event is told of. -/
def isTold : Event → Bool
  | .request _ | .tokenFetch | .sleep _ => true
  | _ => false

/-- A peer that leaves nothing in a trace itself. -/
structure Quiet (peer : Peer σ) : Prop where
  send : ∀ request state, ((peer.send request).run state).trace = []
  fetchToken : ∀ state, (peer.fetchToken.run state).trace = []

/-! ## Requests and fetches -/

private theorem run_send (peer : Peer σ) (request : Http.Request) (world : World σ) :
    (Transport.send peer request).run world =
      let sent := (peer.send request).run world.peer
      ⟨sent.value, .request request :: sent.trace, { world with peer := sent.state }⟩ := rfl

private theorem run_store (token : String) (world : World σ) :
    (Token.store token).run world = ⟨(), [], { world with cache := some token }⟩ := rfl

/-- A fetch stores the token that it is granted, and nothing where it fails. -/
theorem run_renew (peer : Peer σ) (world : World σ) :
    (Token.renew peer).run world =
      let fetched := peer.fetchToken.run world.peer
      ⟨fetched.value, .tokenFetch :: fetched.trace,
        ⟨fetched.state, fetched.value.toOption.or world.cache⟩⟩ := by
  have hpeer : (Token.onPeer peer.fetchToken).run world =
      ⟨(peer.fetchToken.run world.peer).value, (peer.fetchToken.run world.peer).trace,
        { world with peer := (peer.fetchToken.run world.peer).state }⟩ := rfl
  cases hv : (peer.fetchToken.run world.peer).value with
  | error e => simp [Token.renew, Act.run_bind, hpeer, hv, Except.toOption]
  | ok token => simp [Token.renew, Act.run_bind, run_store, hpeer, hv, Except.toOption]

/-- A request that is sent is a moment. -/
theorem tells_send (peer : Peer σ) (request : Http.Request) (world : World σ) :
    Tells peer world ((Transport.send peer request).run world)
      [.sent world.cache request ((Transport.send peer request).run world).value] := by
  refine ⟨fun trace ↦ ?_, rfl⟩
  simp only [run_send, List.cons_append, moments, List.length_cons, Nat.add_sub_cancel,
    moments_own, List.nil_append]

/-- A token that is fetched is a moment. -/
theorem tells_renew (peer : Peer σ) (world : World σ) :
    Tells peer world ((Token.renew peer).run world)
      [.fetched world.cache ((Token.renew peer).run world).value] := by
  rw [run_renew]
  constructor
  · intro trace
    simp only [List.cons_append, moments, run_renew, List.length_cons, Nat.add_sub_cancel,
      moments_own, List.nil_append]
  · cases hv : (peer.fetchToken.run world.peer).value <;>
      simp [newest, Moment.stored?, Except.toOption, hv]

/-- The moments that a trace tells of are its requests, fetches and delays where the peer adds
nothing of its own. -/
theorem filterMap_event?_moments (h : Quiet peer) (world : World σ) (trace : List Event) :
    (moments peer 0 world trace).filterMap Moment.event? = trace.filter isTold := by
  induction trace generalizing world with
  | nil => rw [moments]; rfl
  | cons e trace ih =>
    cases e with
    | request request =>
      simp only [moments, run_send, h.send, List.length_singleton, Nat.sub_self]
      simp only [List.filterMap_cons, Moment.event?, ih]
      rfl
    | tokenFetch =>
      simp only [moments, run_renew, h.fetchToken, List.length_singleton, Nat.sub_self]
      simp only [List.filterMap_cons, Moment.event?, ih]
      rfl
    | sleep delay =>
      simp only [moments, List.filterMap_cons, Moment.event?, ih]
      rfl
    | log line => simp [moments, isTold, ih]
    | form url fields => simp [moments, isTold, ih]
    | print stream text => simp [moments, isTold, ih]

end Harvest.Session
