import Harvest.Proofs.Transport.Retry
import Harvest.Settings.Basic
import Mathlib.Data.Nat.Find

/-!
# Attempts at a scripted server

With basic credentials every attempt of a call is one request, and so one reply of the script. A
dropped connection and a status of 500 or above are worth another attempt. An answer that is cut
off is not, though it is a failure of the exchange just as well: it ends the call.
Design: `SPEC_FULL.md:114–116`.
-/

namespace Harvest.Http

open Transport (Credentials Outcome Policy callWithRetry failure mayPass nthCall spacedCalls
  stateAfter)

/-! ## Replies -/

namespace Reply

/-- Whether a reply is a whole answer with a status below 500. -/
def isUsable : Reply → Bool
  | answer status _ _ => status < 500
  | _ => false

/-- Whether a reply is an answer that is cut off. -/
def isCut : Reply → Bool
  | cut _ => true
  | _ => false

end Reply

/-- A reply is worth another attempt unless it is usable or cut off. -/
theorem mayPass_outcome (reply : Reply) :
    mayPass (outcome (some reply)) = (!reply.isUsable && !reply.isCut) := by
  cases reply with
  | answer status version body =>
    simp only [outcome, mayPass, Reply.isUsable, Reply.isCut, Bool.not_false, Bool.and_true,
      ← decide_not, Nat.not_lt]
  | drop => rfl
  | cut status => rfl

/-- What the client makes of an answer that is cut off. -/
theorem outcome_of_isCut {reply : Reply} (h : reply.isCut = true) :
    outcome (some reply) = .error (.request decodingError false) := by
  cases reply with
  | cut status => rfl
  | answer | drop => simp [Reply.isCut] at h

/-- What it makes of a whole answer is an answer. -/
theorem outcome_of_isUsable {reply : Reply} (h : reply.isUsable = true) :
    ∃ response, outcome (some reply) = .ok response := by
  cases reply with
  | answer => exact ⟨_, rfl⟩
  | drop | cut => simp [Reply.isUsable] at h

namespace Server

/-- The reply to request `n`, counted from 0. -/
def reply (s : Server) (n : Nat) : Reply := s.script[n]?.getD lastReply

/-- A server that has received a request `n` times. -/
def after (s : Server) (request : Received) (n : Nat) : Server :=
  { s with script := s.script.drop n, received := s.received ++ List.replicate n request }

variable {s : Server} {request : Received}

private theorem reply_after (s : Server) (request : Received) (m n : Nat) :
    (s.after request m).reply n = s.reply (m + n) := by
  simp [reply, after, List.getElem?_drop]

private theorem after_zero : s.after request 0 = s := by
  simp [after]

private theorem after_after (m n : Nat) :
    (s.after request m).after request n = s.after request (m + n) := by
  simp [after, List.drop_drop]

/-- A request that reaches the server gets the next reply. -/
theorem exchange_of_reachable (h : s.reachable = true) :
    s.exchange request = (some (s.reply 0), s.after request 1) := by
  obtain ⟨reachable, script, received⟩ := s
  cases script <;> simp_all [exchange, reply, after]

end Server

/-! ## Attempts -/

section

variable {c : Settings.Connection} {exchange : Option Token.Exchange} {request : Request}
  {policy : Policy} {world : World Server}

/-- What the server receives of a request. -/
def received (c : Settings.Connection) (request : Request) : Received :=
  ⟨.get request, c.proxy.login?⟩

/-- The world when a request has been received `n` times. -/
def worldAfter (c : Settings.Connection) (request : Request) (world : World Server) (n : Nat) :
    World Server :=
  { world with peer := world.peer.after (received c request) n }

/-- A request that can be written reaches the server and gets the next reply. -/
theorem run_send_of_isWritable (hwritable : request.isWritable = true)
    (hreach : world.peer.reachable = true) :
    (Transport.send (c.peer exchange) request).run world =
      ⟨outcome (some (world.peer.reply 0)), [.request request], worldAfter c request world 1⟩ := by
  have hexchange : (Http.send c.proxy request).run world.peer =
      ⟨outcome (some (world.peer.reply 0)), [], world.peer.after (received c request) 1⟩ := by
    simp only [Http.send, Http.exchange, hwritable, if_true, Act.step, Act.run]
    rw [← received, Server.exchange_of_reachable hreach]
  have hsend : (Transport.send (c.peer exchange) request).run world =
      let sent := (Http.send c.proxy request).run world.peer
      ⟨sent.value, .request request :: sent.trace, { world with peer := sent.state }⟩ := rfl
  rw [hsend, hexchange]
  rfl

/-- A request that cannot be written does not. -/
theorem run_send_of_not_isWritable (hwritable : request.isWritable = false) :
    (Transport.send (c.peer exchange) request).run world =
      ⟨.error (.request builderError false), [.request request], world⟩ := by
  have hsend : (Transport.send (c.peer exchange) request).run world =
      let sent := (Http.send c.proxy request).run world.peer
      ⟨sent.value, .request request :: sent.trace, { world with peer := sent.state }⟩ := rfl
  rw [hsend, Http.send, Http.exchange, if_neg (by simp [hwritable])]
  rfl

/-- Attempt `n` gets reply `n`. -/
theorem nthCall_send (hwritable : request.isWritable = true)
    (hreach : world.peer.reachable = true) (n : Nat) :
    stateAfter (Transport.send (c.peer exchange) request) world n =
        worldAfter c request world n ∧
      nthCall (Transport.send (c.peer exchange) request) world n =
        ⟨outcome (some (world.peer.reply n)), [.request request],
          worldAfter c request world (n + 1)⟩ := by
  have hstate : stateAfter (Transport.send (c.peer exchange) request) world n =
      worldAfter c request world n := by
    induction n with
    | zero => rw [worldAfter, Server.after_zero]; rfl
    | succ n ih =>
      have hreach' : (worldAfter c request world n).peer.reachable = true := hreach
      rw [stateAfter, ih, run_send_of_isWritable hwritable hreach']
      simp only [worldAfter, Server.after_after]
  refine ⟨hstate, ?_⟩
  have hreach' : (worldAfter c request world n).peer.reachable = true := hreach
  rw [nthCall, hstate, run_send_of_isWritable hwritable hreach']
  simp only [worldAfter, Server.after_after, Server.reply_after, Nat.add_zero]

/-! ## Calls with retries -/

/-- What `n` attempts at a request do: the requests with the delays of a policy between them. -/
def spacedRequests (policy : Policy) (request : Request) (n : Nat) : List Event :=
  (List.range n).flatMap fun i ↦
    (if i = 0 then [] else [.sleep (policy.delay i)]) ++ [.request request]

/-- A result that `n` attempts at a request lead to. -/
structure Attempted (c : Settings.Connection) (request : Request) (policy : Policy)
    (world : World Server) (n : Nat) (r : Act.Result (World Server) Outcome) : Prop where
  effects : Event.effects r.trace = spacedRequests policy request n
  state : r.state = worldAfter c request world n

/-- Attempts are calls one after another. -/
theorem attempted_of_madeCalls {n : Nat} {r : Act.Result (World Server) Outcome}
    (hwritable : request.isWritable = true) (hreach : world.peer.reachable = true)
    (h : Transport.MadeCalls (Transport.send (c.peer exchange) request) policy world n r) :
    Attempted c request policy world n r := by
  constructor
  · rw [h.effects, spacedCalls, spacedRequests]
    congr 1
    funext i
    rw [(nthCall_send hwritable hreach i).2]
    rfl
  · rw [h.state, (nthCall_send hwritable hreach n).1]

/-- A call with basic credentials is one request. -/
theorem callWithRetry_basic (username password : String) (policy : Policy) (url : Url)
    (accept : MediaType) :
    callWithRetry (c.peer exchange) (.basic username password) policy url accept =
      Transport.withRetries (Transport.send (c.peer exchange)
        ⟨url, accept, .basic username password⟩) (String.ofList url.path.chars) policy := rfl

/-- Attempts end with the first reply that is usable or cut off. -/
theorem withRetries_of_first (c : Settings.Connection) (exchange : Option Token.Exchange)
    (path : String) {k : Nat} (hwritable : request.isWritable = true)
    (hreach : world.peer.reachable = true) (hk : k ≤ policy.retries)
    (hbefore : ∀ i < k, (world.peer.reply i).isUsable = false ∧
      (world.peer.reply i).isCut = false)
    (hfirst : (world.peer.reply k).isUsable = true ∨ (world.peer.reply k).isCut = true) :
    let r := (Transport.withRetries (Transport.send (c.peer exchange) request) path policy).run
      world
    Attempted c request policy world (k + 1) r ∧
      r.value = outcome (some (world.peer.reply k)) := by
  have hpass : ∀ i < k,
      mayPass (nthCall (Transport.send (c.peer exchange) request) world i).value = true := by
    intro i hi
    obtain ⟨husable, hcut⟩ := hbefore i hi
    rw [(nthCall_send hwritable hreach i).2, mayPass_outcome, husable, hcut]
    rfl
  have hfinal :
      mayPass (nthCall (Transport.send (c.peer exchange) request) world k).value = false := by
    rw [(nthCall_send hwritable hreach k).2, mayPass_outcome]
    obtain h | h := hfirst <;> simp [h]
  constructor
  · exact attempted_of_madeCalls hwritable hreach
      (Transport.withRetries_of_final hk hpass hfinal).1
  · rw [(Transport.withRetries_of_final hk hpass hfinal).2, (nthCall_send hwritable hreach k).2]

/-- Where there is none among those that the policy allows, all attempts are used. -/
theorem withRetries_of_none {path : String} (hwritable : request.isWritable = true)
    (hreach : world.peer.reachable = true)
    (hnone : ∀ i ≤ policy.retries, (world.peer.reply i).isUsable = false ∧
      (world.peer.reply i).isCut = false) :
    let r := (Transport.withRetries (Transport.send (c.peer exchange) request) path policy).run
      world
    Attempted c request policy world (policy.retries + 1) r ∧
      r.value = .error (.exhausted (policy.retries + 1)
        (failure (outcome (some (world.peer.reply policy.retries))))) := by
  have hpass : ∀ i ≤ policy.retries,
      mayPass (nthCall (Transport.send (c.peer exchange) request) world i).value = true := by
    intro i hi
    obtain ⟨husable, hcut⟩ := hnone i hi
    rw [(nthCall_send hwritable hreach i).2, mayPass_outcome, husable, hcut]
    rfl
  constructor
  · exact attempted_of_madeCalls hwritable hreach (Transport.withRetries_of_mayPass hpass).1
  · rw [(Transport.withRetries_of_mayPass hpass).2,
      (nthCall_send hwritable hreach policy.retries).2]

/-- A request that cannot be written is tried once, and does not reach the server. -/
theorem withRetries_of_not_isWritable {path : String} (hwritable : request.isWritable = false) :
    let r := (Transport.withRetries (Transport.send (c.peer exchange) request) path policy).run
      world
    r.value = .error (.request builderError false) ∧ r.state = world := by
  have hcall : nthCall (Transport.send (c.peer exchange) request) world 0 =
      ⟨.error (.request builderError false), [.request request], world⟩ :=
    run_send_of_not_isWritable hwritable
  obtain ⟨hmade, hvalue⟩ :
      Transport.MadeCalls (Transport.send (c.peer exchange) request) policy world (0 + 1)
        ((Transport.withRetries (Transport.send (c.peer exchange) request) path policy).run
          world) ∧ _ :=
    Transport.withRetries_of_final (Nat.zero_le _) (fun _ hi ↦ absurd hi (Nat.not_lt_zero _))
      (by rw [hcall]; rfl)
  refine ⟨by rw [hvalue, hcall], ?_⟩
  have hstate : stateAfter (Transport.send (c.peer exchange) request) world (0 + 1) =
      (nthCall (Transport.send (c.peer exchange) request) world 0).state := rfl
  rw [hmade.state, hstate, hcall]

/-- A call with basic credentials comes to the first usable reply, where the policy allows for as
many attempts, if no reply before it is cut off, and only then: dropped connections and statuses of
500 and above are retried, but an answer that is cut off ends the call. Where no reply is usable or
cut off, all attempts are used. -/
theorem callWithRetry_first_usable_iff (c : Settings.Connection)
    (exchange : Option Token.Exchange) (username password : String) (policy : Policy) (url : Url)
    (accept : MediaType) (world : World Server) (hreach : world.peer.reachable = true) :
    let request : Request := ⟨url, accept, .basic username password⟩
    let reply := world.peer.reply
    let r := (callWithRetry (c.peer exchange) (.basic username password) policy url accept).run
      world
    (request.isWritable = true →
      (∀ k ≤ policy.retries, (reply k).isUsable = true →
        (∀ i < k, (reply i).isUsable = false) →
          (r.value = outcome (some (reply k)) ↔ ∀ i < k, (reply i).isCut = false) ∧
          ((∀ i < k, (reply i).isCut = false) → Attempted c request policy world (k + 1) r)) ∧
      (∀ k ≤ policy.retries, (reply k).isCut = true →
        (∀ i < k, (reply i).isUsable = false ∧ (reply i).isCut = false) →
          Attempted c request policy world (k + 1) r ∧
            r.value = .error (.request decodingError false)) ∧
      ((∀ i ≤ policy.retries, (reply i).isUsable = false ∧ (reply i).isCut = false) →
        Attempted c request policy world (policy.retries + 1) r ∧
          r.value = .error (.exhausted (policy.retries + 1)
            (failure (outcome (some (reply policy.retries))))))) ∧
    (request.isWritable = false →
      r.value = .error (.request builderError false) ∧ r.state = world) := by
  rw [callWithRetry_basic]
  refine ⟨fun hwritable ↦ ⟨?_, ?_, ?_⟩, fun hwritable ↦ withRetries_of_not_isWritable hwritable⟩
  · intro k hk husable hbefore
    have hfirst := fun hcut : ∀ i < k, (world.peer.reply i).isCut = false ↦
      withRetries_of_first c exchange (String.ofList url.path.chars) hwritable hreach hk
        (fun i hi ↦ ⟨hbefore i hi, hcut i hi⟩) (.inl husable)
    refine ⟨⟨fun hvalue ↦ ?_, fun hcut ↦ (hfirst hcut).2⟩, fun hcut ↦ (hfirst hcut).1⟩
    -- The first reply that is cut off would have ended the call with an error.
    by_contra hcut
    have hex : ∃ i, i < k ∧ (world.peer.reply i).isCut = true := by simpa using hcut
    obtain ⟨hi, hcut⟩ := Nat.find_spec hex
    have hvalue' := (withRetries_of_first c exchange (String.ofList url.path.chars) hwritable
      hreach (Nat.le_trans hi.le hk) (fun j hj ↦ ⟨hbefore j (hj.trans hi), by
        simpa [hj.trans hi] using Nat.find_min hex hj⟩) (.inr hcut)).2
    obtain ⟨response, hresponse⟩ := outcome_of_isUsable husable
    rw [hvalue, hresponse, outcome_of_isCut hcut] at hvalue'
    simp at hvalue'
  · intro k hk hcut hbefore
    obtain ⟨hattempted, hvalue⟩ := withRetries_of_first c exchange (String.ofList url.path.chars)
      hwritable hreach hk hbefore (.inr hcut)
    exact ⟨hattempted, hvalue.trans (outcome_of_isCut hcut)⟩
  · intro hnone
    exact withRetries_of_none hwritable hreach hnone

end

/-- A world in which a server replies as scripted. -/
def scripted (script : List Reply) : World Server := ⟨⟨true, script, []⟩, none⟩

/-- Behind a dropped connection and a failing server a usable reply is come to, behind an answer
that is cut off it is not. -/
theorem callWithRetry_first_usable_iff_cut :
    let u : Url := ⟨"http".toList, none, .segments ["a".toList], none, none⟩
    let call (script : List Reply) :=
      (callWithRetry (Settings.Connection.unset.peer none) (.basic "me" "pw") .standard u
        plainText).run (scripted script)
    (call [.drop, .answer 503 none [], .answer 200 none [52, 50]]).value =
        .ok ⟨200, "OK", none, [52, 50]⟩ ∧
      (call [.drop, .cut 200, .answer 200 none [52, 50]]).value =
        .error (.request decodingError false) ∧
      (call [.drop, .cut 200, .answer 200 none [52, 50]]).state.peer.script =
        [.answer 200 none [52, 50]] := by
  intro u call
  have h (script : List Reply) := (callWithRetry_first_usable_iff .unset none "me" "pw" .standard u
    plainText (scripted script) rfl).1 (by decide)
  refine ⟨?_, ?_, ?_⟩
  · exact ((h _).1 2 (by decide) (by decide) (by decide)).1.mpr (by decide)
  · exact ((h _).2.1 1 (by decide) (by decide) (by decide)).2
  · have hstate := ((h [.drop, .cut 200, .answer 200 none [52, 50]]).2.1 1 (by decide) (by decide)
      (by decide)).1.state
    rw [hstate]
    rfl

end Harvest.Http
