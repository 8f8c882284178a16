import Harvest.Service.Basic

/-!
# What peers keep is kept by calls

What holds of a peer and is kept by every request that it answers, and by every token that it hands
out, is kept by calls of any kind: nothing else is done to the peer.
-/

namespace Harvest

namespace Act

variable {σ α β : Type} {P : σ → Prop}

/-- An act that keeps what holds of a state. -/
def Keeps (P : σ → Prop) (act : Act σ α) : Prop := ∀ s, P s → P (act.run s).state

private theorem keeps_pure (a : α) : Keeps P (pure a : Act σ α) := fun _ h ↦ h

private theorem keeps_emit (event : Event) : Keeps P (emit event : Act σ Unit) := fun _ h ↦ h

private theorem keeps_report (level : Log.Level) (source : Log.Source) (text : String) :
    Keeps P (report level source text : Act σ Unit) := fun _ h ↦ h

private theorem Keeps.bind {act : Act σ α} {next : α → Act σ β} (hact : Keeps P act)
    (hnext : ∀ a, Keeps P (next a)) : Keeps P (act >>= next) :=
  fun s h ↦ hnext _ _ (hact s h)

end Act

open Act (Keeps keeps_pure keeps_emit keeps_report)

variable {σ α : Type} {P : σ → Prop}

/-- What calls keep is kept when they are made again. -/
theorem Act.Keeps.attempt {call : Act σ Transport.Outcome} (h : Act.Keeps P call) (path : String)
    (policy : Transport.Policy) (left retry : Nat) :
    Act.Keeps P (Transport.attempt call path policy left retry) := by
  have hclose : ∀ e, Act.Keeps P (Transport.giveUp path e : Act σ Transport.Outcome) :=
    fun e ↦ (keeps_report _ _ _).bind fun _ ↦ keeps_pure _
  induction left generalizing retry with
  | zero =>
    refine h.bind fun outcome ↦ ?_
    split
    · exact keeps_pure _
    · split
      · exact (keeps_report _ _ _).bind fun _ ↦ keeps_pure _
      · exact hclose _
  | succ left ih =>
    refine h.bind fun outcome ↦ ?_
    split
    · exact keeps_pure _
    · split
      · exact ((keeps_report _ _ _).bind fun _ ↦ keeps_emit _).bind fun _ ↦ ih _
      · exact hclose _

/-- A peer that keeps what holds of its state. -/
structure Peer.Keeps (P : σ → Prop) (peer : Peer σ) : Prop where
  send : ∀ request, Act.Keeps P (peer.send request)
  fetchToken : Act.Keeps P peer.fetchToken

namespace Peer.Keeps

variable {peer : Peer σ}

private theorem onPeer {act : Act σ α} (h : Act.Keeps P act) :
    Act.Keeps (fun world : World σ ↦ P world.peer) (Token.onPeer act) :=
  fun world hworld ↦ h world.peer hworld

/-- A request keeps what the peer keeps. -/
theorem request (h : peer.Keeps P) (request : Http.Request) :
    Act.Keeps (fun world : World σ ↦ P world.peer) (Transport.send peer request) :=
  (keeps_emit _).bind fun _ ↦ onPeer (h.send request)

private theorem renew (h : peer.Keeps P) :
    Act.Keeps (fun world : World σ ↦ P world.peer) (Token.renew peer) := by
  refine (keeps_emit _).bind fun _ ↦ (onPeer h.fetchToken).bind fun fetched ↦ ?_
  cases fetched with
  | error e => exact keeps_pure _
  | ok token => exact Act.Keeps.bind (fun _ hworld ↦ hworld) fun _ ↦ keeps_pure _

/-- So does a token that is asked for, whether it is fetched or at hand. -/
theorem get (h : peer.Keeps P) (refresh : Bool) :
    Act.Keeps (fun world : World σ ↦ P world.peer) (Token.get peer refresh) := by
  refine Act.Keeps.bind (fun _ hworld ↦ hworld) fun world ↦ ?_
  split
  · exact keeps_pure _
  · exact h.renew

private theorem sendWithToken (h : peer.Keeps P) (url : Url) (accept : Http.MediaType)
    (refresh : Bool) :
    Act.Keeps (fun world : World σ ↦ P world.peer)
      (Transport.sendWithToken peer url accept refresh) := by
  refine (h.get refresh).bind fun got ↦ ?_
  cases got with
  | error e => exact keeps_pure _
  | ok token => exact h.request _

/-- So does a call, with the credentials that it needs. -/
theorem call (h : peer.Keeps P) (credentials : Transport.Credentials) (url : Url)
    (accept : Http.MediaType) : Act.Keeps (fun world : World σ ↦ P world.peer)
      (Transport.call peer credentials url accept) := by
  cases credentials with
  | basic username password => exact h.request _
  | bearer =>
    refine (h.sendWithToken url accept false).bind fun outcome ↦ ?_
    cases outcome with
    | error e => exact keeps_pure _
    | ok response =>
      by_cases hrefused : response.status = Transport.forbidden
      · simp only [if_pos hrefused]
        exact (keeps_report _ _ _).bind fun _ ↦ h.sendWithToken url accept true
      · simp only [if_neg hrefused]
        exact keeps_pure _

/-- So does a page that is fetched, with all attempts. -/
theorem fetchPage {service : Service σ} (h : service.peer.Keeps P) (page : Plan.Page) :
    Act.Keeps (fun world : World σ ↦ P world.peer) (service.fetchPage page) := by
  refine (keeps_emit _).bind fun _ ↦ ?_
  refine ((h.call _ _ _).attempt _ _ _ _).bind fun outcome ↦ ?_
  cases outcome with
  | error e => exact keeps_pure _
  | ok response =>
    by_cases hgranted : response.isSuccess = true
    · simp only [if_pos hgranted]
      exact keeps_pure _
    · simp only [if_neg hgranted]
      exact keeps_pure _

end Peer.Keeps

end Harvest
