import Harvest.Act
import Harvest.Transport.Error

/-!
# The token cache

One access token is kept until it is replaced or dropped. A fetch that fails leaves the token that
is kept in its place.
Design: `SPEC_FULL.md:58–60,120–123,142–145`.
-/

namespace Harvest

/-- A peer: what answers requests, and what hands out tokens. -/
structure Peer (σ : Type) where
  send : Http.Request → Act σ (Except Transport.Error Http.Response)
  fetchToken : Act σ (Except Token.Error String)

/-- The state of a peer together with the token that is kept. Design: `SPEC_FULL.md:142–145`. -/
structure World (σ : Type) where
  peer : σ
  cache : Option String
deriving Repr

namespace Token

variable {σ α : Type}

/-- Act on the peer of a world. -/
def onPeer (act : Act σ α) : Act (World σ) α :=
  act.on World.peer fun peer world ↦ { world with peer }

/-- Keep a token. -/
def store (token : String) : Act (World σ) Unit :=
  Act.modify fun world ↦ { world with cache := some token }

/-- Drop the token that is kept. Design: `SPEC_FULL.md:144`. -/
def invalidate : Act (World σ) Unit :=
  Act.modify fun world ↦ { world with cache := none }

/-- Fetch a token and keep it. Design: `SPEC_FULL.md:122–123`. -/
def renew (peer : Peer σ) : Act (World σ) (Except Error String) := do
  Act.emit .tokenFetch
  match ← onPeer peer.fetchToken with
  | .error e => return .error e
  | .ok token =>
    store token
    return .ok token

/-- The token that is kept; a fresh one where none is kept or `refresh` asks for it.
Design: `SPEC_FULL.md:121–123`. -/
def get (peer : Peer σ) (refresh : Bool) : Act (World σ) (Except Error String) := do
  match refresh, (← Act.get).cache with
  | false, some token => return .ok token
  | _, _ => renew peer

end Token

end Harvest
