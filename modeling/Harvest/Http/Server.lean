import Harvest.Http.Message

/-!
# Scripted servers

A server that gives the answers of a script, one to each request that reaches it, and then empty
ones. A script can also make it close the connection without an answer, or announce more of a body
than it sends.
-/

namespace Harvest.Http

/-- What a server does with one request. -/
inductive Reply where
  | answer (status : Nat) (version : Option String) (body : Text.Bytes)
  /-- The connection is closed before an answer. -/
  | drop
  /-- The connection is closed within the body of the answer. -/
  | cut (status : Nat)
deriving DecidableEq, Repr

/-- A name and a password. -/
structure Login where
  username : String
  password : String
deriving DecidableEq, Repr, Inhabited

/-- What a server is asked. -/
inductive Query where
  | get (request : Request)
  | post (url : Url) (fields : Form)
deriving DecidableEq, Repr

/-- What a server is asked, and the login at the proxy on the way to it. -/
structure Received where
  query : Query
  proxyLogin : Option Login
deriving DecidableEq, Repr

/-- A server: whether requests reach it, the replies that are left, and what it has received. -/
structure Server where
  reachable : Bool
  script : List Reply
  received : List Received
deriving Repr

namespace Server

/-- The reply behind the end of a script. -/
def lastReply : Reply := .answer 200 none []

/-- Statuses whose answers have no body. -/
def hasNoBody (status : Nat) : Bool := status == 204 || status == 304

/-- What comes back from the server for one request: `none` where it does not reach the server. -/
def exchange (s : Server) (request : Received) : Option Reply × Server :=
  if s.reachable then
    match s.script with
    | [] => (some lastReply, { s with received := s.received ++ [request] })
    | reply :: script =>
      (some reply, { s with script, received := s.received ++ [request] })
  else (none, s)

end Server

end Harvest.Http
