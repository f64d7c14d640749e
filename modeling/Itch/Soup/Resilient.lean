import Itch.Soup.Connection

/-!
# The reconnecting client and its network

A client that keeps its sequence number across connections, a server and the connection
between them.  The bytes either side writes reach the other one in order but a connection
may end after any of them, so what arrives is a part of what was written, from the front.

A server task whose connection the client has given up touches nothing that is shared, so
it is dropped with the connection.
-/

namespace Itch

open Lib

structure ResilientSoupConfig where
  username : Text
  password : Text
  /-- Session to ask for; `none` is the current one. -/
  requestedSession : Option Text
  initialSequence : UInt64
  /-- Consecutive failed attempts after which the client gives up. -/
  maxAttempts : Option Nat
deriving Repr, DecidableEq

structure ResilientSoupClient where
  /-- Failed attempts since the last login. -/
  attempt : Nat
  lastSession : Option Text
  /-- Sequence number of the next login. -/
  nextSequence : UInt64
  terminated : Bool
deriving Repr, DecidableEq

namespace ResilientSoupClient

def new (cfg : ResilientSoupConfig) : ResilientSoupClient where
  attempt := 0
  lastSession := none
  nextSequence := cfg.initialSequence
  terminated := false

def isFatal : SoupError → Bool
  | .loginRejected .notAuthorized | .loginRejected .sessionUnavailable
  | .sessionMismatch _ _ => true
  | _ => false

/-- The request of the next login. -/
def request (cfg : ResilientSoupConfig) (c : ResilientSoupClient) : LoginRequest where
  username := cfg.username
  password := cfg.password
  requestedSession := cfg.requestedSession.getD []
  requestedSequence := c.nextSequence

/-- A failed attempt, with the error if it was the last one. -/
def attemptFailed (cfg : ResilientSoupConfig) (c : ResilientSoupClient) (e : SoupError) :
    ResilientSoupClient × Option SoupError :=
  let attempt := min (c.attempt + 1) (2 ^ 32 - 1)
  let last := isFatal e || cfg.maxAttempts.any (attempt ≥ ·)
  ({ c with attempt := attempt, terminated := last }, if last then some e else none)

/-- A login that succeeded. -/
def loggedIn (c : ResilientSoupClient) (conn : SoupConnection) : ResilientSoupClient :=
  { c with
    lastSession := some conn.session
    nextSequence := conn.nextExpectedSequence
    attempt := 0 }

/-- What the client makes of the next result of its connection, and whether it keeps the
connection. -/
def onResult (c : ResilientSoupClient) (conn : SoupConnection)
    (result : Option (Except SoupError Message)) : ResilientSoupClient × Bool :=
  let c := { c with nextSequence := conn.nextExpectedSequence }
  match result with
  | some (.ok _) => (c, true)
  | some (.error (.protocol _)) => (c, true)
  | some (.error e) => if isFatal e then ({ c with terminated := true }, false) else (c, false)
  | none => (c, false)

end ResilientSoupClient

/-- A connection: the task of the server, the session of the client and the bytes on their
way. -/
structure Link (σ : Type) where
  subscriber : Subscriber σ
  login : LoginRequest
  /-- Bytes of the request that have not reached the server. -/
  request : Bytes
  serverFramed : Framed
  /-- How many of the bytes the server wrote have reached the client. -/
  delivered : Nat
  framed : Framed
  /-- The session, once the client is logged in. -/
  conn : Option SoupConnection

namespace Link

variable {σ : Type} [SeqStore σ]

/-- A connection that was just accepted, with the request written. -/
def opened (srv : Server σ) (login : LoginRequest) : Link σ where
  subscriber := .accept srv
  login := login
  request := (SoupPacket.loginRequest login).frame
  serverFramed := .new
  delivered := 0
  framed := .new
  conn := none

/-- A step of the task of the server. -/
def act (cfg : ServerConfig) (srv : Server σ) (action : SubscriberAction) (link : Link σ) :
    Option (Link σ) :=
  (link.subscriber.step cfg srv action).map fun s => { link with subscriber := s }

def upload (count : Nat) (link : Link σ) : Link σ :=
  { link with
    request := link.request.drop count
    serverFramed := link.serverFramed.receive (link.request.take count) }

def download (count : Nat) (link : Link σ) : Link σ :=
  let bytes := ((wire link.subscriber.out).drop link.delivered).take count
  { link with
    delivered := link.delivered + bytes.length
    framed := link.framed.receive bytes }

/-- The server reads its socket. -/
def serverRead (cfg : ServerConfig) (srv : Server σ) (atEnd : Bool) (link : Link σ) :
    Option (Link σ) :=
  (link.serverFramed.poll atEnd).bind fun (item, framed) =>
    { link with serverFramed := framed }.act cfg srv (.packet item)

end Link

/-- A server, a client and their connection. -/
structure Net (σ : Type) where
  server : Server σ
  client : ResilientSoupClient
  link : Option (Link σ)
  /-- What the client has returned. -/
  returned : List (Except SoupError Message)
  /-- The number of the first login the client had accepted.  Nothing reads it. -/
  firstAccepted : Option UInt64

inductive NetAction where
  | ingest (action : IngestAction)
  /-- The client opens a connection. -/
  | connect
  | connectFails
  /-- Bytes of the client reach the server. -/
  | upload (count : Nat)
  /-- The server reads, at the end of the stream or before. -/
  | serverRead (atEnd : Bool)
  /-- The server reads from a connection that was reset. -/
  | serverReset
  /-- `policy.warmup()` answers, with nothing. -/
  | warmup
  | proceed
  | lagged
  | sendFailed
  /-- Bytes of the server reach the client. -/
  | download (count : Nat)
  | clientRead (atEnd : Bool)
  | clientReset
  | loginTimeout
deriving Repr, DecidableEq

namespace Net

variable {σ : Type} [SeqStore σ]

def start (cfg : ResilientSoupConfig) (store : σ) (startSequence : UInt64) : Net σ where
  server := .start store startSequence
  client := .new cfg
  link := none
  returned := []
  firstAccepted := none

/-- The messages the client has returned. -/
def messages (net : Net σ) : List Message :=
  net.returned.filterMap Except.toOption

/-- The attempt to connect has failed. -/
def attemptFailed (cfg : ResilientSoupConfig) (net : Net σ) (e : SoupError) : Net σ :=
  let (client, last) := net.client.attemptFailed cfg e
  { net with
    client := client
    link := none
    returned := net.returned ++ (last.map Except.error).toList }

/-- The connection yields a result. -/
def onResult (net : Net σ) (link : Link σ) (conn : SoupConnection)
    (result : Option (Except SoupError Message)) : Net σ :=
  let (client, keep) := net.client.onResult conn result
  { net with
    client := client
    link := if keep then some { link with conn := some conn } else none
    returned := net.returned ++ result.toList }

/-- The client polls its connection, which yields an item of the socket. -/
def poll (cfg : ResilientSoupConfig) (net : Net σ) (link : Link σ)
    (item : Option (Except SoupError SoupPacket)) : Net σ :=
  match link.conn with
  | none =>
      match SoupConnection.onReplyItem (cfg.requestedSession.getD []) item with
      | none => { net with link := some link }
      | some (.error e) => net.attemptFailed cfg e
      | some (.ok conn) => { net with
          client := net.client.loggedIn conn
          link := some { link with conn := some conn }
          firstAccepted := net.firstAccepted.or (some conn.expectedSequence) }
  | some conn =>
      match conn.pollNext item with
      | (none, conn) => { net with link := some { link with conn := some conn } }
      | (some result, conn) => net.onResult link conn result

/-- A step on the connection, if there is one. -/
def onLink (net : Net σ) (f : Link σ → Option (Link σ)) : Option (Net σ) :=
  net.link.bind fun link => (f link).map fun link => { net with link := some link }

def step (cfg : ServerConfig) (rcfg : ResilientSoupConfig) (net : Net σ) :
    NetAction → Option (Net σ)
  | .ingest action => (net.server.step action).map fun srv => { net with server := srv }
  | .connect =>
      if net.link.isSome || net.client.terminated then none
      else some { net with link := some (.opened net.server (net.client.request rcfg)) }
  | .connectFails =>
      if net.link.isSome || net.client.terminated then none
      else some (net.attemptFailed rcfg .io)
  | .upload count => net.onLink fun link => some (link.upload count)
  | .serverRead atEnd => net.onLink (Link.serverRead cfg net.server atEnd)
  | .serverReset => net.onLink (Link.act cfg net.server (.packet (some (.error .io))))
  | .warmup => net.onLink (Link.act cfg net.server (.warmup (some [])))
  | .proceed => net.onLink (Link.act cfg net.server .proceed)
  | .lagged => net.onLink (Link.act cfg net.server .lagged)
  | .sendFailed => net.onLink (Link.act cfg net.server .sendFailed)
  | .download count => net.onLink fun link => some (link.download count)
  | .clientRead atEnd =>
      net.link.bind fun link => (link.framed.poll atEnd).map fun (item, framed) =>
        net.poll rcfg { link with framed := framed } item
  | .clientReset => net.link.map fun link => net.poll rcfg link (some (.error .io))
  | .loginTimeout =>
      net.link.bind fun link =>
        if link.conn.isNone then some (net.attemptFailed rcfg .loginTimeout) else none

end Net

end Itch
