import Itch.Compressed.Connection
import Itch.Soup.Reconnect

/-!
# The reconnecting compressed client

The client of compressed sessions has a reconnect loop of its own, with the connection and the
errors of the compressed stream.  A payload that does not decompress and a message that does not
decode leave the connection open; every other error drops it.

The loop is that of the plain client: forgetting what the compressed connection has in its buffer
takes each of its runs to a run of the plain loop.
-/

namespace Itch

open Lib

variable {A : Type}

namespace CompressedSoupConnection

def nextExpectedSequence (c : CompressedSoupConnection) : UInt64 :=
  c.expectedSequence

/-- What a packet is to the handshake; `none` to wait for the next one. -/
def onReply (requestedSession : Text) :
    SoupPacket → Option (Except CompressedError CompressedSoupConnection)
  | .loginAccepted acc =>
      if !requestedSession.isEmpty && Text.trim acc.session != Text.trim requestedSession then
        some (.error (.soup (.sessionMismatch requestedSession acc.session)))
      else some (.ok (new acc.session acc.sequence))
  | .loginRejected reason => some (.error (.soup (.loginRejected reason)))
  | .debug _ => none
  | p => some (.error (.soup (.unexpectedHandshakePacket p.tag)))

/-- The handshake after the request was sent, over what the socket answers, with the answers it
leaves.  When the socket has nothing more to answer the time runs out. -/
def handshake (requestedSession : Text) :
    List SocketPoll → Except CompressedError CompressedSoupConnection × List SocketPoll
  | [] => (.error (.soup .loginTimeout), [])
  | .pending :: polls => handshake requestedSession polls
  | .ready none :: polls => (.error (.soup .prematureClose), polls)
  | .ready (some (.error e)) :: polls => (.error (.soup e), polls)
  | .ready (some (.ok p)) :: polls =>
      match onReply requestedSession p with
      | none => handshake requestedSession polls
      | some result => (result, polls)

end CompressedSoupConnection

structure ResilientCompressedSoupClient where
  /-- Round-robin cursor into the addresses. -/
  nextAddr : Nat
  /-- Failed attempts since the last login. -/
  attempt : Nat
  lastSession : Option Text
  /-- Sequence number of the next login. -/
  nextSequence : UInt64
  conn : Option CompressedSoupConnection
  terminated : Bool
deriving Repr, DecidableEq

namespace ResilientCompressedSoupClient

def new (cfg : ResilientSoupConfig) : ResilientCompressedSoupClient where
  nextAddr := 0
  attempt := 0
  lastSession := none
  nextSequence := cfg.initialSequence
  conn := none
  terminated := false

def isFatal : SoupError → Bool
  | .loginRejected _ | .sessionMismatch _ _ => true
  | _ => false

/-- An error that is that of a session and fatal. -/
def isFatalError : CompressedError → Bool
  | .soup e => isFatal e
  | _ => false

/-- What the client makes of the next result of its connection. -/
def onResult (c : ResilientCompressedSoupClient) (conn : CompressedSoupConnection)
    (result : Option (Except CompressedError Message)) : ResilientCompressedSoupClient :=
  let c := { c with nextSequence := conn.nextExpectedSequence, conn := some conn }
  match result with
  | some (.ok _) => c
  | some (.error (.protocol _)) | some (.error (.compression _)) => c
  | some (.error (.soup e)) =>
      if isFatal e then { c with terminated := true, conn := none } else { c with conn := none }
  | none => { c with conn := none }

/-- An error of the session drops the connection. -/
theorem onResult_soup (c : ResilientCompressedSoupClient) (conn : CompressedSoupConnection)
    (e : SoupError) :
    ∃ terminated, c.onResult conn (some (.error (.soup e))) = { c with
      nextSequence := conn.expectedSequence
      conn := none
      terminated := terminated } := by
  rw [onResult]
  split
  next => exact ⟨true, rfl⟩
  next => exact ⟨c.terminated, rfl⟩

end ResilientCompressedSoupClient

inductive CompressedEvent (A : Type) where
  /-- An attempt, with the number it asks for, the connection or the error it ends with, and what
  the socket answers from then on. -/
  | attempt (addr : A) (sequence : UInt64)
      (result : Except CompressedError CompressedSoupConnection) (polls : List SocketPoll)
  /-- A read, with the number the connection expects after it. -/
  | read (result : Option (Except CompressedError Message)) (expected : UInt64)
  | returned (result : Option (Except CompressedError Message))
deriving DecidableEq

/-- How the connection and the request of an attempt go. -/
inductive CompressedDial where
  /-- The socket does not connect, or the request is not sent. -/
  | fails (error : SoupError)
  /-- The request is sent to a socket that gives these answers. -/
  | sent (polls : List SocketPoll)

inductive CompressedAction where
  /-- `next_message` is called. -/
  | call
  | attempt (dial : CompressedDial)
  /-- The connection is polled. -/
  | poll

/-- A client and the calls of its `next_message`. -/
structure CompressedReconnect (A : Type) where
  client : ResilientCompressedSoupClient
  /-- What the socket of the connection still answers. -/
  polls : List SocketPoll
  /-- A call has not returned yet. -/
  calling : Bool
  log : List (CompressedEvent A)

namespace CompressedReconnect

def start (cfg : ResilientSoupConfig) : CompressedReconnect A where
  client := .new cfg
  polls := []
  calling := false
  log := []

/-- The call returns. -/
def return_ (s : CompressedReconnect A) (result : Option (Except CompressedError Message)) :
    CompressedReconnect A :=
  { s with calling := false, log := s.log ++ [.returned result] }

def dialed (cfg : ResilientSoupConfig) :
    CompressedDial → Except CompressedError CompressedSoupConnection × List SocketPoll
  | .fails e => (.error (.soup e), [])
  | .sent polls => CompressedSoupConnection.handshake (cfg.requestedSession.getD []) polls

/-- Attempt one connection and login. -/
def tryConnectOnce (cfg : ResilientSoupConfig) (addrs : List A) (s : CompressedReconnect A)
    (dial : CompressedDial) :
    Option (Except CompressedError CompressedSoupConnection × CompressedReconnect A) :=
  addrs[s.client.nextAddr]?.map fun addr =>
    let (result, polls) := dialed cfg dial
    let client := { s.client with nextAddr := (s.client.nextAddr + 1) % addrs.length }
    let log := s.log ++ [.attempt addr s.client.nextSequence result polls]
    match result with
    | .error e => (.error e, { s with client, log })
    | .ok conn =>
        (.ok conn, { s with
          client := { client with
            lastSession := some conn.session
            nextSequence := conn.nextExpectedSequence
            attempt := 0 }
          polls
          log })

/-- The attempt has failed.  The last one ends the call with its error. -/
def attemptFailed (cfg : ResilientSoupConfig) (s : CompressedReconnect A) (e : CompressedError) :
    CompressedReconnect A :=
  let attempt := min (s.client.attempt + 1) (2 ^ 32 - 1)
  if ResilientCompressedSoupClient.isFatalError e || cfg.maxAttempts.any (attempt ≥ ·) then
    { s with client := { s.client with attempt, terminated := true } }.return_ (some (.error e))
  else { s with client := { s.client with attempt } }

/-- A turn of the retry loop, which ends with a connection. -/
def tryConnect (cfg : ResilientSoupConfig) (addrs : List A) (s : CompressedReconnect A)
    (dial : CompressedDial) : Option (CompressedReconnect A) :=
  (s.tryConnectOnce cfg addrs dial).map fun
    | (.ok conn, s) => { s with client := { s.client with conn := some conn } }
    | (.error e, s) => s.attemptFailed cfg e

/-- What a read of the connection leads to.  At the end of the stream the call goes on. -/
def onRead (s : CompressedReconnect A) (result : Option (Except CompressedError Message))
    (conn : CompressedSoupConnection) (polls : List SocketPoll) : CompressedReconnect A :=
  let s := { s with
    client := s.client.onResult conn result
    polls := polls
    log := s.log ++ [.read result conn.nextExpectedSequence] }
  match result with
  | some r => s.return_ (some r)
  | none => s

def step (z : Zstd) (cfg : ResilientSoupConfig) (addrs : List A) (s : CompressedReconnect A) :
    CompressedAction → Option (CompressedReconnect A)
  | .call =>
      if s.calling then none
      else if s.client.terminated then some (s.return_ none)
      else some { s with calling := true }
  | .attempt dial =>
      if s.calling && s.client.conn.isNone then s.tryConnect cfg addrs dial else none
  | .poll =>
      if s.calling then
        s.client.conn.map fun conn =>
          match CompressedSoupConnection.pollNext z (conn, s.polls) with
          | (none, conn, polls) =>
              { s with client := { s.client with conn := some conn }, polls }
          | (some result, conn, polls) => s.onRead result conn polls
      else none

/-! ## Steps -/

variable {z : Zstd} {cfg : ResilientSoupConfig} {addrs : List A} {s s' : CompressedReconnect A}

/-- What a step does. -/
inductive Moves (z : Zstd) (cfg : ResilientSoupConfig) (addrs : List A)
    (s : CompressedReconnect A) : CompressedReconnect A → Prop where
  | answered : s.calling = false → s.client.terminated = true →
      Moves z cfg addrs s (s.return_ none)
  | called : s.calling = false → s.client.terminated = false →
      Moves z cfg addrs s { s with calling := true }
  | loggedIn {addr : A} {dial : CompressedDial} {conn : CompressedSoupConnection}
      {polls : List SocketPoll} :
      s.calling = true → s.client.conn = none → addrs[s.client.nextAddr]? = some addr →
      dialed cfg dial = (.ok conn, polls) →
      Moves z cfg addrs s { s with
        client := { s.client with
          nextAddr := (s.client.nextAddr + 1) % addrs.length
          lastSession := some conn.session
          nextSequence := conn.nextExpectedSequence
          attempt := 0
          conn := some conn }
        polls := polls
        log := s.log ++ [.attempt addr s.client.nextSequence (.ok conn) polls] }
  | failed {addr : A} {e : CompressedError} {polls : List SocketPoll} :
      s.calling = true → s.client.conn = none → addrs[s.client.nextAddr]? = some addr →
      Moves z cfg addrs s (attemptFailed cfg { s with
        client := { s.client with nextAddr := (s.client.nextAddr + 1) % addrs.length }
        log := s.log ++ [.attempt addr s.client.nextSequence (.error e) polls] } e)
  | pending {conn conn' : CompressedSoupConnection} {polls : List SocketPoll} :
      s.calling = true → s.client.conn = some conn →
      CompressedSoupConnection.pollNext z (conn, s.polls) = (none, conn', polls) →
      Moves z cfg addrs s { s with client := { s.client with conn := some conn' }, polls := polls }
  | read {conn conn' : CompressedSoupConnection} {polls : List SocketPoll}
      {result : Option (Except CompressedError Message)} :
      s.calling = true → s.client.conn = some conn →
      CompressedSoupConnection.pollNext z (conn, s.polls) = (some result, conn', polls) →
      Moves z cfg addrs s (s.onRead result conn' polls)

theorem step_moves {action : CompressedAction} (h : s.step z cfg addrs action = some s') :
    Moves z cfg addrs s s' := by
  cases action with
  | call =>
      rw [step] at h
      split at h
      next => cases h
      next hcalling =>
        rw [Bool.not_eq_true] at hcalling
        split at h
        next hterminated =>
          cases h
          exact .answered hcalling hterminated
        next hterminated =>
          cases h
          exact .called hcalling (Bool.not_eq_true _ ▸ hterminated)
  | attempt dial =>
      rw [step] at h
      split at h
      next hfree =>
        rw [Bool.and_eq_true, Option.isNone_iff_eq_none] at hfree
        obtain ⟨⟨result, t⟩, honce, rfl⟩ := Option.map_eq_some_iff.mp h
        obtain ⟨addr, haddr, hresult⟩ := Option.map_eq_some_iff.mp honce
        rcases hdial : dialed cfg dial with ⟨e | conn, polls⟩
        · rw [hdial] at hresult
          cases hresult
          exact .failed hfree.1 hfree.2 haddr
        · rw [hdial] at hresult
          cases hresult
          exact .loggedIn hfree.1 hfree.2 haddr hdial
      next => cases h
  | poll =>
      rw [step] at h
      split at h
      next hcalling =>
        obtain ⟨conn, hconn, rfl⟩ := Option.map_eq_some_iff.mp h
        rcases hpoll : CompressedSoupConnection.pollNext z (conn, s.polls) with
          ⟨_ | result, conn', polls⟩
        · exact .pending hcalling hconn hpoll
        · exact .read hcalling hconn hpoll
      next => cases h

end CompressedReconnect

/-! ## The plain loop -/

/-- The session without its buffer. -/
def CompressedSoupConnection.plain (c : CompressedSoupConnection) : SoupConnection where
  session := c.session
  expectedSequence := c.expectedSequence
  sessionEnded := c.sessionEnded

/-- The error that leads the plain client to do the same.  An inner frame that is not read is one
that does not decode.  The plain client takes an error of the codec that names a protocol error
for such a frame too, and keeps the connection that the compressed client drops. -/
def CompressedError.plain : CompressedError → SoupError
  | .soup (.protocol _) => .io
  | .soup e => e
  | .compression _ => .protocol (.truncated 0 0)
  | .protocol e => .protocol e

def CompressedEvent.plain : CompressedEvent A → ReconnectEvent A
  | .attempt addr sequence result _ =>
      .attempt addr sequence (match result with
        | .ok conn => .ok conn.plain
        | .error e => .error e.plain)
  | .read result expected => .read (result.map (Except.mapError CompressedError.plain)) expected
  | .returned result => .returned (result.map (Except.mapError CompressedError.plain))

/-- The client without its connection. -/
def ResilientCompressedSoupClient.plain (c : ResilientCompressedSoupClient) :
    ResilientSoupClient where
  attempt := c.attempt
  lastSession := c.lastSession
  nextSequence := c.nextSequence
  terminated := c.terminated

namespace CompressedReconnect

/-- The plain client in the same state. -/
def plain (s : CompressedReconnect A) : Reconnect A where
  client := s.client.plain
  nextAddr := s.client.nextAddr
  conn := s.client.conn.map CompressedSoupConnection.plain
  calling := s.calling
  log := s.log.map CompressedEvent.plain

variable {z : Zstd} {cfg : ResilientSoupConfig} {addrs : List A} {s s' : CompressedReconnect A}

theorem isFatal_plain (e : CompressedError) :
    ResilientSoupClient.isFatal e.plain = ResilientCompressedSoupClient.isFatalError e := by
  cases e with
  | soup e =>
      cases e with
      | loginRejected reason => cases reason <;> rfl
      | _ => rfl
  | compression | protocol => rfl

theorem plain_return_ (s : CompressedReconnect A)
    (result : Option (Except CompressedError Message)) :
    (s.return_ result).plain =
      s.plain.return_ (result.map (Except.mapError CompressedError.plain)) := by
  simp [return_, plain, Reconnect.return_, CompressedEvent.plain]

theorem eq_of_drainOneMessage_none {conn conn' : CompressedSoupConnection}
    (h : conn.drainOneMessage = (.ok none, conn')) : conn' = conn := by
  rw [CompressedSoupConnection.drainOneMessage] at h
  split at h
  next => exact (Prod.mk.inj h).2.symm
  next =>
    split at h
    next => cases h
    next => cases h

theorem plain_of_onPacket_none {conn conn' : CompressedSoupConnection} {p : SoupPacket}
    (h : conn.onPacket z p = (none, conn')) : conn'.plain = conn.plain := by
  cases p with
  | sequencedData payload =>
      rw [CompressedSoupConnection.onPacket] at h
      split at h
      next =>
        cases h
        rfl
      next => cases h
  | serverHeartbeat | debug =>
      cases h
      rfl
  | _ => cases h

theorem plain_of_pollLoop_none {conn conn' : CompressedSoupConnection}
    {polls polls' : List SocketPoll}
    (h : CompressedSoupConnection.pollLoop z conn polls = (none, conn', polls')) :
    conn'.plain = conn.plain := by
  fun_induction CompressedSoupConnection.pollLoop z conn polls with
  | case1 | case2 | case5 | case6 | case7 => cases h
  | case3 conn c hdrain | case4 conn c hdrain =>
      cases h
      rw [eq_of_drainOneMessage_none hdrain]
  | case8 conn c hdrain p polls c' hpacket ih =>
      rw [ih h, plain_of_onPacket_none hpacket, eq_of_drainOneMessage_none hdrain]

/-- A poll that is not answered has filled the buffer at most. -/
theorem plain_of_pending {conn conn' : CompressedSoupConnection} {polls polls' : List SocketPoll}
    (h : CompressedSoupConnection.pollNext z (conn, polls) = (none, conn', polls')) :
    conn'.plain = conn.plain := by
  rw [CompressedSoupConnection.pollNext] at h
  split at h
  next => cases h
  next => exact plain_of_pollLoop_none h

/-- A call goes on only while the client is not terminated. -/
def Alive (s : CompressedReconnect A) : Prop :=
  s.calling = true → s.client.terminated = false

theorem plain_attemptFailed (s : CompressedReconnect A) (halive : s.client.terminated = false)
    (e : CompressedError) :
    (attemptFailed cfg s e).plain =
      match s.plain.client.attemptFailed cfg e.plain with
      | (client, some e) => { s.plain with client := client }.return_ (some (.error e))
      | (client, none) => { s.plain with client := client } := by
  rw [attemptFailed, ResilientSoupClient.attemptFailed, isFatal_plain,
    show s.plain.client.attempt = s.client.attempt from rfl]
  cases hlast : ResilientCompressedSoupClient.isFatalError e ||
    cfg.maxAttempts.any (min (s.client.attempt + 1) (2 ^ 32 - 1) ≥ ·) with
  | true => exact plain_return_ _ _
  | false =>
      simp only [plain, halive]
      rfl

/-- An error of the session is one of the session, and not one of an inner frame. -/
theorem plain_soup_ne_protocol (e : SoupError) (e' : ProtocolError) :
    (CompressedError.soup e).plain ≠ .protocol e' := by
  cases e <;> exact nofun

/-- The plain client makes the same of a result, and keeps its connection if it is kept. -/
theorem plain_onResult (c : ResilientCompressedSoupClient) (conn : CompressedSoupConnection)
    (result : Option (Except CompressedError Message)) :
    ∃ keep, (c.onResult conn result).conn = (if keep then some conn else none) ∧
      (c.onResult conn result).nextAddr = c.nextAddr ∧
      c.plain.onResult conn.plain (result.map (Except.mapError CompressedError.plain)) =
        ((c.onResult conn result).plain, keep) := by
  match result with
  | none => exact ⟨false, rfl, rfl, rfl⟩
  | some (.ok msg) => exact ⟨true, rfl, rfl, rfl⟩
  | some (.error (.compression reason)) => exact ⟨true, rfl, rfl, rfl⟩
  | some (.error (.protocol e)) => exact ⟨true, rfl, rfl, rfl⟩
  | some (.error (.soup e)) =>
      rw [Option.map_some, Except.mapError, ResilientSoupClient.onResult, isFatal_plain,
        ResilientCompressedSoupClient.isFatalError, ResilientCompressedSoupClient.onResult]
      · cases ResilientCompressedSoupClient.isFatal e with
        | true => exact ⟨false, rfl, rfl, rfl⟩
        | false => exact ⟨false, rfl, rfl, rfl⟩
      · exact plain_soup_ne_protocol e

theorem plain_onRead (s : CompressedReconnect A) (result : Option (Except CompressedError Message))
    (conn : CompressedSoupConnection) (polls : List SocketPoll) :
    (s.onRead result conn polls).plain =
      s.plain.onRead (result.map (Except.mapError CompressedError.plain)) conn.plain := by
  obtain ⟨keep, hkeep, haddr, hresult⟩ := plain_onResult s.client conn result
  have hread : CompressedReconnect.plain { s with
        client := s.client.onResult conn result
        polls := polls
        log := s.log ++ [.read result conn.nextExpectedSequence] } =
      { s.plain with
        client := (s.client.onResult conn result).plain
        conn := if keep then some conn.plain else none
        log := s.plain.log ++ [.read (result.map (Except.mapError CompressedError.plain))
          conn.nextExpectedSequence] } := by
    simp only [plain, hkeep, haddr, List.map_append, List.map_cons, List.map_nil,
      CompressedEvent.plain]
    cases keep <;> rfl
  rw [Reconnect.onRead, show s.plain.client = s.client.plain from rfl, hresult]
  cases result with
  | none => exact hread
  | some r => rw [onRead, plain_return_, hread]; rfl

/-- A step is a step of the plain client, or one that it does not see. -/
theorem plain_moves (halive : s.Alive) (hmoves : Moves z cfg addrs s s') :
    s'.plain = s.plain ∨ ∃ action, s.plain.step cfg addrs action = some s'.plain := by
  have hfree (hcalling : s.calling = true) (hconn : s.client.conn = none) :
      (s.plain.calling && s.plain.conn.isNone) = true := by
    simp [plain, hcalling, hconn]
  cases hmoves with
  | answered hidle hterminated =>
      refine .inr ⟨.call, ?_⟩
      rw [plain_return_, Reconnect.step, if_neg, if_pos]
      · rfl
      · exact hterminated
      · exact ne_true_of_eq_false hidle
  | called hidle hopen =>
      refine .inr ⟨.call, ?_⟩
      rw [Reconnect.step, if_neg, if_neg]
      · rfl
      · exact ne_true_of_eq_false hopen
      · exact ne_true_of_eq_false hidle
  | @loggedIn addr dial conn polls hcalling hconn haddr hdial =>
      refine .inr ⟨.attempt (.loggedIn conn.plain), ?_⟩
      rw [Reconnect.step, if_pos (hfree hcalling hconn), Reconnect.tryConnect,
        Reconnect.tryConnectOnce, show s.plain.nextAddr = s.client.nextAddr from rfl, haddr]
      simp only [plain, List.map_append]
      rfl
  | @failed addr e polls hcalling hconn haddr =>
      refine .inr ⟨.attempt (.loginFails e.plain), ?_⟩
      rw [Reconnect.step, if_pos (hfree hcalling hconn), Reconnect.tryConnect,
        Reconnect.tryConnectOnce, show s.plain.nextAddr = s.client.nextAddr from rfl, haddr,
        plain_attemptFailed]
      · simp only [plain, List.map_append]
        rfl
      · exact halive hcalling
  | pending hcalling hconn hpoll =>
      left
      simp only [plain, hconn, Option.map_some, plain_of_pending hpoll]
      rfl
  | @read conn conn' polls result hcalling hconn hpoll =>
      refine .inr ⟨.read (result.map (Except.mapError CompressedError.plain)) conn'.plain, ?_⟩
      rw [plain_onRead]
      simp [Reconnect.step, plain, hcalling, hconn]

theorem Alive.moves (h : s.Alive) (hmoves : Moves z cfg addrs s s') : s'.Alive := by
  cases hmoves with
  | answered => exact nofun
  | called _ hopen => exact fun _ => hopen
  | loggedIn hcalling => exact fun _ => h hcalling
  | failed hcalling =>
      rw [attemptFailed]
      split
      next => exact nofun
      next => exact fun _ => h hcalling
  | pending hcalling => exact fun _ => h hcalling
  | @read conn conn' polls result hcalling =>
      cases result with
      | none => exact fun _ => h hcalling
      | some r => exact nofun

/-- The loop of the compressed client refines that of the plain one: without the buffers, and with
the errors as the plain client has them, every run of it is a run of the plain client. -/
theorem compressed_reconnect_refines (z : Zstd) (cfg : ResilientSoupConfig) (addrs : List A)
    (hrun : Run (step z cfg addrs) (fun _ => True) (start cfg) s) :
    Run (Reconnect.step cfg addrs) (fun _ => True) (Reconnect.start cfg) s.plain := by
  have hsimulates : ∃ t, Run (Reconnect.step cfg addrs) (fun _ => True) (Reconnect.start cfg) t ∧
      t = s.plain ∧ s.Alive := by
    refine hrun.simulates (R := fun s t => t = s.plain ∧ s.Alive) (Q := fun _ => True)
      ⟨rfl, nofun⟩ trivial ?_
    rintro s action s' _ ⟨rfl, halive⟩ hstep -
    have hmoves := step_moves hstep
    rcases plain_moves halive hmoves with hsame | ⟨action', hstep'⟩
    · exact .inl ⟨hsame.symm, halive.moves hmoves⟩
    · exact .inr ⟨action', _, hstep', trivial, rfl, halive.moves hmoves⟩
  obtain ⟨t, hplain, rfl, -⟩ := hsimulates
  exact hplain

/-! ## A run with two connections -/

def sampleConfig : ResilientSoupConfig where
  username := []
  password := []
  requestedSession := none
  initialSequence := 1
  maxAttempts := none

def sampleData (messages : List Message) : SocketPoll :=
  .ready (some (.ok (.sequencedData
    (CompressedSoupConnection.storedFrame (wireImages messages)))))

/-- Two messages in one packet, a closed connection, and one more message from the next. -/
def sampleActions : List CompressedAction :=
  let accepted (sequence : UInt64) : SocketPoll :=
    .ready (some (.ok (.loginAccepted { session := [], sequence := sequence })))
  [.call,
    .attempt (.sent [accepted 1, .pending, sampleData [.sampleDelete, .sampleDelete],
      .ready none]),
    .poll, .poll, .call, .poll, .call, .poll,
    .attempt (.sent [accepted 3, sampleData [.sampleDelete]]), .poll]

/-- What happens in it. -/
def sampleLog : List (CompressedEvent Unit) :=
  let delivered (expected : UInt64) : List (CompressedEvent Unit) :=
    [.read (some (.ok .sampleDelete)) expected, .returned (some (.ok .sampleDelete))]
  [.attempt () 1 (.ok (CompressedSoupConnection.new [] 1))
    [.pending, sampleData [.sampleDelete, .sampleDelete], .ready none]] ++
  delivered 2 ++ delivered 3 ++
  [.read none 3,
    .attempt () 3 (.ok (CompressedSoupConnection.new [] 3)) [sampleData [.sampleDelete]]] ++
  delivered 4

theorem exec_sampleActions :
    (exec (step CompressedSoupConnection.stored sampleConfig [()]) (fun _ => True)
      (start sampleConfig) sampleActions).map CompressedReconnect.log = some sampleLog := by
  decide +kernel

theorem compressed_reconnect_refines_sample :
    ∃ s, Run (step CompressedSoupConnection.stored sampleConfig [()]) (fun _ => True)
        (start sampleConfig) s ∧
      s.log = sampleLog ∧
      Run (Reconnect.step sampleConfig [()]) (fun _ => True) (Reconnect.start sampleConfig)
        s.plain := by
  obtain ⟨s, hrun, hlog⟩ := exists_run_of_exec _ _ trivial exec_sampleActions
  exact ⟨s, hrun, hlog, compressed_reconnect_refines _ _ _ hrun⟩

end CompressedReconnect

end Itch
