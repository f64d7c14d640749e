import Itch.Lib.Run
import Itch.Protocol.Codec
import Itch.Soup.Packet
import Itch.Source.SeqStore

/-!
# The SoupBinTCP server

One ingest task stores each message of the source and then broadcasts it; a task per
connection checks the login, announces a resume point, sends the warmup messages, replays
the store from the resume point on and then forwards the broadcast.  A task moves from
one await point to the next, so every interleaving of the two is a run of `System.step`.

The broadcast channel is the list of everything sent on it, and a receiver is a position
in the list.  When a receiver lags is left open: the channel may report it at any time.
-/

namespace Itch

open Lib

/-! ## The ingest task -/

/-- The shared side of the server: the store, the channel and the ingest task. -/
structure Server (σ : Type) where
  store : σ
  /-- Sequence number of the next message. -/
  nextSeq : UInt64
  /-- The message that was stored and is still to be broadcast. -/
  stored : Option Message
  /-- Everything broadcast so far. -/
  channel : List (UInt64 × Message)
  /-- Whether every sender of the channel is gone. -/
  closed : Bool
  /-- Every store that succeeded.  No task reads it; runs are judged by it. -/
  written : List (UInt64 × Message)

inductive IngestAction where
  /-- The source yields a message; the backend of the store fails or not. -/
  | store (msg : Message) (fails : Bool)
  | broadcast
  /-- The source is over and the last sender is dropped. -/
  | close
deriving Repr, DecidableEq

namespace Server

variable {σ : Type} [SeqStore σ]

/-- The server at start-up. -/
def start (store : σ) (startSequence : UInt64) : Server σ where
  store := store
  nextSeq :=
    match SeqStore.latest store with
    | some latest =>
        if Word64.saturatingSucc latest < startSequence then startSequence
        else Word64.saturatingSucc latest
    | none => startSequence
  stored := none
  channel := []
  closed := false
  written := []

def step (srv : Server σ) : IngestAction → Option (Server σ)
  | .store msg fails =>
      match srv.stored, srv.closed with
      | none, false =>
          if fails then some srv
          else match SeqStore.store srv.store srv.nextSeq msg with
            -- a failed store drops the frame and keeps the number
            | none => some srv
            | some store => some { srv with
                store := store
                stored := some msg
                written := srv.written ++ [(srv.nextSeq, msg)] }
      | _, _ => none
  | .broadcast =>
      match srv.stored with
      | some msg => some { srv with
          channel := srv.channel ++ [(srv.nextSeq, msg)]
          nextSeq := Word64.saturatingSucc srv.nextSeq
          stored := none }
      | none => none
  | .close =>
      match srv.stored with
      | none => some { srv with closed := true }
      | some _ => none

end Server

/-! ## The task of a connection -/

structure ServerConfig where
  session : Text
  /-- `Authenticator::check`: the reason of a rejection, if it rejects. -/
  check : Text → Text → Option LoginRejectReason

/-- Where the task of a connection stands. -/
inductive Phase where
  /-- Waits for the login request. -/
  | login
  | readLatest (requested : UInt64)
  | accept (latest resumeFrom : UInt64)
  /-- Asks the policy for the warmup messages. -/
  | warmup (latest : UInt64)
  /-- Sends what is left of them. -/
  | warming (latest : UInt64) (messages : List Message)
  /-- Reads the next chunk of the store. -/
  | replay
  /-- Sends what is left of a chunk. -/
  | replaying (entries : List (UInt64 × Message))
  | live
  | closed
deriving Repr, DecidableEq

/-- What a run is judged by.  The task itself never reads it. -/
structure Trace (σ : Type) where
  /-- `next_seq` of the ingest task when the connection was accepted. -/
  acceptSeq : UInt64
  /-- The sequence number announced in the login reply. -/
  announced : Option UInt64
  /-- The store as the replay first read it. -/
  firstRead : Option σ
  /-- The warmup messages sent. -/
  warmed : List Message
  /-- What was sent from the store. -/
  replayed : List (UInt64 × Message)
  /-- What was sent from the channel. -/
  forwarded : List (UInt64 × Message)

/-- The non-warmup messages sent, with their sequence numbers. -/
def Trace.sent {σ : Type} (t : Trace σ) : List (UInt64 × Message) :=
  t.replayed ++ t.forwarded

structure Subscriber (σ : Type) where
  phase : Phase
  /-- Position of the broadcast receiver. -/
  rxPos : Nat
  nextExpected : UInt64
  /-- Packets sent. -/
  out : List SoupPacket
  trace : Trace σ

inductive SubscriberAction where
  /-- The next packet of the client, a read error, or the end of its stream. -/
  | packet (item : Option (Except SoupError SoupPacket))
  /-- The answer of `policy.warmup()`; `none` is an error. -/
  | warmup (result : Option (List Message))
  /-- The next store call, send or channel receive of the task. -/
  | proceed
  /-- The channel reports that the receiver lags. -/
  | lagged
  /-- A send fails. -/
  | sendFailed
deriving Repr, DecidableEq

/-- A message encoded into a fresh buffer of its length. -/
def encodeMessage (msg : Message) : Option Bytes :=
  match msg.encode (List.replicate msg.encodedLen 0) with
  | .ok (_, buf) => some buf
  | .error _ => none

/-- Chunk size of the replay. -/
def replayChunk : Nat := 256

namespace Subscriber

variable {σ : Type} [SeqStore σ]

/-- A fresh connection, which subscribes to the channel as it is accepted. -/
def accept (srv : Server σ) : Subscriber σ where
  phase := .login
  rxPos := srv.channel.length
  nextExpected := 0
  out := []
  trace := { acceptSeq := srv.nextSeq, announced := none, firstRead := none, warmed := []
             replayed := [], forwarded := [] }

def close (s : Subscriber σ) : Subscriber σ :=
  { s with phase := .closed }

def send (s : Subscriber σ) (p : SoupPacket) : Subscriber σ :=
  { s with out := s.out ++ [p] }

def login (cfg : ServerConfig) (s : Subscriber σ) :
    Option (Except SoupError SoupPacket) → Subscriber σ
  | some (.ok (.loginRequest req)) =>
      match cfg.check req.username req.password with
      | some reason => (s.send (.loginRejected reason)).close
      | none =>
          let requested := Text.trim req.requestedSession
          if !requested.isEmpty && requested != Text.trim cfg.session then
            (s.send (.loginRejected .sessionUnavailable)).close
          else { s with phase := .readLatest req.requestedSequence }
  | _ => s.close

/-- The read half of a connection that is live. -/
def read (s : Subscriber σ) : Option (Except SoupError SoupPacket) → Subscriber σ
  | some (.ok (.clientHeartbeat)) | some (.ok (.debug _)) | some (.ok (.unsequencedData _)) => s
  | _ => s.close

/-- One more warmup message, or the decision whether there is anything to replay. -/
def warm (s : Subscriber σ) (latest : UInt64) : List Message → Subscriber σ
  | [] => { s with phase := if s.nextExpected ≤ latest then .replay else .live }
  | msg :: messages =>
      match encodeMessage msg with
      | none => s.close
      | some buf =>
          { s.send (.sequencedData buf) with
            phase := .warming latest messages
            trace := { s.trace with warmed := s.trace.warmed ++ [msg] } }

/-- The next chunk of the replay.  An empty one ends it. -/
def readChunk (store : σ) (s : Subscriber σ) : Subscriber σ :=
  match SeqStore.range store s.nextExpected replayChunk with
  | none => s.close
  | some entries =>
      { s with
        phase := if entries.isEmpty then .live else .replaying entries
        trace := { s.trace with
          firstRead := if s.trace.replayed.isEmpty then some store else s.trace.firstRead } }

def sendReplay (s : Subscriber σ) : List (UInt64 × Message) → Subscriber σ
  | [] => { s with phase := .replay }
  | (seq, msg) :: entries =>
      match encodeMessage msg with
      | none => s.close
      | some buf =>
          { s.send (.sequencedData buf) with
            phase := .replaying entries
            nextExpected := Word64.saturatingSucc seq
            trace := { s.trace with replayed := s.trace.replayed ++ [(seq, msg)] } }

/-- A message received from the channel. -/
def forward (s : Subscriber σ) (seq : UInt64) (msg : Message) : Subscriber σ :=
  -- covered by the replay
  if seq < s.nextExpected then { s with rxPos := s.rxPos + 1 }
  else match encodeMessage msg with
    | none => s.close
    | some buf =>
        { s.send (.sequencedData buf) with
          rxPos := s.rxPos + 1
          nextExpected := Word64.saturatingSucc seq
          trace := { s.trace with forwarded := s.trace.forwarded ++ [(seq, msg)] } }

/-- The next step of the task that does not wait for the client or the policy. -/
def proceed (cfg : ServerConfig) (srv : Server σ) (s : Subscriber σ) : Option (Subscriber σ) :=
  match s.phase with
  | .readLatest requested =>
      let latest := (SeqStore.latest srv.store).getD 0
      let resumeFrom := if requested = 0 then Word64.saturatingSucc latest else requested
      some { s with phase := .accept latest resumeFrom }
  | .accept latest resumeFrom =>
      some { s.send (.loginAccepted { session := cfg.session, sequence := resumeFrom }) with
        phase := .warmup latest
        nextExpected := resumeFrom
        trace := { s.trace with announced := some resumeFrom } }
  | .warming latest messages => some (s.warm latest messages)
  | .replay => some (s.readChunk srv.store)
  | .replaying entries => some (s.sendReplay entries)
  | .live =>
      match srv.channel[s.rxPos]? with
      | some (seq, msg) => some (s.forward seq msg)
      | none => if srv.closed then some (s.send .endOfSession).close else none
  | .login | .warmup _ | .closed => none

def step (cfg : ServerConfig) (srv : Server σ) (s : Subscriber σ) :
    SubscriberAction → Option (Subscriber σ)
  | .packet item =>
      match s.phase with
      | .login => some (s.login cfg item)
      | .live => some (s.read item)
      | _ => none
  | .warmup result =>
      match s.phase, result with
      | .warmup latest, some messages => some { s with phase := .warming latest messages }
      | .warmup _, none => some s.close
      | _, _ => none
  | .proceed => s.proceed cfg srv
  | .lagged =>
      match s.phase with
      | .live => some s.close
      | _ => none
  | .sendFailed =>
      match s.phase with
      | .closed => none
      | _ => some s.close

end Subscriber

/-! ## The system -/

/-- The server with one connection, once it is accepted. -/
structure System (σ : Type) where
  server : Server σ
  subscriber : Option (Subscriber σ)

inductive Action where
  | ingest (action : IngestAction)
  | accept
  | subscriber (action : SubscriberAction)
deriving Repr, DecidableEq

namespace System

variable {σ : Type} [SeqStore σ]

def start (store : σ) (startSequence : UInt64) : System σ where
  server := Server.start store startSequence
  subscriber := none

def step (cfg : ServerConfig) (sys : System σ) : Action → Option (System σ)
  | .ingest action => (sys.server.step action).map fun srv => { sys with server := srv }
  | .accept =>
      match sys.subscriber with
      | none => some { sys with subscriber := some (.accept sys.server) }
      | some _ => none
  | .subscriber action =>
      match sys.subscriber with
      | none => none
      | some s => (s.step cfg sys.server action).map fun s => { sys with subscriber := some s }

end System

end Itch
