import Itch.Soup.Shutdown
import Itch.Tcp.Codec

/-!
# The plain TCP server

The publisher of length-prefixed messages.  Its ingest task is the one of the SoupBinTCP
server with 1 as the first sequence number, and so is its accept loop; the numbers are not
sent, and a connection has no login and no replay: it is sent the warmup messages and then
what is broadcast.

`serve` returns when the ingest task has ended.  It keeps no handle of the tasks of the
connections.
-/

namespace Itch

open Lib

/-! ## The task of a connection -/

/-- Why the task of a connection has ended. -/
inductive EndReason where
  | warmupFailed
  | sendFailed
  | lagged
  /-- The channel has no sender left. -/
  | closed
deriving Repr, DecidableEq

inductive TcpPhase where
  /-- Asks the policy for the warmup messages. -/
  | warmup
  /-- Sends what is left of them. -/
  | warming (messages : List Message)
  | live
  | ended (reason : EndReason)
deriving Repr, DecidableEq

structure TcpSubscriber where
  phase : TcpPhase
  /-- Position of the broadcast receiver. -/
  rxPos : Nat
  /-- The bytes written. -/
  written : Bytes
  /-- What was broadcast before the connection subscribed.  The task never reads this field
  and those after it; runs are judged by them. -/
  start : Nat
  /-- The warmup messages of the policy. -/
  policy : List Message
  warmed : List Message
  /-- What was sent from the channel. -/
  forwarded : List (UInt64 × Message)
deriving Repr, DecidableEq

inductive TcpAction where
  /-- The answer of `policy.warmup()`; `none` is an error. -/
  | warmup (result : Option (List Message))
  /-- The next send or channel receive of the task. -/
  | proceed
  /-- The channel reports that the receiver lags. -/
  | lagged
  /-- The next send fails. -/
  | sendFailed
deriving Repr, DecidableEq

namespace TcpSubscriber

variable {σ : Type}

/-- A fresh connection, which subscribes to the channel as it is accepted. -/
def accept (srv : Server σ) : TcpSubscriber where
  phase := .warmup
  rxPos := srv.channel.length
  written := []
  start := srv.channel.length
  policy := []
  warmed := []
  forwarded := []

def finish (s : TcpSubscriber) (reason : EndReason) : TcpSubscriber :=
  { s with phase := .ended reason }

def sendWarmup (s : TcpSubscriber) (msg : Message) (messages : List Message) : TcpSubscriber :=
  match ItchCodec.encode msg with
  | .error _ => s.finish .sendFailed
  | .ok frame =>
      { s with
        phase := .warming messages
        written := s.written ++ frame
        warmed := s.warmed ++ [msg] }

def forward (s : TcpSubscriber) (entry : UInt64 × Message) : TcpSubscriber :=
  match ItchCodec.encode entry.2 with
  | .error _ => s.finish .sendFailed
  | .ok frame =>
      { s with
        rxPos := s.rxPos + 1
        written := s.written ++ frame
        forwarded := s.forwarded ++ [entry] }

def proceed (srv : Server σ) (s : TcpSubscriber) : Option TcpSubscriber :=
  match s.phase with
  | .warming [] => some { s with phase := .live }
  | .warming (msg :: messages) => some (s.sendWarmup msg messages)
  | .live =>
      match srv.channel[s.rxPos]? with
      | some entry => some (s.forward entry)
      | none => if srv.closed then some (s.finish .closed) else none
  | .warmup | .ended _ => none

def step (srv : Server σ) (s : TcpSubscriber) : TcpAction → Option TcpSubscriber
  | .warmup result =>
      match s.phase, result with
      | .warmup, some messages => some { s with phase := .warming messages, policy := messages }
      | .warmup, none => some (s.finish .warmupFailed)
      | _, _ => none
  | .proceed => s.proceed srv
  | .lagged =>
      match s.phase with
      | .live => some (s.finish .lagged)
      | _ => none
  | .sendFailed =>
      match s.phase with
      | .warming (_ :: _) => some (s.finish .sendFailed)
      | .live => if s.rxPos < srv.channel.length then some (s.finish .sendFailed) else none
      | _ => none

end TcpSubscriber

/-! ## The system -/

inductive TcpServeAction where
  /-- A step of the ingest task.  It ends with `close`. -/
  | ingest (action : IngestAction)
  /-- The accept loop sees that the ingest task has ended. -/
  | ingestSeen
  | joined
deriving Repr, DecidableEq

namespace TcpServer

variable {σ : Type} [SeqStore σ]

/-- `serve` returns when it has joined the ingest task. -/
def serve (s : Serve σ) : TcpServeAction → Option (Serve σ)
  | .ingest action => s.ingest action
  | .ingestSeen =>
      if s.phase = .accepting ∧ s.ingestEnded then some { s with phase := .joining } else none
  | .joined => if s.phase = .joining ∧ s.ingestEnded then some s.ret else none

/-- Whether a connection is accepted. -/
def accept (s : Serve σ) : Option TcpSubscriber :=
  if s.phase = .accepting then some (.accept s.server) else none

def start (store : σ) : Hub (Serve σ) TcpSubscriber where
  shared := .start store 1
  parties := []

def step : Hub (Serve σ) TcpSubscriber → HubAction TcpServeAction TcpAction →
    Option (Hub (Serve σ) TcpSubscriber) :=
  Hub.step serve accept fun s => TcpSubscriber.step s.server

end TcpServer

end Itch
