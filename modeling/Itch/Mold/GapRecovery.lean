import Itch.Mold.EndToEnd
import Itch.Mold.RequestServer

/-!
# The gap-recovery client

`MoldStream` puts the receiver behind a socket, and `GapRecoveryClient` puts a recovery
task beside it: a reported gap starts a task that asks the request servers for the missing
frames, one task at a time, and the frames of a task that is done are fed to the receiver
as if they had arrived on the feed.

Both are polled.  What a poll finds is up to the environment: the datagrams the socket
yields during the poll, whether the task is done, and what the request servers answer.
Time is part of the environment too.
-/

namespace Itch

open Lib

inductive Poll (α : Type) where
  | pending
  | ready (value : α)
deriving Repr, DecidableEq

/-! ## The stream -/

/-- What the socket and the silence timer yield. -/
inductive SocketItem where
  | datagram (bytes : Bytes)
  | ioError
  /-- Nothing has arrived for the time of a dead link. -/
  | silence
deriving Repr, DecidableEq

structure MoldStream where
  /-- The events of its outbox are those still to be yielded. -/
  state : ReceiverState
  /-- Whether a dead link was reported and nothing has arrived since. -/
  deadLinkPending : Bool
  /-- Whether the end of the session was yielded. -/
  finished : Bool

namespace MoldStream

def new (cfg : MoldConfig) : MoldStream where
  state := .new cfg
  deadLinkPending := false
  finished := false

def isEndOfSession : Except MoldError MoldEvent → Bool
  | .ok (.endOfSession _) => true
  | _ => false

/-- Take the first event off the outbox.  The end of the session is the last one. -/
def popEvent (s : MoldStream) : Option (Except MoldError MoldEvent × MoldStream) :=
  match s.state.outbox with
  | [] => none
  | event :: outbox =>
      some (event, { s with
        state := { s.state with outbox := outbox }
        finished := s.finished || isEndOfSession event })

/-- The loop of `poll_next` once the outbox is empty.  It is pending when the socket and the
timer have nothing more. -/
def readLoop : MoldStream → List SocketItem →
    Poll (Option (Except MoldError MoldEvent)) × MoldStream
  | s, [] => (.pending, s)
  | s, .datagram bytes :: items =>
      let s := { s with deadLinkPending := false }
      match MoldPacket.decode (bytes.take recvBufferLen) with
      | .error err => (.ready (some (.error err)), s)
      | .ok pkt =>
          let s := { s with state := s.state.ingest pkt }
          match s.popEvent with
          | some (event, s) => (.ready (some event), s)
          | none => readLoop s items
  | s, .ioError :: _ => (.ready (some (.error .io)), s)
  | s, .silence :: items =>
      if s.deadLinkPending then readLoop s items
      else (.ready (some (.error .peerSilent)), { s with deadLinkPending := true })

def pollNext (s : MoldStream) (items : List SocketItem) :
    Poll (Option (Except MoldError MoldEvent)) × MoldStream :=
  if s.finished then (.ready none, s)
  else
    match s.popEvent with
    | some (event, s) => (.ready (some event), s)
    | none => s.readLoop items

def ingestRetransmit (s : MoldStream) (frames : List CachedFrame) : MoldStream :=
  { s with state := s.state.ingestRetransmit frames, deadLinkPending := false }

end MoldStream

/-! ## The recovery task -/

structure GapRecoveryConfig where
  /-- The servers in the order in which they are tried. -/
  requestServers : List SocketAddr
  maxRetriesPerServer : Nat
deriving Repr, DecidableEq

structure RecoveryFrames where
  frames : List CachedFrame
  eos : Bool
deriving Repr, DecidableEq

/-- What comes of an attempt to ask a server. -/
inductive Attempt where
  /-- The time for the gap is over before the attempt. -/
  | expired
  /-- The connection fails or times out. -/
  | failed (error : MoldError)
  /-- The server answers the bytes of a request. -/
  | answered (server : Bytes → Bytes)

/-- The number of frames that are asked for. -/
def gapCount (first last : UInt64) : UInt32 :=
  UInt32.ofNat (min (last - first + 1).toNat (2 ^ 32 - 1))

/-- The loop of `recover_gap` over the servers of the attempts from number `i` on. -/
def recoverLoop (first last : UInt64) (attempts : Nat → Attempt) :
    Nat → List SocketAddr → MoldError → Except MoldError RecoveryFrames
  | _, [], lastErr => .error lastErr
  | i, server :: servers, _ =>
      let timeout := .requestTimeout server first
      match attempts i with
      | .expired => .error timeout
      | .failed err => recoverLoop first last attempts (i + 1) servers err
      | .answered reply =>
          match RequestClient.readResponse first
              (reply (RequestClient.requestFrame first (gapCount first last))) with
          -- the rest of the response never comes
          | none => recoverLoop first last attempts (i + 1) servers timeout
          | some (.error err, _) => recoverLoop first last attempts (i + 1) servers err
          | some (.ok resp, _) =>
              if (resp.status = statusOk ∨ resp.status = statusHole) ∧ !resp.frames.isEmpty then
                .ok { frames := resp.frames, eos := false }
              else if resp.status = statusEndOfSession then
                .ok { frames := resp.frames, eos := true }
              else recoverLoop first last attempts (i + 1) servers timeout

/-- Ask the servers for a gap. -/
def recoverGap (cfg : GapRecoveryConfig) (first last : UInt64) (attempts : Nat → Attempt) :
    Except MoldError RecoveryFrames :=
  match cfg.requestServers with
  | [] => .error (.requestTimeout { ip := [0, 0, 0, 0], port := 0 } first)
  | server :: _ =>
      recoverLoop first last attempts 0
        (cfg.requestServers.flatMap (List.replicate (max cfg.maxRetriesPerServer 1)))
        (.requestTimeout server first)

/-! ## The client -/

structure GapRecoveryClient where
  stream : MoldStream
  /-- The range of the task that is running. -/
  active : Option (UInt64 × UInt64)
  /-- The ranges of the tasks whose error was returned.  Nothing reads it. -/
  failed : List (UInt64 × UInt64)

/-- How a task ends. -/
inductive TaskResult where
  | panicked
  | finished (attempts : Nat → Attempt)

/-- What a poll finds. -/
structure PollInput where
  /-- The end of the task, if it has ended. -/
  task : Option TaskResult
  items : List SocketItem

namespace GapRecoveryClient

def new (stream : MoldStream) : GapRecoveryClient where
  stream := stream
  active := none
  failed := []

/-- Feed the result of a task that is done to the stream.  Its error is returned. -/
def drain (cfg : GapRecoveryConfig) (c : GapRecoveryClient) :
    Option TaskResult → Option MoldError × GapRecoveryClient
  | none => (none, c)
  | some result =>
      match c.active, result with
      | none, _ => (none, c)
      | some _, .panicked => (none, { c with active := none })
      | some (first, last), .finished attempts =>
          match recoverGap cfg first last attempts with
          | .ok recovered =>
              (none, { c with active := none
                              stream := c.stream.ingestRetransmit recovered.frames })
          | .error err =>
              (some err, { c with active := none, failed := c.failed ++ [(first, last)] })

/-- Start a task for a gap unless one is running. -/
def onGap (cfg : GapRecoveryConfig) (c : GapRecoveryClient) (first last : UInt64) :
    GapRecoveryClient :=
  if !cfg.requestServers.isEmpty && c.active.isNone then { c with active := some (first, last) }
  else c

/-- Poll the stream. -/
def pollStream (cfg : GapRecoveryConfig) (c : GapRecoveryClient) (items : List SocketItem) :
    Poll (Option (Except MoldError MoldEvent)) × GapRecoveryClient :=
  match c.stream.pollNext items with
  | (.ready (some (.ok (.gap first last))), stream) =>
      (.ready (some (.ok (.gap first last))), { c with stream := stream }.onGap cfg first last)
  | (answer, stream) => (answer, { c with stream := stream })

def pollNext (cfg : GapRecoveryConfig) (c : GapRecoveryClient) (input : PollInput) :
    Poll (Option (Except MoldError MoldEvent)) × GapRecoveryClient :=
  match c.drain cfg input.task with
  | (some err, c) => (.ready (some (.error err)), c)
  | (none, c) => c.pollStream cfg input.items

/-- What some polls yield until the stream ends. -/
def yields (cfg : GapRecoveryConfig) :
    GapRecoveryClient → List PollInput → List (Except MoldError MoldEvent)
  | _, [] => []
  | c, input :: inputs =>
      match c.pollNext cfg input with
      | (.pending, c) => yields cfg c inputs
      | (.ready (some event), c) => event :: yields cfg c inputs
      | (.ready none, _) => []

end GapRecoveryClient

end Itch
