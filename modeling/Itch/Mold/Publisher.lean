import Itch.Lib.Word64
import Itch.Mold.PacketCodec
import Itch.Mold.Receiver

/-!
# The MoldUDP64 publisher

The task behind `MoldPublisher::serve`: it pulls messages from a source, packs them into
datagrams up to a size, fills a retransmission cache with what it sends, and sends a
heartbeat when it has been silent for a while.  When the source is exhausted it sends what
is left and a burst of end-of-session packets.

The source and the timer are the environment: an event of the `select!` loop is an item of
the source or a firing of the timer, in any order.  Sends succeed; a send that fails ends
the task.
-/

namespace Itch

open Lib

/-! ## The retransmission cache -/

namespace RequestServer

/-- The frames published last, oldest first. -/
structure RingBufferSeqStore where
  inner : List CachedFrame
  capacity : Nat
  eos : Bool
  capacity_pos : 1 ≤ capacity
  length_le : inner.length ≤ capacity
deriving DecidableEq

namespace RingBufferSeqStore

def withCapacity (capacity : Nat) : RingBufferSeqStore where
  inner := []
  capacity := max capacity 1
  eos := false
  capacity_pos := le_max_right _ _
  length_le := Nat.zero_le _

/-- A full cache drops its oldest frame. -/
def push (c : RingBufferSeqStore) (frame : CachedFrame) : RingBufferSeqStore where
  inner := (if c.inner.length = c.capacity then c.inner.drop 1 else c.inner) ++ [frame]
  capacity := c.capacity
  eos := c.eos
  capacity_pos := c.capacity_pos
  length_le := by
    have hle := c.length_le
    have hpos := c.capacity_pos
    rw [List.length_append, List.length_singleton]
    split
    next hfull =>
      rw [List.length_drop]
      omega
    next hfull => omega

def markEndOfSession (c : RingBufferSeqStore) : RingBufferSeqStore :=
  { c with eos := true }

/-- The blocks of a packet under the numbers from `seq` on, which stick at the largest. -/
def pushBlocks : RingBufferSeqStore → UInt64 → List MessageBlock → RingBufferSeqStore
  | c, _, [] => c
  | c, seq, b :: bs =>
      pushBlocks (c.push { sequence := seq, body := b.data }) (Word64.saturatingSucc seq) bs

end RingBufferSeqStore

end RequestServer

/-! ## The publisher -/

inductive SourceError where
  | exhausted
  | backend
  | invariant
deriving Repr, DecidableEq

structure PublisherConfig where
  session : Vector UInt8 10
  /-- The number of the first message. -/
  startSequence : UInt64
  /-- The size a datagram of several blocks stays within. -/
  mtu : Nat
  /-- The number of end-of-session packets at the end. -/
  eosBurst : Nat
deriving Repr, DecidableEq

/-- The publisher with the variables of its loop. -/
structure MoldPublisher where
  cfg : PublisherConfig
  nextSeq : UInt64
  cache : Option RequestServer.RingBufferSeqStore
  /-- The datagrams sent. -/
  socket : List Bytes
  pendingBlocks : List MessageBlock
  pendingFirstSeq : UInt64
  pendingSize : Nat
  /-- What the task has returned, if it has. -/
  result : Option (Except MoldError Unit)
deriving DecidableEq

/-- What the loop waits for. -/
inductive PublisherEvent where
  /-- The next item of the source; `none` is the end of the stream. -/
  | next (item : Option (Except SourceError Message))
  /-- The heartbeat timer. -/
  | timer
deriving Repr, DecidableEq

namespace MoldPublisher

/-- A publisher at the start of `serve`. -/
def new (cfg : PublisherConfig) (cache : Option RequestServer.RingBufferSeqStore) :
    MoldPublisher where
  cfg := cfg
  nextSeq := cfg.startSequence
  cache := cache
  socket := []
  pendingBlocks := []
  pendingFirstSeq := cfg.startSequence
  pendingSize := headerLen
  result := none

/-- Go on after a call that succeeded, and pass its error on otherwise. -/
def andThen : Except MoldError Unit × MoldPublisher →
    (MoldPublisher → Except MoldError Unit × MoldPublisher) →
    Except MoldError Unit × MoldPublisher
  | (.ok (), p), next => next p
  | (.error err, p), _ => (.error err, p)

def sendPacket (p : MoldPublisher) (pkt : MoldPacket) : Except MoldError Unit × MoldPublisher :=
  match pkt.encodeTo [] with
  | .ok buf => (.ok (), { p with socket := p.socket ++ [buf] })
  | .error err => (.error err, p)

def sendHeartbeat (p : MoldPublisher) : Except MoldError Unit × MoldPublisher :=
  p.sendPacket (.heartbeat p.cfg.session p.nextSeq)

def sendEndOfSession (p : MoldPublisher) : Except MoldError Unit × MoldPublisher :=
  p.sendPacket (.endOfSession p.cfg.session p.nextSeq)

/-- Send the pending blocks as one packet. -/
def flushPending (p : MoldPublisher) : Except MoldError Unit × MoldPublisher :=
  if p.pendingBlocks.isEmpty then (.ok (), p)
  else
    -- the blocks are taken out before anything can fail
    let drained := { p with pendingBlocks := [] }
    match MoldPacket.newData p.cfg.session p.pendingFirstSeq p.pendingBlocks with
    | .error err => (.error err, drained)
    | .ok pkt =>
        let cached := { drained with
          cache := p.cache.map fun c : RequestServer.RingBufferSeqStore =>
            c.pushBlocks p.pendingFirstSeq pkt.blocks }
        andThen (cached.sendPacket pkt) fun p =>
          (.ok (), { p with pendingSize := headerLen, pendingFirstSeq := p.nextSeq })

def sendBurst : Nat → MoldPublisher → Except MoldError Unit × MoldPublisher
  | 0, p => (.ok (), p)
  | count + 1, p => andThen p.sendEndOfSession (sendBurst count)

def eosBurst (p : MoldPublisher) : Except MoldError Unit × MoldPublisher :=
  andThen (sendBurst p.cfg.eosBurst p) fun p =>
    (.ok (), { p with cache := p.cache.map (·.markEndOfSession) })

/-- Add an encoded message to the pending blocks under the next number. -/
def enqueue (p : MoldPublisher) (body : Bytes) : MoldPublisher :=
  let p :=
    if p.pendingBlocks.isEmpty then
      { p with pendingFirstSeq := p.nextSeq, pendingSize := headerLen }
    else p
  { p with
    pendingBlocks := p.pendingBlocks ++ [{ data := body }]
    pendingSize := p.pendingSize + (2 + body.length)
    nextSeq := p.nextSeq + 1 }

/-- A message of the source. -/
def publish (p : MoldPublisher) (msg : Message) : Except MoldError Unit × MoldPublisher :=
  match msg.encode (List.replicate msg.encodedLen 0) with
  | .error err => (.error (.protocol err), p)
  | .ok (_, body) =>
      if body.length > maxBlockLen then (.error (.blockTooLarge body.length maxBlockLen), p)
      else
        let room :=
          if !p.pendingBlocks.isEmpty && p.pendingSize + (2 + body.length) > p.cfg.mtu then
            p.flushPending
          else (.ok (), p)
        andThen room fun p => (.ok (), p.enqueue body)

/-- The end of the source. -/
def exhaust (p : MoldPublisher) : Except MoldError Unit × MoldPublisher :=
  andThen (if !p.pendingBlocks.isEmpty then p.flushPending else (.ok (), p)) eosBurst

/-- The heartbeat timer. -/
def heartbeatDue (p : MoldPublisher) : Except MoldError Unit × MoldPublisher :=
  if !p.pendingBlocks.isEmpty then p.flushPending else p.sendHeartbeat

/-- The task returns at an error. -/
def stopAtError : Except MoldError Unit × MoldPublisher → MoldPublisher
  | (.ok (), p) => p
  | (.error err, p) => { p with result := some (.error err) }

/-- The task returns. -/
def stop : Except MoldError Unit × MoldPublisher → MoldPublisher
  | (result, p) => { p with result := some result }

/-- A turn of the loop of `serve`.  There is none once the task has returned. -/
def step (p : MoldPublisher) (event : PublisherEvent) : Option MoldPublisher :=
  if p.result.isSome then none
  else
    match event with
    | .next (some (.ok msg)) => some (stopAtError (p.publish msg))
    | .next (some (.error .exhausted)) | .next none => some (stop p.exhaust)
    | .next (some (.error _)) => some { p with result := some (.error .sourceExhausted) }
    | .timer => some (stopAtError p.heartbeatDue)

/-- The state some events lead to. -/
def run (p : MoldPublisher) (events : List PublisherEvent) : Option MoldPublisher :=
  events.foldlM step p

end MoldPublisher

/-- The messages some events pull from the source. -/
def pulled (events : List PublisherEvent) : List Message :=
  events.filterMap fun
    | .next (some (.ok msg)) => some msg
    | _ => none

end Itch
