import Itch.Lib.FinMap
import Itch.Mold.Packet
import Itch.Protocol.Codec

/-!
# The MoldUDP64 receiver

The state machine behind `MoldStream`: it delivers the blocks of the feed in sequence
order, drops what it has delivered already, and holds what comes too early in a bounded
buffer until the hole before it is filled.

Sequence numbers are `u64` and their arithmetic wraps, as in a release build.  The
`outbox` holds everything queued so far: no part of the state machine reads it, and
`poll_next` only takes events off its front.
-/

namespace Itch

open Lib

/-- Events surfaced by the receiver. -/
inductive MoldEvent where
  | message (sequence : UInt64) (message : Message)
  | heartbeat (nextSeq : UInt64)
  | endOfSession (nextSeq : UInt64)
  /-- The first and the last missing sequence number. -/
  | gap (first last : UInt64)
deriving Repr, DecidableEq

/-- What to do when the pending buffer is full. -/
inductive PendingOverflowPolicy where
  | dropOldest
  | error
deriving Repr, DecidableEq

structure MoldConfig where
  /-- Pinned session; `none` locks onto the one of the first packet. -/
  session : Option (Vector UInt8 10)
  /-- First sequence number; `0` locks onto the one of the first packet. -/
  startSequence : UInt64
  maxPendingMessages : Nat
  pendingOverflow : PendingOverflowPolicy
deriving Repr, DecidableEq

structure ReceiverState where
  session : Option (Vector UInt8 10)
  /-- Next sequence number to deliver. -/
  nextExpected : UInt64
  /-- Whether a packet has been observed. -/
  bootstrapped : Bool
  /-- Blocks that came too early. -/
  pending : FinMap UInt64 Bytes
  outbox : List (Except MoldError MoldEvent)
  eos : Bool
  maxPending : Nat
  pendingOverflow : PendingOverflowPolicy
  startSequence : UInt64
  overflowDrops : UInt64

namespace ReceiverState

def new (cfg : MoldConfig) : ReceiverState where
  session := cfg.session
  nextExpected := cfg.startSequence
  bootstrapped := false
  pending := ∅
  outbox := []
  eos := false
  maxPending := cfg.maxPendingMessages
  pendingOverflow := cfg.pendingOverflow
  startSequence := cfg.startSequence
  overflowDrops := 0

/-- Queue an event. -/
def push (r : ReceiverState) (event : Except MoldError MoldEvent) : ReceiverState :=
  { r with outbox := r.outbox ++ [event] }

/-- Decode and emit an in-order block. -/
def deliver (r : ReceiverState) (seq : UInt64) (body : Bytes) : ReceiverState :=
  if body.length > maxBlockLen then
    r.push (.error (.blockTooLarge body.length maxBlockLen))
  else
    match Message.decode body with
    | .ok message => { r.push (.ok (.message seq message)) with nextExpected := seq + 1 }
    -- a bad block is passed over, so that it does not stop the feed
    | .error err => { r.push (.error (.protocol err)) with nextExpected := seq + 1 }

def stashPending (r : ReceiverState) (seq : UInt64) (data : Bytes) : ReceiverState :=
  if r.pending.contains seq then r
  else if r.pending.size ≥ r.maxPending then
    match r.pendingOverflow with
    | .dropOldest =>
        match FinMap.first? r.pending with
        | some (oldSeq, _) =>
            { r with
              pending := (r.pending.erase oldSeq).insert seq data
              overflowDrops := r.overflowDrops + 1 }
        | none => { r with pending := r.pending.insert seq data }
    | .error =>
        { r.push (.error (.pendingBufferFull r.maxPending)) with
          overflowDrops := r.overflowDrops + 1 }
  else { r with pending := r.pending.insert seq data }

/-- The loop of `flush_pending`.  Every turn takes an entry out of the buffer. -/
def flushLoop : Nat → ReceiverState → ReceiverState
  | 0, r => r
  | fuel + 1, r =>
      match FinMap.first? r.pending with
      | some (seq, body) =>
          if seq ≠ r.nextExpected then r
          else flushLoop fuel (deliver { r with pending := r.pending.erase seq } seq body)
      | none => r

def flushPending (r : ReceiverState) : ReceiverState :=
  flushLoop r.pending.size r

/-- The blocks of a packet with their sequence numbers. -/
def numbered (firstSeq : UInt64) (blocks : List MessageBlock) : List (UInt64 × Bytes) :=
  blocks.zipIdx.map fun (block, i) => (firstSeq + UInt64.ofNat i, block.data)

/-- Deliver a block unless it was delivered before. -/
def deliverNew (r : ReceiverState) (entry : UInt64 × Bytes) : ReceiverState :=
  if entry.1 < r.nextExpected then r else r.deliver entry.1 entry.2

/-- Sequenced data. -/
def ingestData (r : ReceiverState) (pkt : MoldPacket) : ReceiverState :=
  let firstSeq := pkt.header.sequence
  let count := UInt64.ofNat pkt.blocks.length
  -- a late retransmission
  if firstSeq + count ≤ r.nextExpected then r
  else if firstSeq > r.nextExpected then
    (numbered firstSeq pkt.blocks).foldl (fun r entry => r.stashPending entry.1 entry.2)
      (r.push (.ok (.gap r.nextExpected (firstSeq - 1))))
  else
    ((numbered firstSeq pkt.blocks).foldl deliverNew r).flushPending

/-- The first packet sets the sequence number when none is configured. -/
def bootstrap (r : ReceiverState) (sequence : UInt64) : ReceiverState :=
  if r.bootstrapped then r
  else if r.startSequence = 0 then { r with nextExpected := sequence, bootstrapped := true }
  else { r with bootstrapped := true }

/-- A packet of the session, once the sequence number is set. -/
def ingestBootstrapped (r : ReceiverState) (pkt : MoldPacket) : ReceiverState :=
  if pkt.header.isHeartbeat then r.push (.ok (.heartbeat pkt.header.sequence))
  else if pkt.header.isEndOfSession then
    { r with eos := true }.push (.ok (.endOfSession pkt.header.sequence))
  else r.ingestData pkt

/-- A packet that passed the session check. -/
def ingestSession (r : ReceiverState) (pkt : MoldPacket) : ReceiverState :=
  (r.bootstrap pkt.header.sequence).ingestBootstrapped pkt

/-- Ingest one decoded packet. -/
def ingest (r : ReceiverState) (pkt : MoldPacket) : ReceiverState :=
  match r.session with
  | some expected =>
      if expected ≠ pkt.header.session then
        r.push (.error (.sessionMismatch expected pkt.header.session))
      else r.ingestSession pkt
  | none => { r with session := some pkt.header.session }.ingestSession pkt

end ReceiverState

/-- A frame answered by a request server. -/
structure CachedFrame where
  sequence : UInt64
  body : Bytes
deriving Repr, DecidableEq

/-- The single-block packet a retransmitted frame is wrapped into. -/
def CachedFrame.packet (session : Vector UInt8 10) (f : CachedFrame) :
    Except MoldError MoldPacket := do
  let block ← MessageBlock.new f.body
  MoldPacket.newData session f.sequence [block]

namespace ReceiverState

/-- Ingest a packet, or queue the error that stands in its place. -/
def ingestResult (r : ReceiverState) : Except MoldError MoldPacket → ReceiverState
  | .ok pkt => r.ingest pkt
  | .error err => r.push (.error err)

/-- Feed retransmitted frames as if they had arrived on the multicast feed. -/
def ingestRetransmit (r : ReceiverState) (frames : List CachedFrame) : ReceiverState :=
  -- without a session yet, the empty one padded with spaces
  let session := r.session.getD (Vector.replicate 10 0x20)
  frames.foldl (fun r f => r.ingestResult (f.packet session)) r

end ReceiverState

end Itch
