import Itch.Lib.BigEndian
import Itch.Lib.Except
import Itch.Protocol.Messages

/-!
# MoldUDP64 downstream packets

A packet is a 20-byte header, with the session, the sequence number of the first
message and the message count, and then one length-prefixed block per message.  The
counts `0` and `0xFFFF` are reserved for heartbeats and for end of session; such
packets have no blocks and their sequence number is the next one the publisher will
send.
-/

namespace Itch

open Lib

structure SocketAddr where
  ip : Bytes
  port : UInt16
deriving Repr, DecidableEq

/-- Errors raised by the codec, the receiver, the publisher and gap recovery. -/
inductive MoldError where
  | io
  | protocol (error : ProtocolError)
  | truncated (need got : Nat)
  | bufferTooSmall (need got : Nat)
  | blockTooLarge (got max : Nat)
  | emptyBlock
  | trailingBytes (extra : Nat)
  | tooManyBlocks (got : Nat)
  | sessionMismatch (expected got : Vector UInt8 10)
  | pendingBufferFull (size : Nat)
  | requestTimeout (server : SocketAddr) (seq : UInt64)
  | sourceExhausted
  | peerSilent
deriving Repr, DecidableEq

/-- Fixed wire size of the header. -/
def headerLen : Nat := 20

/-- Wire size of the length prefix of a block. -/
def blockLenPrefix : Nat := 2

/-- The message count of a heartbeat. -/
def msgCountHeartbeat : UInt16 := 0

/-- The message count of an end-of-session packet. -/
def msgCountEndOfSession : UInt16 := 0xFFFF

/-- Hard cap on a single block. -/
def maxBlockLen : Nat := 1024

structure MoldPacketHeader where
  /-- Session identifier, padded with spaces on the right. -/
  session : Vector UInt8 10
  /-- Sequence number of the first message of the packet. -/
  sequence : UInt64
  messageCount : UInt16
deriving Repr, DecidableEq

namespace MoldPacketHeader

def fromBytes (buf : Bytes) : Except MoldError MoldPacketHeader :=
  if buf.length < headerLen then .error (.truncated headerLen buf.length)
  else .ok {
    session := Vector.ofFn fun i => buf.getD i 0
    sequence := UInt64.ofNat (ofBE ((buf.drop 10).take 8))
    messageCount := UInt16.ofNat (ofBE ((buf.drop 18).take 2)) }

def isHeartbeat (h : MoldPacketHeader) : Bool :=
  h.messageCount == msgCountHeartbeat

def isEndOfSession (h : MoldPacketHeader) : Bool :=
  h.messageCount == msgCountEndOfSession

end MoldPacketHeader

/-- One block: an encoded inner message. -/
structure MessageBlock where
  data : Bytes
deriving Repr, DecidableEq

def MessageBlock.new (data : Bytes) : Except MoldError MessageBlock :=
  if data.isEmpty then .error .emptyBlock
  else if data.length > maxBlockLen then .error (.blockTooLarge data.length maxBlockLen)
  else .ok { data := data }

structure MoldPacket where
  header : MoldPacketHeader
  blocks : List MessageBlock
deriving Repr, DecidableEq

namespace MoldPacket

/-- A sequenced packet.  The count must fit the header field below the reserved value. -/
def newData (session : Vector UInt8 10) (sequence : UInt64) (blocks : List MessageBlock) :
    Except MoldError MoldPacket :=
  if blocks.length ≥ 2 ^ 16 then .error (.tooManyBlocks blocks.length)
  else
    let count := UInt16.ofNat blocks.length
    if count = msgCountEndOfSession then .error (.tooManyBlocks blocks.length)
    else .ok {
      header := { session := session, sequence := sequence, messageCount := count }
      blocks := blocks }

/-- The announced number of blocks, with the bytes that follow them. -/
def decodeBlocks : Nat → Bytes → Except MoldError (List MessageBlock × Bytes)
  | 0, cursor => .ok ([], cursor)
  | count + 1, hi :: lo :: cursor => do
      let blockLen := ofBE [hi, lo]
      if blockLen = 0 then throw .emptyBlock
      if blockLen > maxBlockLen then throw (.blockTooLarge blockLen maxBlockLen)
      if cursor.length < blockLen then throw (.truncated blockLen cursor.length)
      let (blocks, rest) ← decodeBlocks count (cursor.drop blockLen)
      return ({ data := cursor.take blockLen } :: blocks, rest)
  | _ + 1, cursor => .error (.truncated blockLenPrefix cursor.length)

def decode (buf : Bytes) : Except MoldError MoldPacket := do
  let header ← MoldPacketHeader.fromBytes buf
  let cursor := buf.drop headerLen
  if header.isHeartbeat || header.isEndOfSession then
    if !cursor.isEmpty then throw (.trailingBytes cursor.length)
    return { header := header, blocks := [] }
  let (blocks, cursor) ← decodeBlocks header.messageCount.toNat cursor
  if !cursor.isEmpty then throw (.trailingBytes cursor.length)
  return { header := header, blocks := blocks }

/-! ## What the constructors accept -/

/-- The blocks fit the cap of the codec. -/
def BlocksFit (pkt : MoldPacket) : Prop :=
  ∀ b ∈ pkt.blocks, b.data.length ≤ maxBlockLen

end MoldPacket

theorem MessageBlock.new_eq_ok {data : Bytes} {b : MessageBlock} (h : new data = .ok b) :
    b.data = data ∧ data.length ≤ maxBlockLen := by
  unfold MessageBlock.new at h
  split at h
  next => cases h
  next =>
    split at h
    next => cases h
    next hlen =>
      cases h
      exact ⟨rfl, Nat.le_of_not_lt hlen⟩

namespace MoldPacket

theorem newData_eq_ok {session : Vector UInt8 10} {sequence : UInt64}
    {blocks : List MessageBlock} {pkt : MoldPacket}
    (h : newData session sequence blocks = .ok pkt) :
    pkt.header.session = session ∧ pkt.header.sequence = sequence ∧ pkt.blocks = blocks ∧
      pkt.header.messageCount.toNat = blocks.length ∧
      pkt.header.isEndOfSession = false := by
  unfold newData at h
  split at h
  next => cases h
  next hlen =>
    dsimp only at h
    split at h
    next => cases h
    next hcount =>
      cases h
      refine ⟨rfl, rfl, rfl, UInt16.toNat_ofNat_of_lt' (Nat.lt_of_not_le hlen), ?_⟩
      simpa [MoldPacketHeader.isEndOfSession] using hcount

end MoldPacket

end Itch
