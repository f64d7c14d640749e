import Itch.Lib.BigEndian
import Itch.Lib.Decimal
import Itch.Lib.Text
import Itch.Protocol.Messages

/-!
# SoupBinTCP packets and their framing

A packet goes over the wire as a two-byte length, a type tag and a payload; the length
counts the tag and the payload.  Text is held as its UTF-8 bytes.
-/

namespace Itch

open Lib

/-- A string, as its UTF-8 bytes. -/
abbrev Text := Bytes

/-- The reason of a rejected login. -/
inductive LoginRejectReason where
  | notAuthorized
  | sessionUnavailable
deriving Repr, DecidableEq

inductive SoupError where
  | io
  | protocol (error : ProtocolError)
  | frameTooLarge (got max : Nat)
  | unknownPacketType (tag : UInt8)
  | badPayloadLength (tag : UInt8) (expected got : Nat)
  | loginRejected (reason : LoginRejectReason)
  | sessionEnded
  | sessionMismatch (requested got : Text)
  | prematureClose
  | unexpectedHandshakePacket (tag : UInt8)
  | loginTimeout
  | soupFraming (reason : String)
deriving Repr, DecidableEq

namespace LoginRejectReason

def toByte : LoginRejectReason → UInt8
  | notAuthorized => 0x41
  | sessionUnavailable => 0x53

def fromByte (b : UInt8) : Except SoupError LoginRejectReason :=
  if b = 0x41 then .ok notAuthorized
  else if b = 0x53 then .ok sessionUnavailable
  else .error (.protocol (.invalidEnumCode "LoginRejectReason" b))

end LoginRejectReason

structure LoginRequest where
  username : Text
  password : Text
  /-- Empty for the current session. -/
  requestedSession : Text
  /-- `0` for the most recent message. -/
  requestedSequence : UInt64
deriving Repr, DecidableEq

structure LoginAccepted where
  session : Text
  /-- Sequence number of the next sequenced message. -/
  sequence : UInt64
deriving Repr, DecidableEq

inductive SoupPacket where
  | debug (payload : Bytes)
  | loginRequest (request : LoginRequest)
  | loginAccepted (accepted : LoginAccepted)
  | loginRejected (reason : LoginRejectReason)
  | sequencedData (payload : Bytes)
  | unsequencedData (payload : Bytes)
  | serverHeartbeat
  | clientHeartbeat
  | endOfSession
  | logoutRequest
deriving Repr, DecidableEq

/-- Maximum wire length of a packet, length prefix included. -/
def maxMessageLen : Nat := 1024

def loginRequestPayloadLen : Nat := 6 + 10 + 10 + 20

def loginAcceptedPayloadLen : Nat := 10 + 20

def loginRejectedPayloadLen : Nat := 1

namespace SoupPacket

def tag : SoupPacket → UInt8
  | debug _ => 0x2B
  | loginRequest _ => 0x4C
  | loginAccepted _ => 0x41
  | loginRejected _ => 0x4A
  | sequencedData _ => 0x53
  | unsequencedData _ => 0x55
  | serverHeartbeat => 0x48
  | clientHeartbeat => 0x52
  | endOfSession => 0x5A
  | logoutRequest => 0x4F

def payloadLen : SoupPacket → Nat
  | debug p | sequencedData p | unsequencedData p => p.length
  | loginRequest _ => loginRequestPayloadLen
  | loginAccepted _ => loginAcceptedPayloadLen
  | loginRejected _ => loginRejectedPayloadLen
  | serverHeartbeat | clientHeartbeat | endOfSession | logoutRequest => 0

def encodedLen (p : SoupPacket) : Nat :=
  2 + 1 + p.payloadLen

end SoupPacket

/-! ## ASCII fields -/

/-- Padded with spaces on the right, or cut after `width` bytes. -/
def padRight (src : Text) (width : Nat) : Bytes :=
  src.take width ++ List.replicate (width - src.length) 0x20

/-- Padded with spaces on the left, or cut to the last `width` bytes. -/
def padLeft (src : Text) (width : Nat) : Bytes :=
  if src.length ≥ width then src.drop (src.length - width)
  else List.replicate (width - src.length) 0x20 ++ src

def readAnum (src : Bytes) : Text :=
  Text.lossy (Text.trimSpaces src)

/-- A number in 20 bytes, padded with spaces on the left. -/
def encodeAsciiU64 (value : UInt64) : Bytes :=
  let digits := Decimal.digits 20 value.toNat
  List.replicate (20 - digits.length) 0x20 ++ digits

def decodeAsciiU64 (src : Bytes) : Except SoupError UInt64 :=
  let trimmed := Text.trimSpaces src
  if trimmed.isEmpty then .ok 0
  else match Decimal.read (2 ^ 64) 0 trimmed with
    | .ok value => .ok (UInt64.ofNat value)
    | .error b => .error (.protocol (.invalidEnumCode "SoupAsciiNumber" b))

/-! ## Codec -/

def writePayload : SoupPacket → Bytes
  | .debug p | .sequencedData p | .unsequencedData p => p
  | .loginRequest req =>
      padRight req.username 6 ++ padRight req.password 10 ++ padLeft req.requestedSession 10
        ++ encodeAsciiU64 req.requestedSequence
  | .loginAccepted acc => padLeft acc.session 10 ++ encodeAsciiU64 acc.sequence
  | .loginRejected reason => [reason.toByte]
  | .serverHeartbeat | .clientHeartbeat | .endOfSession | .logoutRequest => []

def ensureLen (tag : UInt8) (payload : Bytes) (expected : Nat) : Except SoupError Unit :=
  if payload.length = expected then .ok ()
  else .error (.badPayloadLength tag expected payload.length)

def decodePacket (tag : UInt8) (payload : Bytes) : Except SoupError SoupPacket :=
  match Char.ofUInt8 tag with
  | '+' => .ok (.debug payload)
  | 'L' => do
      ensureLen tag payload loginRequestPayloadLen
      let requestedSequence ← decodeAsciiU64 ((payload.drop 26).take 20)
      return .loginRequest {
        username := readAnum (payload.take 6)
        password := readAnum ((payload.drop 6).take 10)
        requestedSession := readAnum ((payload.drop 16).take 10)
        requestedSequence := requestedSequence }
  | 'A' => do
      ensureLen tag payload loginAcceptedPayloadLen
      let sequence ← decodeAsciiU64 ((payload.drop 10).take 20)
      return .loginAccepted { session := readAnum (payload.take 10), sequence := sequence }
  | 'J' => do
      ensureLen tag payload loginRejectedPayloadLen
      let reason ← LoginRejectReason.fromByte (payload.headD 0)
      return .loginRejected reason
  | 'S' => .ok (.sequencedData payload)
  | 'U' => .ok (.unsequencedData payload)
  | 'H' => do ensureLen tag payload 0; return .serverHeartbeat
  | 'R' => do ensureLen tag payload 0; return .clientHeartbeat
  | 'Z' => do ensureLen tag payload 0; return .endOfSession
  | 'O' => do ensureLen tag payload 0; return .logoutRequest
  | _ => .error (.unknownPacketType tag)

/-- Framing codec. -/
structure SoupCodec where
  /-- Bytes of an oversized packet still to discard. -/
  pendingSkip : Nat
deriving Repr, DecidableEq

namespace SoupCodec

def new : SoupCodec where
  pendingSkip := 0

/-- The result, and the buffer after it. -/
def encode (p : SoupPacket) (dst : Bytes) : Except SoupError Unit × Bytes :=
  if p.encodedLen > maxMessageLen then (.error (.frameTooLarge p.encodedLen maxMessageLen), dst)
  else (.ok (), dst ++ toBE 2 (1 + p.payloadLen) ++ [p.tag] ++ writePayload p)

/-- The part of `decode` after the rest of an oversized packet was discarded. -/
def decodeFrame (c : SoupCodec) (src : Bytes) :
    Except SoupError (Option SoupPacket) × SoupCodec × Bytes :=
  match src with
  | hi :: lo :: body =>
      let length := ofBE [hi, lo]
      let total := 2 + length
      if length = 0 then (.error (.frameTooLarge 2 maxMessageLen), c, body)
      else if total > maxMessageLen then
        if src.length ≥ total then
          (.error (.frameTooLarge total maxMessageLen), c, src.drop total)
        else (.error (.frameTooLarge total maxMessageLen), { pendingSkip := total - src.length }, [])
      else if src.length < total then (.ok none, c, src)
      else
        let frame := body.take length
        ((decodePacket (frame.headD 0) frame.tail).map some, c, body.drop length)
  | _ => (.ok none, c, src)

/-- Decode the next packet of a buffer: the result, the codec and what is left. -/
def decode (c : SoupCodec) (src : Bytes) :
    Except SoupError (Option SoupPacket) × SoupCodec × Bytes :=
  if c.pendingSkip > 0 then
    let toDrop := min c.pendingSkip src.length
    let c : SoupCodec := { pendingSkip := c.pendingSkip - toDrop }
    if c.pendingSkip > 0 then (.ok none, c, src.drop toDrop)
    else c.decodeFrame (src.drop toDrop)
  else c.decodeFrame src

end SoupCodec

end Itch
