import Itch.Lib.BinarySearch
import Itch.Mold.Publisher

/-!
# The retransmission service

The request server answers a request for some sequence numbers with the frames its cache
holds from the first of them on.  A request has 12 bytes, and the answer has a header with
a status and the number of frames and then each frame with a length in front.  The numbers
of the frames are not on the wire: the client counts them from the one it asked for.

A connection is the bytes on their way in each direction.  A party that reads waits until
all the bytes it needs are there.
-/

namespace Itch

open Lib

def statusOk : UInt32 := 0x00000000

/-- The cache only had the first frames. -/
def statusHole : UInt32 := 0xFFFFFFFE

/-- The range is past the last cached number and the publisher has stopped. -/
def statusEndOfSession : UInt32 := 0xFFFFFFFF

/-- Wire size of a request. -/
def requestFrameLen : Nat := 12

/-- Wire size of the header of a response. -/
def responseHeaderLen : Nat := 8

/-- Hard cap on the frames of a response. -/
def maxResponseFrames : Nat := 65536

namespace RequestServer

namespace RingBufferSeqStore

/-- The loop of `lookup` over the frames from the start on, with `cap` still to come. -/
def lookupLoop : Nat → UInt64 → List CachedFrame → List CachedFrame
  | 0, _, _ => []
  | _, _, [] => []
  | cap + 1, nextExpected, f :: frames =>
      if f.sequence ≠ nextExpected then []
      else f :: lookupLoop cap (Word64.saturatingSucc nextExpected) frames

/-- Consecutive frames from a sequence number on. -/
def lookup (c : RingBufferSeqStore) (startSeq : UInt64) (count : UInt32) : List CachedFrame :=
  match binarySearchByKey c.inner startSeq.toNat fun f : CachedFrame => f.sequence.toNat with
  | .error _ => []
  | .ok idx => lookupLoop (min count.toNat maxResponseFrames) startSeq (c.inner.drop idx)

def firstSequence (c : RingBufferSeqStore) : Option UInt64 :=
  c.inner.head?.map CachedFrame.sequence

def lastSequence (c : RingBufferSeqStore) : Option UInt64 :=
  c.inner.getLast?.map CachedFrame.sequence

/-- The status of an answer with some frames.  The sum wraps, as in a release build. -/
def statusFor (c : RingBufferSeqStore) (startSeq : UInt64) (count framesReturned : UInt32) :
    UInt32 :=
  let asked := min count.toNat maxResponseFrames
  if framesReturned.toNat = asked then statusOk
  else
    match c.lastSequence with
    | some last =>
        if startSeq > last && c.eos then statusEndOfSession
        else if Word64.saturatingAdd startSeq asked > last + 1 && c.eos then statusEndOfSession
        else statusHole
    | none => if c.eos then statusEndOfSession else statusHole

end RingBufferSeqStore

/-! ## The server -/

/-- The frames of a response.  The body of each has to fit a block. -/
def writeFrames : List CachedFrame → Except MoldError Bytes
  | [] => .ok []
  | f :: frames =>
      if f.body.length > maxBlockLen then .error (.blockTooLarge f.body.length maxBlockLen)
      else (writeFrames frames).map (toBE 2 f.body.length ++ f.body ++ ·)

def writeResponse (status : UInt32) (frames : List CachedFrame) : Except MoldError Bytes :=
  (writeFrames frames).map (toBE 4 status.toNat ++ toBE 4 frames.length ++ ·)

/-- The response to the bytes of a request. -/
def respond (cache : RingBufferSeqStore) (buf : Bytes) : Except MoldError Bytes :=
  let sequence := UInt64.ofNat (ofBE (buf.take 8))
  let count := UInt32.ofNat (ofBE (buf.drop 8))
  if count = 0 then writeResponse statusOk []
  else
    let frames := cache.lookup sequence count
    writeResponse (cache.statusFor sequence count (UInt32.ofNat frames.length)) frames

/-- The bytes of a connection on their way. -/
structure Connection where
  toServer : Bytes
  toClient : Bytes
deriving Repr, DecidableEq

def Connection.new : Connection where
  toServer := []
  toClient := []

/-- A turn of the loop of `serve_conn`, with the cache as it is found then; `none` waits for
the rest of a request.  An error ends the connection. -/
def serveConn (cache : RingBufferSeqStore) (conn : Connection) :
    Option (Except MoldError Connection) :=
  if conn.toServer.length < requestFrameLen then none
  else some ((respond cache (conn.toServer.take requestFrameLen)).map fun out =>
    { toServer := conn.toServer.drop requestFrameLen
      toClient := conn.toClient ++ out })

end RequestServer

/-! ## The client -/

structure RequestResponse where
  status : UInt32
  frames : List CachedFrame
deriving Repr, DecidableEq

namespace RequestClient

open RequestServer (Connection RingBufferSeqStore serveConn)

/-- `read_exact`; `none` waits for more bytes. -/
def readExact (count : Nat) (stream : Bytes) : Option (Bytes × Bytes) :=
  if stream.length < count then none else some (stream.take count, stream.drop count)

/-- The announced number of frames, with the bytes that follow them. -/
def readFrames : Nat → UInt64 → Bytes → Option (Except MoldError (List CachedFrame) × Bytes)
  | 0, _, stream => some (.ok [], stream)
  | count + 1, nextSeq, stream => do
      let (lenBuf, stream) ← readExact 2 stream
      let len := ofBE lenBuf
      if len = 0 then return (.error .emptyBlock, stream)
      if len > maxBlockLen then return (.error (.blockTooLarge len maxBlockLen), stream)
      let (body, stream) ← readExact len stream
      let (frames, stream) ← readFrames count (Word64.saturatingSucc nextSeq) stream
      return (frames.map ({ sequence := nextSeq, body := body } :: ·), stream)

def readResponse (sequence : UInt64) (stream : Bytes) :
    Option (Except MoldError RequestResponse × Bytes) := do
  let (hdr, stream) ← readExact responseHeaderLen stream
  let status := UInt32.ofNat (ofBE (hdr.take 4))
  let frameCount := ofBE (hdr.drop 4)
  if frameCount > maxResponseFrames then
    return (.error (.blockTooLarge frameCount maxResponseFrames), stream)
  let (frames, stream) ← readFrames frameCount sequence stream
  return (frames.map fun frames => { status := status, frames := frames }, stream)

/-- The bytes of a request. -/
def requestFrame (sequence : UInt64) (count : UInt32) : Bytes :=
  toBE 8 sequence.toNat ++ toBE 4 count.toNat

/-- Send a request and read the response.  `none` waits for one of the parties for ever. -/
def request (cache : RingBufferSeqStore) (conn : Connection) (sequence : UInt64)
    (count : UInt32) : Option (Except MoldError RequestResponse × Connection) :=
  let sent := { conn with toServer := conn.toServer ++ requestFrame sequence count }
  match serveConn cache sent with
  | none => none
  -- the server shuts the connection down
  | some (.error _) => some (.error .io, sent)
  | some (.ok served) =>
      (readResponse sequence served.toClient).map fun (response, stream) =>
        (response, { served with toClient := stream })

/-- A request with the cache at the time it is answered. -/
structure Call where
  cache : RingBufferSeqStore
  sequence : UInt64
  count : UInt32

/-- Requests on one connection, one after the other. -/
def requests : Connection → List Call →
    Option (List (Except MoldError RequestResponse) × Connection)
  | conn, [] => some ([], conn)
  | conn, call :: calls => do
      let (response, conn) ← request call.cache conn call.sequence call.count
      let (responses, conn) ← requests conn calls
      return (response :: responses, conn)

end RequestClient

end Itch
