import Itch.Lib.Framing
import Itch.Protocol.RoundTrip

/-!
# Length-prefix framing over TCP

The plain TCP transport puts a two-byte length in front of each message.  The codec
never gives up on a stream: a body that does not decode costs one error and its own bytes,
and so does an oversized frame, whose bytes are discarded as they arrive.  A framed
connection is therefore a reader of length-prefixed frames.
-/

namespace Itch

open Lib

/-- Errors of the framing layer. -/
inductive TransportError where
  | io
  | protocol (error : ProtocolError)
  | frameTooLarge (got max : Nat)
deriving Repr, DecidableEq

/-- Length-prefix codec. -/
structure ItchCodec where
  /-- Bytes of an oversized frame still to discard. -/
  pendingSkip : Nat
deriving Repr, DecidableEq

namespace ItchCodec

/-- Maximum frame size, length prefix not included. -/
def maxMessageLen : Nat := 1024

def new : ItchCodec where
  pendingSkip := 0

/-- `Message::decode` with its error as a transport error. -/
def decodeMessage (frame : Bytes) : Except TransportError Message :=
  match Message.decode frame with
  | .ok msg => .ok msg
  | .error e => .error (.protocol e)

/-- The part of `decode` after the rest of an oversized frame was discarded. -/
def decodeFrame (c : ItchCodec) (src : Bytes) :
    Except TransportError (Option Message) × ItchCodec × Bytes :=
  match src with
  | hi :: lo :: body =>
      let len := ofBE [hi, lo]
      if len > maxMessageLen then
        let total := 2 + len
        if src.length ≥ total then
          (.error (.frameTooLarge len maxMessageLen), c, src.drop total)
        else (.error (.frameTooLarge len maxMessageLen), { pendingSkip := total - src.length }, [])
      else if src.length < 2 + len then (.ok none, c, src)
      else ((decodeMessage (body.take len)).map some, c, body.drop len)
  | _ => (.ok none, c, src)

/-- Decode the next message of a buffer: the result, the codec and what is left. -/
def decode (c : ItchCodec) (src : Bytes) :
    Except TransportError (Option Message) × ItchCodec × Bytes :=
  if c.pendingSkip > 0 then
    let toDrop := min c.pendingSkip src.length
    let c : ItchCodec := { pendingSkip := c.pendingSkip - toDrop }
    if c.pendingSkip > 0 then (.ok none, c, src.drop toDrop)
    else c.decodeFrame (src.drop toDrop)
  else c.decodeFrame src

/-- What `encode` appends to the buffer. -/
def encode (msg : Message) : Except TransportError Bytes :=
  let total := msg.encodedLen
  if total > maxMessageLen then .error (.frameTooLarge total maxMessageLen)
  else
    -- the body is encoded in place, into `total` zero bytes after the prefix
    match msg.encode (List.replicate total 0) with
    | .ok (_, body) => .ok (toBE 2 total ++ body)
    | .error e => .error (.protocol e)

/-- Encode messages one after another into one buffer. -/
def encodeAll : List Message → Except TransportError Bytes
  | [] => .ok []
  | msg :: msgs => do
      let bytes ← encode msg
      let rest ← encodeAll msgs
      return bytes ++ rest

/-- What a frame yields, by its body. -/
def outcome (body : Bytes) : Except TransportError Message :=
  if body.length > maxMessageLen then .error (.frameTooLarge body.length maxMessageLen)
  else decodeMessage body

/-- The frames of the codec. -/
def format : Framing.Format (Except TransportError Message) where
  limit := maxMessageLen
  tooLarge length := .error (.frameTooLarge length maxMessageLen)
  parse := decodeMessage

/-- The rest of an oversized frame goes first, and the next prefix is read after it. -/
theorem decode_eq (skip : Nat) (src : Bytes) :
    decode { pendingSkip := skip } src =
      if src.length < skip then (.ok none, { pendingSkip := skip - src.length }, [])
      else new.decodeFrame (src.drop skip) := by
  have h := Framing.discard_eq
    (fun skip src => ((.ok none, { pendingSkip := skip }, src) :
      Except TransportError (Option Message) × ItchCodec × Bytes))
    (fun skip src => decodeFrame { pendingSkip := skip } src) skip src
  exact h

/-! ## Encoding -/

theorem encode_eq (msg : Message) : encode msg = .ok (Framing.frame msg.wireImage) := by
  have hlen := msg.encodedLen_le
  rw [encode, if_neg (by simp only [maxMessageLen]; omega), msg.encode_fresh, Framing.frame,
    Message.wireImage_length]

theorem encodeAll_eq (msgs : List Message) :
    encodeAll msgs = .ok (Framing.frames (msgs.map Message.wireImage)) := by
  induction msgs with
  | nil => rfl
  | cons msg msgs ih =>
      rw [encodeAll, encode_eq, ih]
      rfl

/-- A message that fits the wire comes back. -/
theorem outcome_wireImage {msg : Message} (h : msg.FitsWire) : outcome msg.wireImage = .ok msg := by
  have hlen := msg.encodedLen_le
  rw [outcome, Message.wireImage_length, if_neg (by simp only [maxMessageLen]; omega),
    decodeMessage, Message.decode_wireImage, Message.onWire_of_fitsWire h]

end ItchCodec

/-! ## Connections -/

/-- The reading side of a framed socket: the bytes received and not decoded yet. -/
structure ItchConnection where
  codec : ItchCodec
  buffer : Bytes
deriving Repr, DecidableEq

namespace ItchConnection

def new : ItchConnection where
  codec := .new
  buffer := []

/-- More bytes arrive. -/
def receive (conn : ItchConnection) (bytes : Bytes) : ItchConnection :=
  { conn with buffer := conn.buffer ++ bytes }

/-- The next item, or `none` to wait for more bytes. -/
def next (conn : ItchConnection) : Option (Except TransportError Message) × ItchConnection :=
  let result := conn.codec.decode conn.buffer
  (Framing.item result.1, { codec := result.2.1, buffer := result.2.2 })

/-- The connection of a reader of frames. -/
def ofReader (s : Framing.Reader) : ItchConnection where
  codec := { pendingSkip := s.skip }
  buffer := s.buffer

/-- Once nothing is left to discard, `decode` reads a frame. -/
theorem decodeFrame_eq (src : Bytes) :
    (Framing.item (ItchCodec.new.decodeFrame src).1,
      ({ codec := (ItchCodec.new.decodeFrame src).2.1,
         buffer := (ItchCodec.new.decodeFrame src).2.2 } : ItchConnection)) =
    ((ItchCodec.format.readFrame src).1, ofReader (ItchCodec.format.readFrame src).2) := by
  match src with
  | [] => rfl
  | [_] => rfl
  | hi :: lo :: body =>
      rw [ItchCodec.decodeFrame, Framing.Format.readFrame]
      by_cases hlarge : ofBE [hi, lo] > ItchCodec.maxMessageLen
      · rw [if_pos hlarge, if_pos (show ItchCodec.format.limit < _ from hlarge)]
        by_cases hall : (hi :: lo :: body).length ≥ 2 + ofBE [hi, lo]
        · simp only [if_pos hall]
          rfl
        · simp only [if_neg hall]
          rfl
      · rw [if_neg hlarge, if_neg (show ¬ ItchCodec.format.limit < _ from hlarge)]
        by_cases hwait : (hi :: lo :: body).length < 2 + ofBE [hi, lo]
        · rw [if_pos hwait, if_pos hwait]
          rfl
        · rw [if_neg hwait, if_neg hwait, Framing.item_map_some]
          rfl

/-- A framed connection is a reader of frames. -/
theorem next_ofReader (s : Framing.Reader) :
    (ofReader s).next = ((ItchCodec.format.next s).1, ofReader (ItchCodec.format.next s).2) := by
  rw [next, ofReader, Framing.Format.next, ItchCodec.decode_eq]
  split
  next => rfl
  next => exact decodeFrame_eq _

theorem receive_ofReader (s : Framing.Reader) (bytes : Bytes) :
    (ofReader s).receive bytes = ofReader (s.receive bytes) := rfl

theorem feeds_iff {bodies : List Bytes} (hbodies : ∀ b ∈ bodies, b.length < 65536)
    {chunks : List Bytes} (hcut : chunks.flatten = Framing.frames bodies)
    {results : List (Except TransportError Message)} {conn : ItchConnection} :
    Framing.Feeds next receive new chunks results conn ↔
      results = bodies.map ItchCodec.outcome ∧ conn = new := by
  have hfeeds : Framing.Feeds next receive new chunks (bodies.map ItchCodec.outcome) new :=
    (Framing.feeds_frames (F := ItchCodec.format) hbodies hcut).map (f := ofReader)
      next_ofReader receive_ofReader
  constructor
  · exact fun h => h.unique hfeeds
  · rintro ⟨rfl, rfl⟩
    exact hfeeds

/-- However a stream of frames is cut into chunks, reading it gives exactly one message or one
error per frame, in frame order, and leaves no byte behind.  In particular messages that
are encoded one after another come back as they were, however the bytes are cut. -/
theorem chunks_give_messages :
    (∀ bodies : List Bytes, (∀ b ∈ bodies, b.length < 65536) →
      ∀ chunks : List Bytes, chunks.flatten = Framing.frames bodies →
      ∀ results conn, Framing.Feeds next receive new chunks results conn ↔
        results = bodies.map ItchCodec.outcome ∧ conn = new) ∧
    (∀ msgs : List Message, (∀ m ∈ msgs, m.FitsWire) →
      ∃ bytes, ItchCodec.encodeAll msgs = .ok bytes ∧
        ∀ chunks : List Bytes, chunks.flatten = bytes →
        ∀ results conn, Framing.Feeds next receive new chunks results conn ↔
          results = msgs.map .ok ∧ conn = new) := by
  refine ⟨fun bodies hbodies chunks hcut results conn => feeds_iff hbodies hcut,
    fun msgs hfits => ⟨_, ItchCodec.encodeAll_eq msgs, fun chunks hcut results conn => ?_⟩⟩
  have hbodies : ∀ b ∈ msgs.map Message.wireImage, b.length < 65536 := by
    intro b hb
    obtain ⟨msg, -, rfl⟩ := List.mem_map.mp hb
    have hlen := msg.encodedLen_le
    rw [Message.wireImage_length]
    omega
  have hback : (msgs.map Message.wireImage).map ItchCodec.outcome = msgs.map .ok := by
    rw [List.map_map]
    exact List.map_congr_left fun msg hm => ItchCodec.outcome_wireImage (hfits msg hm)
  rw [feeds_iff hbodies hcut, hback]

/-- A frame without a tag, an unknown tag and a delete, then the delete as it is encoded, byte
by byte. -/
theorem chunks_give_messages_bytewise :
    Framing.Feeds next receive new
      ((Framing.frames [[], [0x7A], Message.sampleDelete.wireImage]).map fun b => [b])
      [.error (.protocol (.truncated 1 0)), .error (.protocol (.unknownMessageType 0x7A)),
        .ok Message.sampleDelete] new ∧
    ∃ bytes, ItchCodec.encodeAll [Message.sampleDelete] = .ok bytes ∧
      Framing.Feeds next receive new (bytes.map fun b => [b]) [.ok Message.sampleDelete] new := by
  have hdelete : Message.sampleDelete.FitsWire := by decide
  obtain ⟨bytes, hbytes, hback⟩ := chunks_give_messages.2 [Message.sampleDelete]
    (by simpa using hdelete)
  exact ⟨(chunks_give_messages.1 [[], [0x7A], Message.sampleDelete.wireImage] (by decide +kernel) _
    (List.flatMap_singleton' _) _ _).mpr ⟨by decide +kernel, rfl⟩,
    bytes, hbytes, (hback _ (List.flatMap_singleton' bytes) _ _).mpr ⟨rfl, rfl⟩⟩

end ItchConnection

end Itch
