import Itch.Lib.Framing
import Itch.Soup.Framing

/-!
# Chunks

A stream of frames reaches the codec in chunks of any size, and the codec is polled until
it has nothing after each.  A cut can fall inside a length prefix, inside the payload of
an oversized frame, or between the two.  The codec is a reader of length-prefixed frames,
with a zero-length frame one of those that are read and found bad; so it gives one packet
or one error per frame, however the stream is cut.
-/

namespace Itch

open Lib

namespace SoupCodec

/-- What a frame yields, by its body: the tag and the payload of a packet. -/
def outcome (body : Bytes) : Except SoupError SoupPacket :=
  if body.length = 0 then .error (.frameTooLarge 2 maxMessageLen)
  else if 2 + body.length > maxMessageLen then
    .error (.frameTooLarge (2 + body.length) maxMessageLen)
  else decodePacket (body.headD 0) body.tail

/-- The frames of the codec. -/
def format : Framing.Format (Except SoupError SoupPacket) where
  limit := maxMessageLen - 2
  tooLarge length := .error (.frameTooLarge (2 + length) maxMessageLen)
  parse body :=
    if body.length = 0 then .error (.frameTooLarge 2 maxMessageLen)
    else decodePacket (body.headD 0) body.tail

theorem limit_lt_iff {length : Nat} : format.limit < length ↔ 2 + length > maxMessageLen := by
  simp only [format, maxMessageLen]
  omega

theorem format_outcome (body : Bytes) : format.outcome body = outcome body := by
  rw [Framing.Format.outcome, outcome]
  by_cases hzero : body.length = 0
  · rw [if_neg (by rw [limit_lt_iff, hzero]; decide), if_pos hzero]
    exact if_pos hzero
  · rw [if_neg hzero]
    by_cases hlarge : 2 + body.length > maxMessageLen
    · rw [if_pos (limit_lt_iff.mpr hlarge), if_pos hlarge]
      rfl
    · rw [if_neg (mt limit_lt_iff.mp hlarge), if_neg hlarge]
      exact if_neg hzero

/-- The rest of an oversized packet goes first, and the next prefix is read after it. -/
theorem decode_eq (skip : Nat) (src : Bytes) :
    decode { pendingSkip := skip } src =
      if src.length < skip then (.ok none, { pendingSkip := skip - src.length }, [])
      else new.decodeFrame (src.drop skip) := by
  have h := Framing.discard_eq
    (fun skip src => ((.ok none, { pendingSkip := skip }, src) :
      Except SoupError (Option SoupPacket) × SoupCodec × Bytes))
    (fun skip src => decodeFrame { pendingSkip := skip } src) skip src
  exact h

end SoupCodec

namespace Framed

theorem next_eq (f : Framed) :
    f.next = (Framing.item (f.codec.decode f.buffer).1,
      { codec := (f.codec.decode f.buffer).2.1, buffer := (f.codec.decode f.buffer).2.2 }) := by
  rw [next]
  rcases f.codec.decode f.buffer with ⟨_ | _ | p, codec, buffer⟩ <;> rfl

/-- The framed stream of a reader of frames. -/
def ofReader (s : Framing.Reader) : Framed where
  codec := { pendingSkip := s.skip }
  buffer := s.buffer

/-- Once nothing is left to discard, `decode` reads a frame. -/
theorem decodeFrame_eq (src : Bytes) :
    (Framing.item (SoupCodec.new.decodeFrame src).1,
      ({ codec := (SoupCodec.new.decodeFrame src).2.1,
         buffer := (SoupCodec.new.decodeFrame src).2.2 } : Framed)) =
    ((SoupCodec.format.readFrame src).1, ofReader (SoupCodec.format.readFrame src).2) := by
  match src with
  | [] => rfl
  | [_] => rfl
  | hi :: lo :: body =>
      rw [SoupCodec.decodeFrame, Framing.Format.readFrame]
      by_cases hzero : ofBE [hi, lo] = 0
      · rw [if_pos hzero, if_neg (by rw [SoupCodec.limit_lt_iff, hzero]; decide),
          if_neg (by rw [hzero]; simp), hzero]
        rfl
      · rw [if_neg hzero]
        by_cases hlarge : 2 + ofBE [hi, lo] > maxMessageLen
        · rw [if_pos hlarge, if_pos (SoupCodec.limit_lt_iff.mpr hlarge)]
          split <;> rfl
        · rw [if_neg hlarge, if_neg (mt SoupCodec.limit_lt_iff.mp hlarge)]
          by_cases hwait : (hi :: lo :: body).length < 2 + ofBE [hi, lo]
          · rw [if_pos hwait, if_pos hwait]
            rfl
          · have hbody : (body.take (ofBE [hi, lo])).length ≠ 0 := by
              simp only [List.length_cons] at hwait
              rw [List.length_take]
              omega
            rw [if_neg hwait, if_neg hwait, Framing.item_map_some]
            simp only [SoupCodec.format, if_neg hbody]
            rfl

/-- A framed stream is a reader of frames. -/
theorem next_ofReader (s : Framing.Reader) :
    (ofReader s).next = ((SoupCodec.format.next s).1, ofReader (SoupCodec.format.next s).2) := by
  rw [next_eq, ofReader, Framing.Format.next, SoupCodec.decode_eq]
  split
  next => rfl
  next => exact decodeFrame_eq _

theorem receive_ofReader (s : Framing.Reader) (bytes : Bytes) :
    (ofReader s).receive bytes = ofReader (s.receive bytes) := rfl

/-- However a stream of frames is cut into chunks, reading it gives exactly one packet or one
error per frame, in frame order, and leaves no byte behind: the results are those of the
stream in one piece, and each depends on its own frame only. -/
theorem chunks_give_outcomes (bodies : List Bytes) (hbodies : ∀ b ∈ bodies, b.length < 65536)
    (chunks : List Bytes) (hcut : chunks.flatten = Framing.frames bodies)
    (results : List (Except SoupError SoupPacket)) (f : Framed) :
    (Framing.Feeds next receive new chunks results f ↔
      results = bodies.map SoupCodec.outcome ∧ f = new) ∧
    (Framing.Feeds next receive new [Framing.frames bodies] results f ↔
      Framing.Feeds next receive new chunks results f) := by
  have hfeeds : ∀ chunks : List Bytes, chunks.flatten = Framing.frames bodies →
      Framing.Feeds next receive new chunks (bodies.map SoupCodec.outcome) new := by
    intro chunks hcut
    have h := (Framing.feeds_frames (F := SoupCodec.format) hbodies hcut).map (f := ofReader)
      next_ofReader receive_ofReader
    rwa [funext SoupCodec.format_outcome] at h
  have hiff : ∀ chunks : List Bytes, chunks.flatten = Framing.frames bodies →
      (Framing.Feeds next receive new chunks results f ↔
        results = bodies.map SoupCodec.outcome ∧ f = new) := by
    intro chunks hcut
    constructor
    · exact fun h => h.unique (hfeeds chunks hcut)
    · rintro ⟨rfl, rfl⟩
      exact hfeeds chunks hcut
  exact ⟨hiff chunks hcut,
    (hiff [Framing.frames bodies] (by simp)).trans (hiff chunks hcut).symm⟩

/-- A heartbeat, a frame without a tag, an unknown tag, an oversized frame and the end of the
session. -/
def badFrames : List Bytes :=
  [[0x48], [], [0x58], List.replicate 1023 0, [0x5A]]

theorem chunks_give_outcomes_bytewise :
    Framing.Feeds next receive new ((Framing.frames badFrames).map fun b => [b])
      [.ok .serverHeartbeat, .error (.frameTooLarge 2 1024), .error (.unknownPacketType 0x58),
        .error (.frameTooLarge 1025 1024), .ok .endOfSession] new :=
  (chunks_give_outcomes badFrames (by decide +kernel) _
    (List.flatMap_singleton' (Framing.frames badFrames)) _ _).1.mpr ⟨by decide +kernel, rfl⟩

end Framed

end Itch
