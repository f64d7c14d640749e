import Itch.Soup.Packet

/-!
# Framing

What the codec writes for a packet, it reads back; and it waits on every proper part of a
frame.  So a stream of frames cut at any byte yields the packets that are complete, in
order, and nothing else.
-/

namespace Itch

open Lib

/-! ## Fields -/

theorem length_padRight (src : Text) (width : Nat) : (padRight src width).length = width := by
  simp only [padRight, List.length_append, List.length_take, List.length_replicate]
  omega

theorem length_padLeft (src : Text) (width : Nat) : (padLeft src width).length = width := by
  unfold padLeft
  split
  next h =>
    rw [List.length_drop]
    omega
  next h =>
    simp only [List.length_append, List.length_replicate]
    omega

theorem length_encodeAsciiU64 (value : UInt64) : (encodeAsciiU64 value).length = 20 := by
  have hle : (Decimal.digits 20 value.toNat).length ≤ 20 :=
    Decimal.length_digits_le (by decide) value.toNat
  simp only [encodeAsciiU64, List.length_append, List.length_replicate]
  omega

/-- A sequence number survives the wire. -/
theorem decodeAsciiU64_encodeAsciiU64 (value : UInt64) :
    decodeAsciiU64 (encodeAsciiU64 value) = .ok value := by
  have hlt : value.toNat < 2 ^ 64 := value.toNat_lt
  have hwidth : value.toNat < 10 ^ 20 := hlt.trans (by decide)
  have hread : Decimal.read (2 ^ 64) 0 (Decimal.digits 20 value.toNat) = .ok value.toNat :=
    Decimal.read_digits hwidth hlt
  have hspace : ∀ b ∈ Decimal.digits 20 value.toNat, b ≠ 0x20 := by
    intro b hb heq
    have hdigit := Decimal.isDigit_of_mem_digits b hb
    rw [heq] at hdigit
    exact absurd hdigit (by decide)
  have htrim := Text.trimSpaces_pad (Text.trimmed_of_no_space hspace)
    (20 - (Decimal.digits 20 value.toNat).length) 0
  rw [List.replicate_zero, List.append_nil] at htrim
  rw [decodeAsciiU64, encodeAsciiU64, htrim, if_neg (by simpa using Decimal.digits_ne_nil hwidth), hread]
  exact congrArg Except.ok (UInt64.ofNat_toNat)

theorem length_writePayload (p : SoupPacket) : (writePayload p).length = p.payloadLen := by
  cases p with
  | loginRequest req =>
      simp [writePayload, length_padRight, length_padLeft, length_encodeAsciiU64,
        SoupPacket.payloadLen, loginRequestPayloadLen]
  | loginAccepted acc =>
      simp [writePayload, length_padLeft, length_encodeAsciiU64, SoupPacket.payloadLen,
        loginAcceptedPayloadLen]
  | _ => rfl

/-! ## Packets -/

namespace SoupPacket

/-- The packet as the peer reads it: the text fields lose their padding and what does not
fit. -/
def onWire : SoupPacket → SoupPacket
  | loginRequest req => loginRequest {
      username := readAnum (padRight req.username 6)
      password := readAnum (padRight req.password 10)
      requestedSession := readAnum (padLeft req.requestedSession 10)
      requestedSequence := req.requestedSequence }
  | loginAccepted acc => loginAccepted {
      session := readAnum (padLeft acc.session 10)
      sequence := acc.sequence }
  | p => p

/-- The bytes of a packet. -/
def frame (p : SoupPacket) : Bytes :=
  toBE 2 (1 + p.payloadLen) ++ [p.tag] ++ writePayload p

/-- The codec takes the packet. -/
def Fits (p : SoupPacket) : Prop :=
  p.encodedLen ≤ maxMessageLen

theorem length_frame (p : SoupPacket) : p.frame.length = p.encodedLen := by
  simp only [frame, encodedLen, List.length_append, toBE_length, List.length_singleton,
    length_writePayload]

end SoupPacket

theorem SoupCodec.encode_eq {p : SoupPacket} (h : p.Fits) (dst : Bytes) :
    SoupCodec.encode p dst = (.ok (), dst ++ p.frame) := by
  rw [SoupCodec.encode, if_neg (Nat.not_lt.mpr h), SoupPacket.frame, List.append_assoc,
    List.append_assoc, List.append_assoc]

theorem decodePacket_loginRequest (req : LoginRequest) :
    decodePacket 0x4C (writePayload (.loginRequest req)) =
      .ok (SoupPacket.loginRequest req).onWire := by
  have hlen : _ = loginRequestPayloadLen := length_writePayload (.loginRequest req)
  have hnumber := decodeAsciiU64_encodeAsciiU64 req.requestedSequence
  have hu := length_padRight req.username 6
  have hp := length_padRight req.password 10
  have hs := length_padLeft req.requestedSession 10
  have hn := length_encodeAsciiU64 req.requestedSequence
  have h26 : ((writePayload (.loginRequest req)).drop 26).take 20 =
      encodeAsciiU64 req.requestedSequence := by
    rw [writePayload, List.drop_left' (by simp [hu, hp, hs]), List.take_of_length_le hn.le]
  have h16 : ((writePayload (.loginRequest req)).drop 16).take 10 =
      padLeft req.requestedSession 10 := by
    rw [writePayload, List.append_assoc, List.drop_left' (by simp [hu, hp]), List.take_left' hs]
  have h6 : ((writePayload (.loginRequest req)).drop 6).take 10 = padRight req.password 10 := by
    rw [writePayload, List.append_assoc, List.append_assoc, List.drop_left' hu,
      List.take_left' hp]
  have h0 : (writePayload (.loginRequest req)).take 6 = padRight req.username 6 := by
    rw [writePayload, List.append_assoc, List.append_assoc, List.take_left' hu]
  show (do
    ensureLen 0x4C (writePayload (.loginRequest req)) loginRequestPayloadLen
    let requestedSequence ← decodeAsciiU64 (((writePayload (.loginRequest req)).drop 26).take 20)
    return SoupPacket.loginRequest {
      username := readAnum ((writePayload (.loginRequest req)).take 6)
      password := readAnum (((writePayload (.loginRequest req)).drop 6).take 10)
      requestedSession := readAnum (((writePayload (.loginRequest req)).drop 16).take 10)
      requestedSequence := requestedSequence }) = _
  rw [ensureLen, if_pos hlen, h26, hnumber, h16, h6, h0]
  rfl

theorem decodePacket_loginAccepted (acc : LoginAccepted) :
    decodePacket 0x41 (writePayload (.loginAccepted acc)) =
      .ok (SoupPacket.loginAccepted acc).onWire := by
  have hlen : _ = loginAcceptedPayloadLen := length_writePayload (.loginAccepted acc)
  have hnumber := decodeAsciiU64_encodeAsciiU64 acc.sequence
  have hs := length_padLeft acc.session 10
  have hn := length_encodeAsciiU64 acc.sequence
  have h10 : ((writePayload (.loginAccepted acc)).drop 10).take 20 =
      encodeAsciiU64 acc.sequence := by
    rw [writePayload, List.drop_left' hs, List.take_of_length_le hn.le]
  have h0 : (writePayload (.loginAccepted acc)).take 10 = padLeft acc.session 10 := by
    rw [writePayload, List.take_left' hs]
  show (do
    ensureLen 0x41 (writePayload (.loginAccepted acc)) loginAcceptedPayloadLen
    let sequence ← decodeAsciiU64 (((writePayload (.loginAccepted acc)).drop 10).take 20)
    return SoupPacket.loginAccepted {
      session := readAnum ((writePayload (.loginAccepted acc)).take 10)
      sequence := sequence }) = _
  rw [ensureLen, if_pos hlen, h10, hnumber, h0]
  rfl

/-- A payload is read back. -/
theorem decodePacket_writePayload (p : SoupPacket) :
    decodePacket p.tag (writePayload p) = .ok p.onWire := by
  cases p with
  | loginRequest req => exact decodePacket_loginRequest req
  | loginAccepted acc => exact decodePacket_loginAccepted acc
  | loginRejected reason => cases reason <;> rfl
  | _ => rfl

/-! ## Frames -/

namespace SoupCodec

/-- The codec with nothing to discard, which is how it stays on frames that fit. -/
theorem decode_new (src : Bytes) : decode new src = decodeFrame new src := rfl

theorem frame_eq_cons {p : SoupPacket} (h : p.Fits) :
    ∃ hi lo, p.frame = hi :: lo :: (p.tag :: writePayload p) ∧
      ofBE [hi, lo] = 1 + p.payloadLen := by
  have hfits : 1 + p.payloadLen < 256 ^ 2 := by
    simp only [SoupPacket.Fits, SoupPacket.encodedLen, maxMessageLen] at h
    omega
  have hback := ofBE_toBE_of_lt hfits
  match hbytes : toBE 2 (1 + p.payloadLen), toBE_length 2 (1 + p.payloadLen) with
  | [hi, lo], _ =>
      refine ⟨hi, lo, ?_, hbytes ▸ hback⟩
      rw [SoupPacket.frame, hbytes]
      rfl

/-- A complete frame yields its packet and leaves what follows. -/
theorem decode_frame {p : SoupPacket} (h : p.Fits) (rest : Bytes) :
    decode new (p.frame ++ rest) = (.ok (some p.onWire), new, rest) := by
  obtain ⟨hi, lo, hframe, hlength⟩ := frame_eq_cons h
  have hlen := length_writePayload p
  have hfits : 2 + (1 + p.payloadLen) ≤ maxMessageLen := by
    simp only [SoupPacket.Fits, SoupPacket.encodedLen] at h
    omega
  have htake : (p.tag :: (writePayload p ++ rest)).take (1 + p.payloadLen) =
      p.tag :: writePayload p := by
    rw [← List.cons_append, List.take_left' (by simp [hlen, Nat.add_comm])]
  have hdrop : (p.tag :: (writePayload p ++ rest)).drop (1 + p.payloadLen) = rest := by
    rw [← List.cons_append, List.drop_left' (by simp [hlen, Nat.add_comm])]
  rw [decode_new, hframe]
  simp only [List.cons_append, decodeFrame, hlength]
  rw [if_neg (by omega), if_neg (by omega), if_neg (by simp [hlen]; omega), htake, hdrop,
    List.headD_cons, List.tail_cons, decodePacket_writePayload]
  rfl

/-- On a proper part of a frame the codec waits. -/
theorem decode_part {p : SoupPacket} (h : p.Fits) {part : Bytes} (hpart : part <+: p.frame)
    (hlt : part.length < p.frame.length) : decode new part = (.ok none, new, part) := by
  obtain ⟨hi, lo, hframe, hlength⟩ := frame_eq_cons h
  have hlen := p.length_frame
  obtain ⟨rest, hrest⟩ := hpart
  rw [decode_new]
  match part, hrest, hlt with
  | [], _, _ => rfl
  | [b], _, _ => rfl
  | b₀ :: b₁ :: body, hrest, hlt =>
      rw [hframe, List.cons_append, List.cons_append] at hrest
      obtain ⟨rfl, htail⟩ := List.cons.inj hrest
      obtain ⟨rfl, -⟩ := List.cons.inj htail
      simp only [SoupPacket.Fits] at h
      simp only [SoupPacket.encodedLen] at h hlen
      simp only [decodeFrame, hlength]
      rw [if_neg (by omega), if_neg (by omega), if_pos (by omega)]

end SoupCodec

/-! ## The stream of a connection -/

/-- The bytes of a list of packets. -/
def wire (packets : List SoupPacket) : Bytes :=
  packets.flatMap SoupPacket.frame

@[simp] theorem wire_nil : wire [] = [] := rfl

@[simp] theorem wire_cons (p : SoupPacket) (ps : List SoupPacket) :
    wire (p :: ps) = p.frame ++ wire ps := rfl

theorem wire_append (ps qs : List SoupPacket) : wire (ps ++ qs) = wire ps ++ wire qs :=
  List.flatMap_append

/-- The reading side of a framed socket: the bytes received and not decoded yet. -/
structure Framed where
  codec : SoupCodec
  buffer : Bytes
deriving Repr, DecidableEq

namespace Framed

def new : Framed where
  codec := .new
  buffer := []

/-- More bytes arrive. -/
def receive (f : Framed) (bytes : Bytes) : Framed :=
  { f with buffer := f.buffer ++ bytes }

/-- The next item, or `none` to wait for more bytes. -/
def next (f : Framed) : Option (Except SoupError SoupPacket) × Framed :=
  match f.codec.decode f.buffer with
  | (.ok none, codec, buffer) => (none, { codec := codec, buffer := buffer })
  | (.ok (some p), codec, buffer) => (some (.ok p), { codec := codec, buffer := buffer })
  | (.error e, codec, buffer) => (some (.error e), { codec := codec, buffer := buffer })

/-- The next item once the peer has closed: what is left of a frame is an I/O error, and
`none` is the end of the stream. -/
def nextAtEnd (f : Framed) : Option (Except SoupError SoupPacket) × Framed :=
  match f.next with
  | (none, f) => if f.buffer.isEmpty then (none, f) else (some (.error .io), f)
  | (some item, f) => (some item, f)

/-- Poll the socket, whose peer has closed or not; `none` to wait. -/
def poll (f : Framed) (atEnd : Bool) : Option (Option (Except SoupError SoupPacket) × Framed) :=
  if atEnd then some f.nextAtEnd
  else match f.next with
    | (none, _) => none
    | (some item, f) => some (some item, f)

/-- What can be read from a stream of frames that was cut somewhere. -/
theorem next_cut {buffer : Bytes} {packets : List SoupPacket}
    (hfits : ∀ p ∈ packets, p.Fits) (h : buffer <+: wire packets) :
    next { codec := .new, buffer := buffer } = (none, { codec := .new, buffer := buffer }) ∨
    ∃ p rest buffer', packets = p :: rest ∧ buffer = p.frame ++ buffer' ∧
      buffer' <+: wire rest ∧
      next { codec := .new, buffer := buffer } =
        (some (.ok p.onWire), { codec := .new, buffer := buffer' }) := by
  cases packets with
  | nil =>
      left
      rw [List.prefix_nil.mp h]
      rfl
  | cons p rest =>
      have hp := hfits p List.mem_cons_self
      rw [wire_cons] at h
      by_cases hlt : buffer.length < p.frame.length
      · left
        have hpart := List.prefix_of_prefix_length_le h (List.prefix_append _ _) hlt.le
        rw [next, SoupCodec.decode_part hp hpart hlt]
      · right
        have hpart := List.prefix_of_prefix_length_le (List.prefix_append _ _) h
          (Nat.le_of_not_lt hlt)
        obtain ⟨buffer', rfl⟩ := hpart
        refine ⟨p, rest, buffer', rfl, rfl, (List.prefix_append_right_inj _).mp h, ?_⟩
        rw [next, SoupCodec.decode_frame hp]

/-- What polling such a stream yields: nothing complete, so the end or an I/O error, or the
next packet. -/
theorem poll_cut {buffer : Bytes} {packets : List SoupPacket} {atEnd : Bool}
    {item : Option (Except SoupError SoupPacket)} {framed : Framed}
    (hfits : ∀ p ∈ packets, p.Fits) (h : buffer <+: wire packets)
    (hpoll : poll { codec := .new, buffer := buffer } atEnd = some (item, framed)) :
    (item = none ∨ item = some (.error .io)) ∨
    ∃ p rest buffer', packets = p :: rest ∧ buffer = p.frame ++ buffer' ∧
      item = some (.ok p.onWire) ∧ framed = { codec := .new, buffer := buffer' } := by
  rcases next_cut hfits h with hnext | ⟨p, rest, buffer', hcons, hbuffer, -, hnext⟩
  · left
    cases atEnd with
    | true =>
        simp only [poll, if_true, nextAtEnd, hnext, Option.some.injEq] at hpoll
        split at hpoll
        next =>
          cases hpoll
          exact .inl rfl
        next =>
          cases hpoll
          exact .inr rfl
    | false =>
        simp only [poll, hnext] at hpoll
        cases hpoll
  · right
    refine ⟨p, rest, buffer', hcons, hbuffer, ?_⟩
    cases atEnd with
    | true =>
        simp only [poll, if_true, nextAtEnd, hnext, Option.some.injEq] at hpoll
        cases hpoll
        exact ⟨rfl, rfl⟩
    | false =>
        simp only [poll, hnext] at hpoll
        cases hpoll
        exact ⟨rfl, rfl⟩

end Framed

end Itch
