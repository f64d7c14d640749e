import Itch.Compressed.Payload
import Itch.Lib.PollStream
import Itch.Lib.Word64

/-!
# The compressed stream

A connection decompresses the payload of a packet into a buffer that it keeps, with a
cursor, across polls, and hands out the messages in it before it reads the next packet.  A
message that does not decode drops the rest of the buffer, so that nothing of a packet is
left when the next one is read.
-/

namespace Itch

open Lib

/-- A compressed session after its login. -/
structure CompressedSoupConnection where
  /-- The decompressed payload of the current packet. -/
  scratch : Bytes
  /-- Where the next message starts in it. -/
  cursor : Nat
  session : Text
  /-- Sequence number of the next message. -/
  expectedSequence : UInt64
  /-- The end of the session was reported. -/
  sessionEnded : Bool
deriving Repr, DecidableEq

/-- What the framed socket answers to a poll; `none` is the end of the stream. -/
inductive SocketPoll where
  | pending
  | ready (item : Option (Except SoupError SoupPacket))
deriving DecidableEq

namespace CompressedSoupConnection

/-- A session that was just accepted. -/
def new (session : Text) (sequence : UInt64) : CompressedSoupConnection where
  scratch := []
  cursor := 0
  session := session
  expectedSequence := sequence
  sessionEnded := false

/-- The next message of the buffer, `none` at its end. -/
def drainOneMessage (c : CompressedSoupConnection) :
    Except CompressedError (Option Message) × CompressedSoupConnection :=
  if c.scratch.length ≤ c.cursor then (.ok none, c)
  else match Message.decode (c.scratch.drop c.cursor) with
    | .ok msg =>
        (.ok (some msg), { c with
          cursor := c.cursor + msg.encodedLen
          expectedSequence := Word64.saturatingSucc c.expectedSequence })
    | .error e => (.error (.protocol e), { c with scratch := [], cursor := 0 })

/-- What a packet is to the stream; `none` to go round the loop again. -/
def onPacket (z : Zstd) (c : CompressedSoupConnection) (p : SoupPacket) :
    Option (Except CompressedError Message) × CompressedSoupConnection :=
  match p with
  | .sequencedData payload =>
      match decompressInto z payload c.scratch with
      | (.ok _, scratch) => (none, { c with scratch, cursor := 0 })
      | (.error e, _) => (some (.error e), { c with scratch := [], cursor := 0 })
  | .endOfSession => (some (.error (.soup .sessionEnded)), { c with sessionEnded := true })
  | .serverHeartbeat | .debug _ => (none, c)
  | .loginAccepted _ | .loginRejected _ =>
      (some (.error (.soup (.unexpectedHandshakePacket p.tag))), c)
  | .loginRequest _ | .unsequencedData _ | .clientHeartbeat | .logoutRequest =>
      (some (.error (.soup (.soupFraming "client-direction packet on a server stream"))), c)

/-- The loop of `poll_next`, over what the socket answers. -/
def pollLoop (z : Zstd) (c : CompressedSoupConnection) (polls : List SocketPoll) :
    Option (Option (Except CompressedError Message)) ×
      CompressedSoupConnection × List SocketPoll :=
  match c.drainOneMessage with
  | (.ok (some msg), c) => (some (some (.ok msg)), c, polls)
  | (.error e, c) => (some (some (.error e)), c, polls)
  | (.ok none, c) =>
      match polls with
      | [] => (none, c, [])
      | .pending :: polls => (none, c, polls)
      | .ready none :: polls => (some none, c, polls)
      | .ready (some (.error e)) :: polls => (some (some (.error (.soup e))), c, polls)
      | .ready (some (.ok p)) :: polls =>
          match c.onPacket z p with
          | (some result, c) => (some (some result), c, polls)
          | (none, c) => pollLoop z c polls

def pollNext (z : Zstd) : CompressedSoupConnection × List SocketPoll →
    Option (Option (Except CompressedError Message)) ×
      CompressedSoupConnection × List SocketPoll
  | (c, polls) => if c.sessionEnded then (some none, c, polls) else pollLoop z c polls

/-! ## Packets -/

/-- What a packet of the feed yields: one error if its payload is not the whole frame of a
payload that is not too large, and else the messages it starts with, as far as they decode,
with one error if that is not all of it. -/
inductive PacketItems (z : Zstd) : SoupPacket → List (Except CompressedError Message) → Prop
  | heartbeat : PacketItems z .serverHeartbeat []
  | debug (text : Bytes) : PacketItems z (.debug text) []
  | rejected {payload : Bytes} {e : CompressedError} :
      decompressed z payload = .error e → PacketItems z (.sequencedData payload) [.error e]
  | complete {payload : Bytes} {messages : List Message} :
      decompressed z payload = .ok (wireImages messages) → (∀ m ∈ messages, m.FitsWire) →
      PacketItems z (.sequencedData payload) (messages.map .ok)
  | cut {payload rest : Bytes} {messages : List Message} {e : ProtocolError} :
      decompressed z payload = .ok (wireImages messages ++ rest) →
      (∀ m ∈ messages, m.FitsWire) → rest ≠ [] → Message.decode rest = .error e →
      PacketItems z (.sequencedData payload) (messages.map .ok ++ [.error (.protocol e)])

theorem PacketItems.eq_of_rejected {z : Zstd} {payload : Bytes} {e : CompressedError}
    {items : List (Except CompressedError Message)}
    (h : PacketItems z (.sequencedData payload) items)
    (hrejected : decompressed z payload = .error e) : items = [.error e] := by
  cases h with
  | rejected he => rw [Except.error.inj (he.symm.trans hrejected)]
  | complete hok => cases hok.symm.trans hrejected
  | cut hok => cases hok.symm.trans hrejected

/-- A packet of data, or one that is passed over. -/
def FeedPacket : SoupPacket → Prop
  | .sequencedData _ | .serverHeartbeat | .debug _ => True
  | _ => False

/-- The socket delivers the packets and then its end, however often it is polled too
early. -/
def Delivers (packets : List SoupPacket) (polls : List SocketPoll) : Prop :=
  polls.filter (· ≠ .pending) =
    packets.map (fun p => .ready (some (.ok p))) ++ [.ready none]

/-! ## The buffer -/

/-- The session goes on and `data` is what is left in the buffer. -/
structure Holds (c : CompressedSoupConnection) (data : Bytes) : Prop where
  live : c.sessionEnded = false
  left : c.scratch.drop c.cursor = data

theorem holds_new (session : Text) (sequence : UInt64) : (new session sequence).Holds [] :=
  ⟨rfl, rfl⟩

theorem drainOneMessage_nil {c : CompressedSoupConnection} (h : c.Holds []) :
    c.drainOneMessage = (.ok none, c) :=
  if_pos (List.drop_eq_nil_iff.mp h.left)

theorem Holds.cursor_lt {c : CompressedSoupConnection} {data : Bytes} (h : c.Holds data)
    (hne : data ≠ []) : ¬c.scratch.length ≤ c.cursor := fun hle =>
  hne (h.left.symm.trans (List.drop_eq_nil_iff.mpr hle))

/-- A message is taken out of the buffer. -/
theorem drainOneMessage_message {c : CompressedSoupConnection} {m : Message} {rest : Bytes}
    (h : c.Holds (m.wireImage ++ rest)) (hm : m.FitsWire) :
    ∃ c', c.drainOneMessage = (.ok (some m), c') ∧ c'.Holds rest := by
  have hlt := h.cursor_lt (by simp [Message.wireImage])
  refine ⟨{ c with
    cursor := c.cursor + m.encodedLen
    expectedSequence := Word64.saturatingSucc c.expectedSequence }, ?_, h.live, ?_⟩
  · rw [drainOneMessage, if_neg hlt, h.left, decode_wireImage_append hm]
  · rw [← List.drop_drop, h.left, drop_wireImage_append]

/-- What does not decode empties the buffer. -/
theorem drainOneMessage_error {c : CompressedSoupConnection} {rest : Bytes} {e : ProtocolError}
    (h : c.Holds rest) (hne : rest ≠ []) (he : Message.decode rest = .error e) :
    ∃ c', c.drainOneMessage = (.error (.protocol e), c') ∧ c'.Holds [] :=
  ⟨{ c with scratch := [], cursor := 0 },
    by rw [drainOneMessage, if_neg (h.cursor_lt hne), h.left, he], h.live, rfl⟩

/-! ## The stream -/

section

variable {z : Zstd}

theorem pollNext_of_holds {c : CompressedSoupConnection} {data : Bytes} (h : c.Holds data)
    (polls : List SocketPoll) : pollNext z (c, polls) = pollLoop z c polls := by
  rw [pollNext, if_neg (by simp [h.live])]

/-- Every connection with `data` in its buffer yields `items` from what the socket
answers. -/
def Emits (z : Zstd) (data : Bytes) (polls : List SocketPoll)
    (items : List (Except CompressedError Message)) : Prop :=
  ∀ c : CompressedSoupConnection, c.Holds data → Yields (pollNext z) (c, polls) items

variable {polls : List SocketPoll} {items : List (Except CompressedError Message)}

theorem emits_message {m : Message} {rest : Bytes} (hm : m.FitsWire)
    (h : Emits z rest polls items) : Emits z (m.wireImage ++ rest) polls (.ok m :: items) := by
  intro c hc
  obtain ⟨c', hdrain, hc'⟩ := drainOneMessage_message hc hm
  exact .item (by rw [pollNext_of_holds hc, pollLoop.eq_def, hdrain]) (h c' hc')

theorem emits_messages {messages : List Message} {rest : Bytes}
    (hfits : ∀ m ∈ messages, m.FitsWire) (h : Emits z rest polls items) :
    Emits z (wireImages messages ++ rest) polls (messages.map .ok ++ items) := by
  induction messages with
  | nil => exact h
  | cons m messages ih =>
      obtain ⟨hm, hfits⟩ := List.forall_mem_cons.mp hfits
      rw [wireImages_cons, List.append_assoc]
      exact emits_message hm (ih hfits)

theorem emits_error {rest : Bytes} {e : ProtocolError} (hne : rest ≠ [])
    (he : Message.decode rest = .error e) (h : Emits z [] polls items) :
    Emits z rest polls (.error (.protocol e) :: items) := by
  intro c hc
  obtain ⟨c', hdrain, hc'⟩ := drainOneMessage_error hc hne he
  exact .item (by rw [pollNext_of_holds hc, pollLoop.eq_def, hdrain]) (h c' hc')

theorem emits_pending (h : Emits z [] polls items) : Emits z [] (.pending :: polls) items := by
  intro c hc
  exact .pending (by rw [pollNext_of_holds hc, pollLoop, drainOneMessage_nil hc]) (h c hc)

theorem emits_end : Emits z [] (.ready none :: polls) [] := by
  intro c hc
  exact .done (by rw [pollNext_of_holds hc, pollLoop, drainOneMessage_nil hc])

/-- A packet that puts `data` in the buffer is followed by what is yielded of it. -/
theorem emits_packet {p : SoupPacket} {data : Bytes} (h : Emits z data polls items)
    (hp : ∀ c : CompressedSoupConnection, c.Holds [] →
      ∃ c', c.onPacket z p = (none, c') ∧ c'.Holds data) :
    Emits z [] (.ready (some (.ok p)) :: polls) items := by
  intro c hc
  obtain ⟨c', hpacket, hc'⟩ := hp c hc
  refine Yields.of_poll_eq ?_ (h c' hc')
  rw [pollNext_of_holds hc, pollNext_of_holds hc', pollLoop, drainOneMessage_nil hc]
  simp only [hpacket]

theorem emits_rejected {payload : Bytes} {e : CompressedError}
    (he : decompressed z payload = .error e) (h : Emits z [] polls items) :
    Emits z [] (.ready (some (.ok (.sequencedData payload))) :: polls) (.error e :: items) := by
  intro c hc
  have hpacket : c.onPacket z (.sequencedData payload) =
      (some (.error e), { c with scratch := [], cursor := 0 }) := by
    rcases decompressInto_eq (z := z) payload c.scratch with ⟨data, hok, -⟩ | ⟨e', he', hinto⟩
    · cases hok.symm.trans he
    · obtain rfl : e' = e := Except.error.inj (he'.symm.trans he)
      rw [onPacket]
      rcases hd : decompressInto z payload c.scratch with ⟨r, scratch⟩
      rw [hd] at hinto
      rw [show r = .error e' from hinto]
  refine .item ?_ (h { c with scratch := [], cursor := 0 } ⟨hc.live, rfl⟩)
  rw [pollNext_of_holds hc, pollLoop, drainOneMessage_nil hc]
  simp only [hpacket]

/-- The data of a packet replaces what an earlier one left in the buffer. -/
theorem emits_payload {payload data : Bytes} (hdata : decompressed z payload = .ok data)
    (h : Emits z data polls items) :
    Emits z [] (.ready (some (.ok (.sequencedData payload))) :: polls) items := by
  refine emits_packet h fun c hc => ?_
  rcases decompressInto_eq (z := z) payload c.scratch with ⟨data', hok, hinto⟩ | ⟨e, he, -⟩
  · obtain rfl : data' = data := Except.ok.inj (hok.symm.trans hdata)
    exact ⟨{ c with scratch := data', cursor := 0 }, by rw [onPacket, hinto], hc.live, rfl⟩
  · cases he.symm.trans hdata

/-- A packet of the feed yields its own items, whatever follows it. -/
theorem exists_packetItems (p : SoupPacket) (hp : FeedPacket p) :
    ∃ own, PacketItems z p own ∧ ∀ polls items, Emits z [] polls items →
      Emits z [] (.ready (some (.ok p)) :: polls) (own ++ items) := by
  match p, hp with
  | .serverHeartbeat, _ =>
      exact ⟨[], .heartbeat, fun _ _ h => emits_packet h fun c hc => ⟨c, rfl, hc⟩⟩
  | .debug text, _ =>
      exact ⟨[], .debug text, fun _ _ h => emits_packet h fun c hc => ⟨c, rfl, hc⟩⟩
  | .sequencedData payload, _ =>
      rcases hdata : decompressed z payload with e | data
      · exact ⟨[.error e], .rejected hdata, fun _ _ => emits_rejected hdata⟩
      obtain ⟨messages, rest, rfl, hfits, rfl | ⟨hne, e, he⟩⟩ := exists_wireImages_append data
      · refine ⟨_, .complete (by rw [hdata, List.append_nil]) hfits, fun _ _ h => ?_⟩
        exact emits_payload hdata (emits_messages hfits h)
      · refine ⟨_, .cut hdata hfits hne he, fun _ _ h => ?_⟩
        rw [List.append_assoc]
        exact emits_payload hdata (emits_messages hfits (emits_error hne he h))

theorem delivers_pending {packets : List SoupPacket} {polls : List SocketPoll} :
    Delivers packets (.pending :: polls) ↔ Delivers packets polls := by
  simp [Delivers]

/-- If each packet yields its own items, a feed yields those of its packets. -/
theorem emits_feed {itemsOf : SoupPacket → List (Except CompressedError Message)}
    (hitems : ∀ p, FeedPacket p → ∀ polls items, Emits z [] polls items →
      Emits z [] (.ready (some (.ok p)) :: polls) (itemsOf p ++ items))
    {packets : List SoupPacket} {polls : List SocketPoll}
    (hfeed : ∀ p ∈ packets, FeedPacket p) (hpolls : Delivers packets polls) :
    Emits z [] polls (packets.flatMap itemsOf) := by
  induction polls generalizing packets with
  | nil => simp [Delivers] at hpolls
  | cons poll polls ih =>
      cases poll with
      | pending => exact emits_pending (ih hfeed (delivers_pending.mp hpolls))
      | ready item =>
          cases packets with
          | nil =>
              obtain ⟨rfl, -⟩ : item = none ∧ _ := by simpa [Delivers] using hpolls
              exact emits_end
          | cons p packets =>
              obtain ⟨rfl, hafter⟩ : item = some (.ok p) ∧ Delivers packets polls := by
                simpa [Delivers] using hpolls
              obtain ⟨hp, hfeed⟩ := List.forall_mem_cons.mp hfeed
              exact hitems p hp polls _ (ih hfeed hafter)

end

/-- Decoding a compressed feed is exact.  What was compressed is decompressed to itself, and
a payload of too many bytes is rejected.  The stream of a connection is the concatenation of
what each packet yields, which is a function of the packet alone. -/
theorem compressed_feed_exact (z : Zstd) (hz : z.Inverts) :
    (∀ (messages : List Message) (level : Int32), (∀ m ∈ messages, m.FitsWire) →
      (messages.map Message.encodedLen).sum ≤ maxDecompressedLen →
      (∃ kind, z.encodeAll (wireImages messages) level = .error kind) ∨
      ∃ compressed, compressMessages z messages level = .ok compressed ∧
        decompressMessages z compressed = .ok messages) ∧
    (∀ payload dst : Bytes, maxDecompressedLen < (z.output payload).length →
      (decompressInto z payload dst).1 =
        .error (.compression "zstd output exceeds MAX_DECOMPRESSED_LEN")) ∧
    ∃ itemsOf : SoupPacket → List (Except CompressedError Message),
      (∀ p, FeedPacket p → PacketItems z p (itemsOf p)) ∧
      ∀ (c : CompressedSoupConnection) (packets : List SoupPacket) (polls : List SocketPoll),
        c.Holds [] → (∀ p ∈ packets, FeedPacket p) → Delivers packets polls →
        ∀ items, Yields (pollNext z) (c, polls) items ↔ items = packets.flatMap itemsOf := by
  refine ⟨?_, ?_, ?_⟩
  · intro messages level hfits hlen
    have hcompress := compressMessages_eq z messages level
    rcases hlib : z.encodeAll (wireImages messages) level with kind | compressed
    · exact .inl ⟨kind, rfl⟩
    · rw [hlib] at hcompress
      exact .inr ⟨compressed, hcompress,
        decompressMessages_compressMessages hz hfits hlen hlib⟩
  · intro payload dst hover
    have hrejected := decompressed_of_overflows hover
    rcases decompressInto_eq (z := z) payload dst with ⟨data, hok, -⟩ | ⟨e, he, hinto⟩
    · cases hok.symm.trans hrejected
    · rw [hinto, Except.error.inj (he.symm.trans hrejected)]
  · choose! itemsOf hspec hitems using exists_packetItems (z := z)
    refine ⟨itemsOf, hspec, fun c packets polls hc hfeed hpolls items => ?_⟩
    have hstream := emits_feed hitems hfeed hpolls c hc
    exact ⟨fun h => h.unique hstream, fun h => h ▸ hstream⟩

/-- A frame of the library below: a mark, and the data as it is. -/
def storedFrame (data : Bytes) : Bytes :=
  0x28 :: data

/-- A library that stores the data behind a mark and refuses everything else. -/
def stored : Zstd where
  encodeAll data _ := .ok (storedFrame data)
  copyDecode
    | 0x28 :: data => ([data], none)
    | [] => ([], some .unexpectedEof)
    | _ => ([], some .invalidData)

theorem stored_inverts : stored.Inverts := by
  intro data level frame h
  cases h
  exact ⟨List.flatten_singleton, rfl⟩

/-- A payload that is no frame yields its error, and the frame after it is read. -/
theorem compressed_feed_exact_stored :
    (∃ compressed, compressMessages stored [Message.sampleDelete] 3 = .ok compressed ∧
      decompressMessages stored compressed = .ok [Message.sampleDelete]) ∧
    ∃ items, Yields (pollNext stored) (new [] 1, [
      .ready (some (.ok (.sequencedData [0x7A]))), .pending,
      .ready (some (.ok (.sequencedData (storedFrame Message.sampleDelete.wireImage)))),
      .ready none]) (.error (.compression "zstd invalid data") :: items) := by
  obtain ⟨hround, -, itemsOf, hspec, hstream⟩ := compressed_feed_exact stored stored_inverts
  have hrejected : decompressed stored [0x7A] = .error (.compression "zstd invalid data") := by
    decide +kernel
  have hfirst := (hspec (.sequencedData [0x7A]) trivial).eq_of_rejected hrejected
  refine ⟨(hround _ 3 (by decide) (by decide)).resolve_left ?_,
    itemsOf (.sequencedData (storedFrame Message.sampleDelete.wireImage)), (hstream (new [] 1)
      [.sequencedData [0x7A], .sequencedData (storedFrame Message.sampleDelete.wireImage)] _
      (holds_new [] 1) (by simp [FeedPacket]) ?_ _).mpr ?_⟩
  · rintro ⟨kind, hkind⟩
    cases hkind
  · rfl
  · rw [List.flatMap_cons, List.flatMap_singleton, hfirst]
    rfl

end CompressedSoupConnection

end Itch
