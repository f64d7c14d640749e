import Itch.Lib.Framing
import Itch.Protocol.RoundTrip
import Itch.Replay.Capture
import Itch.Tcp.Codec

/-!
# Replay of a capture that is read without errors

However the reader cuts the capture, a read of so many bytes gets them, finds the end, or is
cut short by it.  So an iterator reads back what was written, and since every item takes at
least one byte it comes to an end on any input.

A Glimpse frame beyond the limit is reported with its payload still unread, and what follows
is read from there.
-/

namespace Itch

open Lib

namespace MessageIterator

variable {R : Type} [Read String R] {S : R → Bytes → Prop} {it : MessageIterator R}
  {bytes got : Bytes} {n turns : Nat}

/-! ## One read -/

/-- What a read of `n` bytes does where the reader has `bytes` left. -/
inductive ReadsFrom (S : R → Bytes → Prop) (format : CaptureFormat) (bytes : Bytes) (n : Nat) :
    Except ReplayError (Option Bytes) × MessageIterator R → Prop where
  | full {it : MessageIterator R} : n ≤ bytes.length → S it.reader (bytes.drop n) →
      it.format = format → ReadsFrom S format bytes n (.ok (some (bytes.take n)), it)
  | ended {it : MessageIterator R} : bytes = [] → 0 < n → S it.reader [] →
      it.format = format → ReadsFrom S format bytes n (.ok none, it)
  | cut {it : MessageIterator R} {offset : UInt64} {msg : String} : bytes ≠ [] →
      bytes.length < n → S it.reader [] → it.format = format →
      ReadsFrom S format bytes n (.error (.truncated offset msg), it)

theorem take_overwrite {buf got piece : Bytes} (h : buf.take got.length = got) :
    (overwrite buf got.length piece).take (got ++ piece).length = got ++ piece := by
  rw [overwrite, h, List.take_left]

theorem length_overwrite {buf piece : Bytes} {off : Nat} (h : off + piece.length ≤ buf.length) :
    (overwrite buf off piece).length = buf.length := by
  simp only [overwrite, List.length_append, List.length_take, List.length_drop]
  omega

omit [Read String R] in
theorem filled_of_serves (h : S it.reader bytes) (hgot : it.buf.take got.length = got) :
    ReadsFrom S it.format (got ++ bytes) got.length (it.filled got.length) := by
  have hlen : got.length ≤ (got ++ bytes).length := by
    rw [List.length_append]
    omega
  have hrest : S it.reader ((got ++ bytes).drop got.length) := by rwa [List.drop_left]
  have hfull : ReadsFrom S it.format (got ++ bytes) got.length
      (.ok (some ((got ++ bytes).take got.length)),
        { it with offset := it.offset + UInt64.ofNat got.length }) := .full hlen hrest rfl
  rw [List.take_left] at hfull
  rw [filled, hgot]
  exact hfull

/-- The loop, with `got` in the buffer already. -/
theorem readLoop_of_serves (hS : Serves S) (h : S it.reader bytes)
    (hgot : it.buf.take got.length = got) (hle : got.length ≤ n) (hturns : n ≤ got.length + turns)
    (hbuf : n ≤ it.buf.length) :
    ReadsFrom S it.format (got ++ bytes) n (readLoop n turns got.length it) := by
  induction turns generalizing it got bytes with
  | zero =>
      obtain rfl : got.length = n := by omega
      exact filled_of_serves h hgot
  | succ turns ih =>
      rw [readLoop]
      split
      next hlt =>
        obtain ⟨piece, rest, r, hread, rfl, hpiece, hrest⟩ := hS.read h (Nat.sub_pos_of_lt hlt)
        have hsize := Read.length_le hread
        rw [hread]
        dsimp only
        split
        next hnil =>
          have hnone : piece ++ rest = [] :=
            not_not.mp fun hne => hpiece hne (List.length_eq_zero_iff.mp hnil)
          obtain ⟨-, rfl⟩ := List.append_eq_nil_iff.mp hnone
          rw [hnone, List.append_nil]
          split
          next hzero => exact .ended (List.length_eq_zero_iff.mp hzero) (by omega) hrest rfl
          next hzero => exact .cut (fun hnil => hzero (by rw [hnil]; rfl)) hlt hrest rfl
        next hne =>
          have hpos : 0 < piece.length := Nat.pos_of_ne_zero hne
          rw [← List.append_assoc, ← List.length_append]
          let it' : MessageIterator R :=
            { it with reader := r, buf := overwrite it.buf got.length piece }
          have htake : it'.buf.take (got ++ piece).length = got ++ piece := take_overwrite hgot
          have hrest' : S it'.reader rest := hrest
          refine ih hrest' htake ?_ ?_ ?_
          · rw [List.length_append]
            omega
          · rw [List.length_append]
            omega
          · exact hbuf.trans (length_overwrite (by omega)).ge
      next hge =>
        obtain rfl : got.length = n := by omega
        exact filled_of_serves h hgot

theorem readExact_of_serves (hS : Serves S) (h : S it.reader bytes) :
    ReadsFrom S it.format bytes n (it.readExact n) := by
  have hloop : ∀ it' : MessageIterator R, it'.reader = it.reader → it'.format = it.format →
      n ≤ it'.buf.length → ReadsFrom S it.format bytes n (readLoop n n 0 it') := by
    intro it' hreader hformat hbuf
    rw [← hreader] at h
    rw [← hformat]
    have hnothing : it'.buf.take ([] : Bytes).length = [] := List.take_zero
    have hturns : n ≤ ([] : Bytes).length + n := Nat.le_add_left n _
    exact readLoop_of_serves hS h hnothing (Nat.zero_le n) hturns hbuf
  unfold readExact
  dsimp only
  split
  next hshort =>
    refine hloop _ rfl rfl ?_
    dsimp only
    rw [List.length_append, List.length_replicate]
    omega
  next hlong => exact hloop it rfl rfl (Nat.le_of_not_lt hlong)

/-- A read of bytes that are there. -/
theorem readExact_append (hS : Serves S) {body rest : Bytes}
    (h : S it.reader (body ++ rest)) (hn : body.length = n) :
    ∃ it', it.readExact n = (.ok (some body), it') ∧ S it'.reader rest ∧
      it'.format = it.format := by
  subst hn
  have hread := readExact_of_serves (n := body.length) hS h
  have hlen : body.length ≤ (body ++ rest).length := by
    rw [List.length_append]
    omega
  generalize it.readExact body.length = r at hread
  cases hread with
  | full hle hrest hformat =>
      rw [List.drop_left] at hrest
      rw [List.take_left]
      exact ⟨_, rfl, hrest, hformat⟩
  | ended hnil hpos =>
      rw [hnil, List.length_nil] at hlen
      omega
  | cut hne hlt => omega

/-! ## One item -/

/-- The messages of a capture as they are written: each encoded, after its length or not. -/
def written : CaptureFormat → List Message → Bytes
  | .glimpse, msgs => Framing.frames (msgs.map Message.wireImage)
  | .rawBodies, msgs => msgs.flatMap Message.wireImage

/-- What a Glimpse frame yields, at some offset. -/
def frameItem (offset : UInt64) (body : Bytes) : Except ReplayError Message :=
  if body.length > maxMessageLen then .error (.frameTooLarge offset body.length maxMessageLen)
  else decodeMessage body

/-- A frame is read to its end, or up to its payload if that is beyond the limit. -/
theorem nextGlimpse_frame (hS : Serves S) {body rest : Bytes} (hpos : 0 < body.length)
    (hlt : body.length < 65536) (h : S it.reader (Framing.frame body ++ rest)) :
    ∃ offset it', it.nextGlimpse = (some (frameItem offset body), it') ∧
      S it'.reader (if body.length > maxMessageLen then body ++ rest else rest) ∧
      it'.format = it.format := by
  have hback : ofBE (toBE 2 body.length) = body.length := ofBE_toBE_of_lt hlt
  rw [Framing.frame, List.append_assoc] at h
  obtain ⟨it₁, hprefix, hrest, hformat⟩ := readExact_append hS h (toBE_length 2 _)
  rw [nextGlimpse, hprefix]
  dsimp only
  rw [hback, if_neg hpos.ne']
  by_cases hlarge : body.length > maxMessageLen
  · rw [if_pos hlarge, if_pos hlarge]
    exact ⟨it₁.offset, it₁, by rw [frameItem, if_pos hlarge], hrest, hformat⟩
  · rw [if_neg hlarge, if_neg hlarge]
    obtain ⟨it₂, hbody, hrest', hformat'⟩ := readExact_append hS hrest rfl
    rw [hbody]
    exact ⟨it₁.offset, it₂, by rw [frameItem, if_neg hlarge], hrest', hformat'.trans hformat⟩

theorem messageTotalLen_tag (m : Message) : messageTotalLen m.tag = some m.encodedLen := by
  cases m <;> rfl

theorem decodeMessage_wireImage {m : Message} (h : m.FitsWire) :
    decodeMessage m.wireImage = .ok m := by
  rw [decodeMessage, m.decode_wireImage, Message.onWire_of_fitsWire h]

theorem nextRawBodies_wireImage (hS : Serves S) {m : Message} {rest : Bytes}
    (hfits : m.FitsWire) (h : S it.reader (m.wireImage ++ rest)) :
    ∃ it', it.nextRawBodies = (some (.ok m), it') ∧ S it'.reader rest ∧
      it'.format = it.format := by
  have hlen := m.encodedLen_le
  have hsplit : m.wireImage ++ rest = [m.tag] ++ (m.wireBody ++ rest) := rfl
  rw [hsplit] at h
  have hone : ([m.tag] : Bytes).length = 1 := rfl
  obtain ⟨it₁, htag, hrest, hformat⟩ := readExact_append hS h hone
  have hbody : m.wireBody.length = m.encodedLen - 1 := by
    rw [m.wireBody_length, Message.encodedLen, Nat.add_sub_cancel_left]
  obtain ⟨it₂, hread, hrest', hformat'⟩ := readExact_append hS hrest hbody
  refine ⟨it₂, ?_, hrest', hformat'.trans hformat⟩
  rw [nextRawBodies, htag]
  dsimp only [List.headD_cons]
  rw [messageTotalLen_tag]
  dsimp only
  rw [if_neg (by simp only [maxMessageLen]; omega), hread]
  dsimp only
  rw [← Message.wireImage, decodeMessage_wireImage hfits]

/-- At the end of the input there is nothing to read. -/
theorem readExact_nil (hS : Serves S) (h : S it.reader []) (hn : 0 < n) :
    (it.readExact n).1 = .ok none := by
  have hread := readExact_of_serves (n := n) hS h
  generalize it.readExact n = r at hread
  cases hread with
  | full hle =>
      rw [List.length_nil] at hle
      omega
  | ended => rfl
  | cut hne => exact absurd rfl hne

theorem next_nil (hS : Serves S) (h : S it.reader []) : it.next.1 = none := by
  have hnone (n : Nat) (hn : 0 < n) : ∃ it', it.readExact n = (.ok none, it') :=
    ⟨_, Prod.ext (readExact_nil hS h hn) rfl⟩
  unfold next
  split
  next =>
    obtain ⟨it', hread⟩ := hnone 2 (by decide)
    rw [nextGlimpse, hread]
  next =>
    obtain ⟨it', hread⟩ := hnone 1 (by decide)
    rw [nextRawBodies, hread]

/-- A read leaves a shorter input, unless it found the end. -/
theorem readExact_left (hS : Serves S) (h : S it.reader bytes) (n : Nat) :
    ∃ left, S (it.readExact n).2.reader left ∧ left.length ≤ bytes.length ∧
      (0 < n → (it.readExact n).1 ≠ .ok none → left.length < bytes.length) := by
  have hread := readExact_of_serves (n := n) hS h
  generalize it.readExact n = r at hread
  cases hread with
  | full hle hrest =>
      refine ⟨_, hrest, ?_, fun hn _ => ?_⟩
      · rw [List.length_drop]
        omega
      · rw [List.length_drop]
        omega
  | ended _ _ hrest => exact ⟨[], hrest, Nat.zero_le _, fun _ hne => absurd rfl hne⟩
  | cut hne _ hrest => exact ⟨[], hrest, Nat.zero_le _, fun _ _ => List.length_pos_iff.mpr hne⟩

/-- Every item takes at least one byte. -/
theorem next_left (hS : Serves S) (h : S it.reader bytes) :
    ∃ left, S it.next.2.reader left ∧ (it.next.1 = none ∨ left.length < bytes.length) := by
  unfold next
  split
  next =>
    obtain ⟨left, hleft, -, hlt⟩ := readExact_left hS h 2
    unfold nextGlimpse
    generalize it.readExact 2 = r at hleft hlt
    obtain ⟨e | _ | lenBytes, it₁⟩ := r
    · exact ⟨left, hleft, .inr (hlt (by decide) nofun)⟩
    · exact ⟨left, hleft, .inl rfl⟩
    · have hshort : left.length < bytes.length := hlt (by decide) nofun
      dsimp only
      split
      next => exact ⟨left, hleft, .inl rfl⟩
      next =>
        split
        next => exact ⟨left, hleft, .inr hshort⟩
        next =>
          obtain ⟨left', hleft', hle, -⟩ := readExact_left hS hleft (ofBE lenBytes)
          generalize it₁.readExact (ofBE lenBytes) = r at hleft'
          obtain ⟨e | _ | frame, it₂⟩ := r <;>
            exact ⟨left', hleft', .inr (hle.trans_lt hshort)⟩
  next =>
    obtain ⟨left, hleft, -, hlt⟩ := readExact_left hS h 1
    unfold nextRawBodies
    generalize it.readExact 1 = r at hleft hlt
    obtain ⟨e | _ | tagSlice, it₁⟩ := r
    · exact ⟨left, hleft, .inr (hlt (by decide) nofun)⟩
    · exact ⟨left, hleft, .inl rfl⟩
    · have hshort : left.length < bytes.length := hlt (by decide) nofun
      dsimp only
      split
      next => exact ⟨left, hleft, .inr hshort⟩
      next total _ =>
        split
        next => exact ⟨left, hleft, .inr hshort⟩
        next =>
          obtain ⟨left', hleft', hle, -⟩ := readExact_left hS hleft (total - 1)
          generalize it₁.readExact (total - 1) = r at hleft'
          obtain ⟨e | _ | body, it₂⟩ := r <;>
            exact ⟨left', hleft', .inr (hle.trans_lt hshort)⟩

/-! ## Whole captures -/

open Framing (Drains)

/-- The iterator comes to an end on any input. -/
theorem drains_of_serves (hS : Serves S) (h : S it.reader bytes) :
    ∃ items it', Drains next it items it' ∧ items.length ≤ bytes.length := by
  -- every item takes at least one byte
  induction hn : bytes.length using Nat.strongRecOn generalizing it bytes with
  | _ n ih =>
      obtain ⟨left, hleft, hnone | hlt⟩ := next_left hS h
      · exact ⟨[], it.next.2, .done (Prod.ext hnone rfl), Nat.zero_le _⟩
      · cases hitem : it.next.1 with
        | none => exact ⟨[], it.next.2, .done (Prod.ext hitem rfl), Nat.zero_le _⟩
        | some item =>
            obtain ⟨items, it', hdrain, hle⟩ := ih left.length (hn ▸ hlt) hleft rfl
            refine ⟨item :: items, it', .more (Prod.ext hitem rfl) hdrain, ?_⟩
            rw [List.length_cons]
            omega

/-- What was written comes back, and then the end. -/
theorem drains_written (hS : Serves S) {msgs : List Message} (hfits : ∀ m ∈ msgs, m.FitsWire)
    (h : S it.reader (written it.format msgs)) : ∃ it', Drains next it (msgs.map .ok) it' := by
  induction msgs generalizing it with
  | nil =>
      have hnil : written it.format [] = [] := by cases it.format <;> rfl
      rw [hnil] at h
      exact ⟨it.next.2, .done (Prod.ext (next_nil hS h) rfl)⟩
  | cons m msgs ih =>
      have hm := hfits m List.mem_cons_self
      have hlen := m.encodedLen_le
      obtain ⟨it', hnext, hrest, hformat⟩ : ∃ it', it.next = (some (.ok m), it') ∧
          S it'.reader (written it.format msgs) ∧ it'.format = it.format := by
        cases hformat : it.format with
        | glimpse =>
            rw [hformat] at h
            have hpos : 0 < m.wireImage.length := Nat.succ_pos _
            have hlt : m.wireImage.length < 65536 := by
              rw [Message.wireImage_length]
              omega
            have hsmall : ¬ m.wireImage.length > maxMessageLen := by
              rw [Message.wireImage_length, maxMessageLen]
              omega
            obtain ⟨offset, it', hnext, hrest, hsame⟩ := nextGlimpse_frame hS hpos hlt h
            rw [frameItem, if_neg hsmall, decodeMessage_wireImage hm] at hnext
            rw [if_neg hsmall] at hrest
            exact ⟨it', by rw [next, hformat]; exact hnext, hrest, hsame.trans hformat⟩
        | rawBodies =>
            rw [hformat] at h
            obtain ⟨it', hnext, hrest, hsame⟩ := nextRawBodies_wireImage hS hm h
            exact ⟨it', by rw [next, hformat]; exact hnext, hrest, hsame.trans hformat⟩
      rw [← hformat] at hrest
      obtain ⟨it'', hdrain⟩ := ih (fun m' hm' => hfits m' (List.mem_cons_of_mem m hm')) hrest
      exact ⟨it'', .more hnext hdrain⟩

/-- However a capture is cut by its reader, the iterator of its format yields exactly the
messages that were written and then ends; and on any input it ends after finitely many
items, at most one for each byte. -/
theorem replay_exact (hS : Serves S) :
    (∀ (format : CaptureFormat) (msgs : List Message) (r : R), (∀ m ∈ msgs, m.FitsWire) →
      S r (written format msgs) → ∃ it', Drains next (new r format) (msgs.map .ok) it') ∧
    (∀ (format : CaptureFormat) (bytes : Bytes) (r : R), S r bytes →
      ∃ items it', Drains next (new r format) items it' ∧ items.length ≤ bytes.length) :=
  ⟨fun _ _ _ hfits h => drains_written hS hfits h, fun _ _ _ h => drains_of_serves hS h⟩

/-- Two deletes in a raw capture that comes in pieces of 1, 30 and 7 bytes. -/
theorem replay_exact_twoDeletes :
    ∃ it', Drains next
      (new (⟨written .rawBodies [Message.sampleDelete, Message.sampleDelete], [1, 30, 7]⟩ : Pieces)
        .rawBodies) [.ok Message.sampleDelete, .ok Message.sampleDelete] it' :=
  (replay_exact Pieces.serves).1 .rawBodies [Message.sampleDelete, Message.sampleDelete] _
    (by decide) rfl

/-! ## Bad frames -/

/-- The iterator yields one item per frame and then ends, and after each item the reader is at
the next frame. -/
inductive Aligned (S : R → Bytes → Prop) :
    MessageIterator R → List Bytes → List (Except ReplayError Message) → Prop where
  | nil {it : MessageIterator R} : it.next.1 = none → Aligned S it [] []
  | cons {it it' : MessageIterator R} {body : Bytes} {bodies : List Bytes}
      {item : Except ReplayError Message} {items : List (Except ReplayError Message)} :
      it.next = (some item, it') → S it'.reader (Framing.frames bodies) →
      Aligned S it' bodies items → Aligned S it (body :: bodies) (item :: items)

/-- An item of a capture and one of a connection say the same of a frame. -/
def Agrees : Except ReplayError Message → Except TransportError Message → Prop
  | .ok m, .ok m' => m = m'
  | .error (.protocol e), .error (.protocol e') => e = e'
  | .error (.frameTooLarge _ got max), .error (.frameTooLarge got' max') => got = got' ∧ max = max'
  | _, _ => False

/-- The iterator stays aligned with the frames and agrees with the codec of the TCP transport
on each of them. -/
def StaysAligned (S : R → Bytes → Prop) (r : R) (bodies : List Bytes) : Prop :=
  ∃ items, Aligned S (new r .glimpse) bodies items ∧
    ∀ chunks results conn, chunks.flatten = Framing.frames bodies →
      Framing.Feeds ItchConnection.next ItchConnection.receive .new chunks results conn →
      List.Forall₂ Agrees items results

theorem agrees_outcome (offset : UInt64) (body : Bytes) :
    Agrees (frameItem offset body) (ItchCodec.outcome body) := by
  unfold frameItem ItchCodec.outcome
  by_cases hlarge : body.length > maxMessageLen
  · rw [if_pos hlarge, if_pos (show body.length > ItchCodec.maxMessageLen from hlarge)]
    exact ⟨rfl, rfl⟩
  · rw [if_neg hlarge, if_neg (show ¬ body.length > ItchCodec.maxMessageLen from hlarge),
      decodeMessage, ItchCodec.decodeMessage]
    cases Message.decode body with
    | ok m => rfl
    | error e => rfl

/-- Frames within the limit keep the iterator aligned. -/
theorem aligned_of_small (hS : Serves S) {bodies : List Bytes} (hformat : it.format = .glimpse)
    (hpos : ∀ b ∈ bodies, 0 < b.length) (hsmall : ∀ b ∈ bodies, b.length ≤ maxMessageLen)
    (h : S it.reader (Framing.frames bodies)) :
    ∃ items, Aligned S it bodies items ∧
      List.Forall₂ Agrees items (bodies.map ItchCodec.outcome) := by
  induction bodies generalizing it with
  | nil => exact ⟨[], .nil (next_nil hS h), .nil⟩
  | cons body bodies ih =>
      have hlimit := hsmall body List.mem_cons_self
      have hlt : body.length < 65536 := hlimit.trans_lt (by decide)
      rw [Framing.frames_cons] at h
      obtain ⟨offset, it', hnext, hrest, hsame⟩ :=
        nextGlimpse_frame hS (hpos body List.mem_cons_self) hlt h
      rw [if_neg (Nat.not_lt.mpr hlimit)] at hrest
      obtain ⟨items, haligned, hagree⟩ := ih (hsame.trans hformat)
        (fun b hb => hpos b (List.mem_cons_of_mem body hb))
        (fun b hb => hsmall b (List.mem_cons_of_mem body hb)) hrest
      have hstep : it.next = (some (frameItem offset body), it') := by
        rw [next, hformat]
        exact hnext
      exact ⟨_, .cons hstep hrest haligned, .cons (agrees_outcome offset body) hagree⟩

/-- An iterator that is aligned has seen no frame beyond the limit. -/
theorem Aligned.small (hS : Serves S) {bodies : List Bytes}
    {items : List (Except ReplayError Message)} (haligned : Aligned S it bodies items)
    (hformat : it.format = .glimpse) (hbodies : ∀ b ∈ bodies, 0 < b.length ∧ b.length < 65536)
    (h : S it.reader (Framing.frames bodies)) : ∀ b ∈ bodies, b.length ≤ maxMessageLen := by
  induction haligned with
  | nil => exact fun b hb => absurd hb List.not_mem_nil
  | cons hnext hrest _ ih =>
      obtain ⟨hpos, hlt⟩ := hbodies _ List.mem_cons_self
      rw [Framing.frames_cons] at h
      obtain ⟨offset, it', hstep, hleft, hsame⟩ := nextGlimpse_frame hS hpos hlt h
      rw [next, hformat] at hnext
      cases hnext.symm.trans hstep
      refine List.forall_mem_cons.mpr ⟨Nat.not_lt.mp fun hlarge => ?_,
        ih (hsame.trans hformat) (fun b hb => hbodies b (List.mem_cons_of_mem _ hb)) hrest⟩
      -- the payload is still to be read
      rw [if_pos hlarge] at hleft
      have hlen := congrArg List.length (hS.unique hleft hrest)
      rw [List.length_append] at hlen
      omega

/-- On a sequence of Glimpse frames the iterator yields one item per frame, is at the next
frame after each and agrees with the codec of the TCP transport, exactly if no frame is
beyond the limit. -/
theorem stays_aligned_iff (hS : Serves S) {bodies : List Bytes} {r : R}
    (hbodies : ∀ b ∈ bodies, 0 < b.length ∧ b.length < 65536)
    (h : S r (Framing.frames bodies)) :
    StaysAligned S r bodies ↔ ∀ b ∈ bodies, b.length ≤ maxMessageLen := by
  constructor
  · rintro ⟨items, haligned, -⟩
    exact haligned.small hS rfl hbodies h
  · intro hsmall
    have hstart : S (new r .glimpse).reader (Framing.frames bodies) := h
    obtain ⟨items, haligned, hagree⟩ :=
      aligned_of_small hS rfl (fun b hb => (hbodies b hb).1) hsmall hstart
    refine ⟨items, haligned, fun chunks results conn hcut hfeeds => ?_⟩
    rw [((ItchConnection.feeds_iff (fun b hb => (hbodies b hb).2) hcut).mp hfeeds).1]
    exact hagree

/-- An unknown tag and a delete, in pieces of three bytes. -/
theorem stays_aligned_unknownTag :
    StaysAligned (fun p bytes => p.bytes = bytes)
      (⟨Framing.frames [[0x7A], Message.sampleDelete.wireImage], [3, 3, 3]⟩ : Pieces)
      [[0x7A], Message.sampleDelete.wireImage] :=
  (stays_aligned_iff Pieces.serves (by decide) rfl).mpr (by decide)

/-- A frame of 1025 zero bytes and a delete: the iterator reports the frame, reads two of its
bytes as the mark of the end, and never gets to the delete. -/
theorem oversized_frame_misaligns :
    ¬ StaysAligned (fun p bytes => p.bytes = bytes)
      (⟨Framing.frames [List.replicate 1025 0, Message.sampleDelete.wireImage], []⟩ : Pieces)
      [List.replicate 1025 0, Message.sampleDelete.wireImage] := by
  rintro ⟨items, haligned, -⟩
  have hsmall := haligned.small Pieces.serves rfl (by
    intro b hb
    rcases List.mem_pair.mp hb with rfl | rfl
    · rw [List.length_replicate]
      decide
    · decide) rfl (List.replicate 1025 0) List.mem_cons_self
  rw [List.length_replicate, maxMessageLen] at hsmall
  omega

end MessageIterator

end Itch
