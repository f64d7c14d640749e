import Itch.Lib.Buffer
import Itch.Mold.Packet

/-!
# The packet codec is a bijection onto what it accepts

A packet has one wire image: the header and then, for each block, the length and the data.
`encode` writes the image (`encode_eq`) and `decode` accepts exactly the images of
well-formed packets, with nothing before, between or after the blocks (`decode_eq_ok`).
Both directions of the round trip are read off the image.
-/

namespace Itch

open Lib

/-! ## Encoding -/

/-- The 20 bytes of a header. -/
def MoldPacketHeader.toBytes (h : MoldPacketHeader) : Bytes :=
  h.session.toList ++ toBE 8 h.sequence.toNat ++ toBE 2 h.messageCount.toNat

/-- Length prefix and data. -/
def MessageBlock.wireLen (b : MessageBlock) : Nat :=
  blockLenPrefix + b.data.length

namespace MoldPacket

/-- A packet that says the publisher is alive. -/
def heartbeat (session : Vector UInt8 10) (nextSequence : UInt64) : MoldPacket :=
  { header := { session := session, sequence := nextSequence, messageCount := msgCountHeartbeat }
    blocks := [] }

def endOfSession (session : Vector UInt8 10) (nextSequence : UInt64) : MoldPacket :=
  { header :=
      { session := session, sequence := nextSequence, messageCount := msgCountEndOfSession }
    blocks := [] }

def wireLen (pkt : MoldPacket) : Nat :=
  headerLen + (pkt.blocks.map MessageBlock.wireLen).sum

/-- The loop of `encode`: the blocks one after the other from `off` on. -/
def encodeBlocks : Bytes → Nat → List MessageBlock → Bytes
  | buf, _, [] => buf
  | buf, off, block :: blocks =>
      let dlen := block.data.length
      let buf := overwrite buf off (toBE 2 dlen)
      let buf := overwrite buf (off + 2) block.data
      encodeBlocks buf (off + 2 + dlen) blocks

/-- The number of bytes written and the buffer after it. -/
def encode (pkt : MoldPacket) (buf : Bytes) : Except MoldError (Nat × Bytes) :=
  let total := pkt.wireLen
  if buf.length < total then .error (.bufferTooSmall total buf.length)
  else .ok (total, encodeBlocks (overwrite buf 0 pkt.header.toBytes) headerLen pkt.blocks)

/-- Append the packet to a buffer that grows. -/
def encodeTo (pkt : MoldPacket) (dst : Bytes) : Except MoldError Bytes := do
  let (_, written) ← pkt.encode (List.replicate pkt.wireLen 0)
  return dst ++ written

end MoldPacket

/-! ## Wire images -/

namespace MoldPacketHeader

@[simp] theorem length_toBytes (h : MoldPacketHeader) : h.toBytes.length = headerLen := by
  simp [toBytes, headerLen]

/-- A header is read off the bytes that start with it. -/
theorem fromBytes_eq_ok {buf : Bytes} {h : MoldPacketHeader} :
    fromBytes buf = .ok h ↔ h.toBytes <+: buf := by
  by_cases hlen : buf.length < headerLen
  · rw [fromBytes, if_pos hlen]
    refine ⟨fun heq => (by cases heq), fun hpre => ?_⟩
    have hle := hpre.length_le
    rw [length_toBytes] at hle
    exact absurd hlen (Nat.not_lt.mpr hle)
  · have hle : 20 ≤ buf.length := Nat.le_of_not_lt hlen
    have hsession : (buf.take 10).length = 10 := by
      rw [List.length_take]
      omega
    have hseq : ((buf.drop 10).take 8).length = 8 := by
      rw [List.length_take, List.length_drop]
      omega
    have hcount : ((buf.drop 18).take 2).length = 2 := by
      rw [List.length_take, List.length_drop]
      omega
    have hfill : (Vector.ofFn fun i : Fin 10 => buf.getD i 0)
        = Vector.ofFn fun i : Fin 10 => (buf.take 10).getD i 0 := by
      ext i hi
      simp
    obtain ⟨session, sequence, messageCount⟩ := h
    rw [fromBytes, if_neg hlen, toBytes, ← hasAt_zero, hasAt_append, hasAt_append,
      hasAt_iff_eq_take (Vector.length_toList), hasAt_iff_eq_take (toBE_length 8 _),
      hasAt_iff_eq_take (toBE_length 2 _), hfill, Except.ok.injEq, mk.injEq,
      ofFn_getD_eq_iff hsession, u64_ofBE_iff hseq, u16_ofBE_iff hcount, and_assoc]
    simp

end MoldPacketHeader

/-- The block as it is on the wire. -/
def MessageBlock.wire (b : MessageBlock) : Bytes :=
  toBE 2 b.data.length ++ b.data

/-- Between one byte and the cap. -/
def MessageBlock.Fits (b : MessageBlock) : Prop :=
  1 ≤ b.data.length ∧ b.data.length ≤ maxBlockLen

namespace MoldPacket

/-- The packet as it is on the wire. -/
def wire (pkt : MoldPacket) : Bytes :=
  pkt.header.toBytes ++ pkt.blocks.flatMap MessageBlock.wire

theorem length_wire (pkt : MoldPacket) : pkt.wire.length = pkt.wireLen := by
  have hblock : ∀ b : MessageBlock, b.wire.length = b.wireLen := by
    intro b
    simp [MessageBlock.wire, MessageBlock.wireLen, blockLenPrefix]
  rw [wire, wireLen, List.length_append, MoldPacketHeader.length_toBytes, List.length_flatMap,
    List.map_congr_left fun b _ => hblock b]

/-- The blocks are written after what is already there. -/
theorem encodeBlocks_append (blocks : List MessageBlock) {fin rest : Bytes} {off : Nat}
    (h : fin.length = off) :
    encodeBlocks (fin ++ rest) off blocks
      = fin ++ blocks.flatMap MessageBlock.wire
        ++ rest.drop (blocks.flatMap MessageBlock.wire).length := by
  induction blocks generalizing fin rest off with
  | nil => simp [encodeBlocks]
  | cons b bs ih =>
      have hprefix : (fin ++ toBE 2 b.data.length).length = off + 2 := by simp [h]
      have hdata : (fin ++ toBE 2 b.data.length ++ b.data).length = off + 2 + b.data.length := by
        rw [List.length_append, hprefix]
      rw [encodeBlocks, overwrite_append h, overwrite_append hprefix, ih hdata, List.flatMap_cons]
      simp [MessageBlock.wire, List.drop_drop, Nat.add_assoc, Nat.add_comm, Nat.add_left_comm]

/-- Encoding into a buffer that is long enough writes the image at its start. -/
theorem encode_eq {pkt : MoldPacket} {buf : Bytes} (h : pkt.wireLen ≤ buf.length) :
    pkt.encode buf = .ok (pkt.wireLen, pkt.wire ++ buf.drop pkt.wireLen) := by
  have hhead : overwrite buf 0 pkt.header.toBytes = pkt.header.toBytes ++ buf.drop headerLen := by
    have hstart : overwrite ([] ++ buf) 0 pkt.header.toBytes
        = [] ++ pkt.header.toBytes ++ buf.drop pkt.header.toBytes.length :=
      overwrite_append List.length_nil
    rwa [List.nil_append, List.nil_append, MoldPacketHeader.length_toBytes] at hstart
  rw [encode, if_neg (Nat.not_lt.mpr h), hhead,
    encodeBlocks_append _ pkt.header.length_toBytes, List.drop_drop,
    ← pkt.header.length_toBytes, ← List.length_append]
  exact congrArg (fun n => Except.ok (pkt.wireLen, pkt.wire ++ buf.drop n)) pkt.length_wire

theorem encodeTo_eq (pkt : MoldPacket) (dst : Bytes) : pkt.encodeTo dst = .ok (dst ++ pkt.wire) := by
  rw [encodeTo, encode_eq (by simp)]
  simp

/-! ## Decoding -/

/-- A block that fits is read off its image, and the loop goes on behind it. -/
theorem decodeBlocks_wire {count : Nat} {b : MessageBlock} (h : b.Fits) (cursor : Bytes) :
    decodeBlocks (count + 1) (b.wire ++ cursor)
      = decodeBlocks count cursor >>= fun (blocks, rest) => .ok (b :: blocks, rest) := by
  obtain ⟨hpos, hmax⟩ := h
  have hlt : b.data.length < 256 ^ 2 := hmax.trans_lt (by decide)
  match hbytes : toBE 2 b.data.length, toBE_length 2 b.data.length with
  | [hi, lo], _ =>
      have hlen : ofBE [hi, lo] = b.data.length := by rw [← hbytes, ofBE_toBE_of_lt hlt]
      rw [MessageBlock.wire, hbytes, List.append_assoc]
      simp only [List.cons_append, List.nil_append, decodeBlocks, hlen]
      rw [if_neg (by omega), if_neg (by omega), if_neg (by simp), List.drop_left, List.take_left]
      rfl

/-- The first block that is read fits and the bytes start with its image. -/
theorem decodeBlocks_succ_eq_ok {count : Nat} {cursor rest : Bytes} {blocks : List MessageBlock}
    (h : decodeBlocks (count + 1) cursor = .ok (blocks, rest)) :
    ∃ b bs cursor', blocks = b :: bs ∧ b.Fits ∧ cursor = b.wire ++ cursor' ∧
      decodeBlocks count cursor' = .ok (bs, rest) := by
  match cursor, h with
  | [], h => cases h
  | [_], h => cases h
  | hi :: lo :: cursor, h =>
      simp only [decodeBlocks] at h
      split at h
      next => cases h
      next hzero =>
        split at h
        next => cases h
        next hmax =>
          split at h
          next => cases h
          next hlen =>
            obtain ⟨⟨bs, rest'⟩, htail, hok⟩ := bind_eq_ok.mp h
            cases hok
            have hdata : (cursor.take (ofBE [hi, lo])).length = ofBE [hi, lo] := by
              rw [List.length_take]
              omega
            have hword : toBE 2 (ofBE [hi, lo]) = [hi, lo] := toBE_ofBE [hi, lo]
            refine ⟨_, bs, _, rfl, ⟨?_, ?_⟩, ?_, htail⟩
            · exact hdata.symm ▸ Nat.one_le_iff_ne_zero.mpr hzero
            · exact hdata.symm ▸ Nat.le_of_not_lt hmax
            · rw [MessageBlock.wire, hdata, hword, List.append_assoc, List.take_append_drop]
              rfl

/-- The blocks that are read are exactly the ones whose images the bytes start with. -/
theorem decodeBlocks_eq_ok {count : Nat} {cursor rest : Bytes} {blocks : List MessageBlock} :
    decodeBlocks count cursor = .ok (blocks, rest) ↔
      blocks.length = count ∧ (∀ b ∈ blocks, b.Fits) ∧
        cursor = blocks.flatMap MessageBlock.wire ++ rest := by
  induction count generalizing cursor blocks with
  | zero =>
      rw [decodeBlocks, Except.ok.injEq, Prod.mk.injEq, List.length_eq_zero_iff]
      constructor
      · rintro ⟨rfl, rfl⟩
        simp
      · rintro ⟨rfl, -, rfl⟩
        simp
  | succ count ih =>
      constructor
      · intro h
        obtain ⟨b, bs, cursor', rfl, hb, rfl, htail⟩ := decodeBlocks_succ_eq_ok h
        obtain ⟨hcount, hfits, rfl⟩ := ih.mp htail
        refine ⟨congrArg (· + 1) hcount, List.forall_mem_cons.mpr ⟨hb, hfits⟩, ?_⟩
        rw [List.flatMap_cons, List.append_assoc]
      · rintro ⟨hcount, hfits, rfl⟩
        match blocks, hcount, hfits with
        | b :: bs, hcount, hfits =>
            obtain ⟨hb, hbs⟩ := List.forall_mem_cons.mp hfits
            have htail := ih.mpr ⟨Nat.succ.inj hcount, hbs, rfl⟩
            rw [List.flatMap_cons, List.append_assoc, decodeBlocks_wire hb, htail, ok_bind]

/-- The packets of the format: data under an announced count that is not reserved, and
the two kinds without blocks. -/
inductive WellFormed : MoldPacket → Prop where
  | data (session : Vector UInt8 10) (sequence : UInt64) {blocks : List MessageBlock} :
      blocks.length ≤ 65534 → (∀ b ∈ blocks, b.Fits) →
      WellFormed
        { header := { session := session, sequence := sequence
                      messageCount := UInt16.ofNat blocks.length }
          blocks := blocks }
  | heartbeat (session : Vector UInt8 10) (nextSequence : UInt64) :
      WellFormed (heartbeat session nextSequence)
  | endOfSession (session : Vector UInt8 10) (nextSequence : UInt64) :
      WellFormed (endOfSession session nextSequence)

/-- A packet is well formed when its blocks match its count. -/
theorem wellFormed_iff {pkt : MoldPacket} :
    pkt.WellFormed ↔
      if pkt.header.isHeartbeat || pkt.header.isEndOfSession then pkt.blocks = []
      else pkt.blocks.length = pkt.header.messageCount.toNat ∧ ∀ b ∈ pkt.blocks, b.Fits := by
  constructor
  · intro h
    cases h with
    | @data session sequence blocks hlen hfits =>
        have hcount : (UInt16.ofNat blocks.length).toNat = blocks.length :=
          UInt16.toNat_ofNat_of_lt' (hlen.trans_lt (by decide))
        split
        next hspecial =>
          -- the count is not the reserved one, so it is the one of no blocks
          simp only [MoldPacketHeader.isHeartbeat, MoldPacketHeader.isEndOfSession,
            Bool.or_eq_true, beq_iff_eq, ← UInt16.toNat_inj, hcount] at hspecial
          rcases hspecial with hzero | hmax
          · exact List.length_eq_zero_iff.mp hzero
          · exact absurd hlen (by rw [hmax]; decide)
        next => exact ⟨hcount.symm, hfits⟩
    | heartbeat => rfl
    | endOfSession => rfl
  · intro h
    obtain ⟨⟨session, sequence, messageCount⟩, blocks⟩ := pkt
    simp only [MoldPacketHeader.isHeartbeat, MoldPacketHeader.isEndOfSession,
      Bool.or_eq_true, beq_iff_eq] at h
    split at h
    next hspecial =>
      subst h
      rcases hspecial with rfl | rfl
      · exact .heartbeat session sequence
      · exact .endOfSession session sequence
    next hspecial =>
      obtain ⟨hlen, hfits⟩ := h
      have hmax : messageCount.toNat ≠ 65535 := fun heq =>
        hspecial (.inr (UInt16.toNat_inj.mp heq))
      have hlt := messageCount.toNat_lt
      have hcount : messageCount = UInt16.ofNat blocks.length := by
        rw [hlen, UInt16.ofNat_toNat]
      rw [hcount]
      exact .data session sequence (by omega) hfits

/-- What `decode` does behind the header. -/
theorem decode_eq_ok_iff_body {buf : Bytes} {pkt : MoldPacket} :
    decode buf = .ok pkt ↔
      ∃ cursor, pkt.header.toBytes ++ cursor = buf ∧
        if pkt.header.isHeartbeat || pkt.header.isEndOfSession then cursor = [] ∧ pkt.blocks = []
        else decodeBlocks pkt.header.messageCount.toNat cursor = .ok (pkt.blocks, []) := by
  simp only [decode, bind_eq_ok, MoldPacketHeader.fromBytes_eq_ok]
  constructor
  · rintro ⟨header, ⟨cursor, rfl⟩, h⟩
    have hdrop : (header.toBytes ++ cursor).drop headerLen = cursor := by
      rw [← header.length_toBytes, List.drop_left]
    rw [hdrop] at h
    split at h
    next hspecial =>
      split at h
      next => cases h
      next hempty =>
        cases h
        exact ⟨cursor, rfl, by simpa [hspecial] using hempty⟩
    next hspecial =>
      obtain ⟨⟨blocks, rest⟩, hblocks, h⟩ := bind_eq_ok.mp h
      split at h
      next => cases h
      next hempty =>
        cases h
        have hrest : rest = [] := by simpa using hempty
        refine ⟨cursor, rfl, ?_⟩
        rw [if_neg hspecial, hblocks, hrest]
  · rintro ⟨cursor, rfl, h⟩
    refine ⟨pkt.header, List.prefix_append _ _, ?_⟩
    rw [← pkt.header.length_toBytes, List.drop_left]
    obtain ⟨header, blocks⟩ := pkt
    dsimp only at h ⊢
    split at h
    next hspecial =>
      obtain ⟨rfl, rfl⟩ := h
      rw [if_pos hspecial]
      rfl
    next hspecial =>
      rw [if_neg hspecial, h, ok_bind]
      rfl

/-- Decoding accepts exactly the images of well-formed packets. -/
theorem decode_eq_ok {buf : Bytes} {pkt : MoldPacket} :
    decode buf = .ok pkt ↔ pkt.WellFormed ∧ buf = pkt.wire := by
  rw [decode_eq_ok_iff_body, wellFormed_iff, wire]
  split
  next =>
    constructor
    · rintro ⟨cursor, rfl, rfl, hblocks⟩
      simp [hblocks]
    · rintro ⟨hblocks, rfl⟩
      exact ⟨[], by simp [hblocks], rfl, hblocks⟩
  next =>
    simp only [decodeBlocks_eq_ok, List.append_nil]
    constructor
    · rintro ⟨cursor, rfl, hlen, hfits, rfl⟩
      exact ⟨⟨hlen, hfits⟩, rfl⟩
    · rintro ⟨⟨hlen, hfits⟩, rfl⟩
      exact ⟨_, rfl, hlen, hfits, rfl⟩

theorem WellFormed.decode_wire {pkt : MoldPacket} (h : pkt.WellFormed) :
    decode pkt.wire = .ok pkt :=
  decode_eq_ok.mpr ⟨h, rfl⟩

theorem WellFormed.fits {pkt : MoldPacket} (h : pkt.WellFormed) : ∀ b ∈ pkt.blocks, b.Fits := by
  cases h with
  | data session sequence hlen hfits => exact hfits
  | heartbeat => exact fun b hb => absurd hb List.not_mem_nil
  | endOfSession => exact fun b hb => absurd hb List.not_mem_nil

/-- Every block of an accepted packet fits the cap. -/
theorem decode_fit {buf : Bytes} {pkt : MoldPacket} (h : decode buf = .ok pkt) :
    pkt.BlocksFit :=
  fun b hb => ((decode_eq_ok.mp h).1.fits b hb).2

/-- The constructor accepts every count below the reserved one. -/
theorem newData_of_le (session : Vector UInt8 10) (sequence : UInt64)
    {blocks : List MessageBlock} (h : blocks.length ≤ 65534) :
    newData session sequence blocks =
      .ok { header := { session := session, sequence := sequence
                        messageCount := UInt16.ofNat blocks.length }
            blocks := blocks } := by
  have hlt : blocks.length < 2 ^ 16 := h.trans_lt (by decide)
  have hcount : UInt16.ofNat blocks.length ≠ msgCountEndOfSession := by
    rw [Ne, ← UInt16.toNat_inj, UInt16.toNat_ofNat_of_lt' hlt]
    intro heq
    exact absurd h (by rw [heq]; decide)
  rw [newData, if_neg (Nat.not_le.mpr hlt)]
  exact if_neg hcount

/-- The constructor refuses the reserved count and everything above it. -/
theorem newData_of_gt (session : Vector UInt8 10) (sequence : UInt64)
    {blocks : List MessageBlock} (h : 65535 ≤ blocks.length) :
    newData session sequence blocks = .error (.tooManyBlocks blocks.length) := by
  by_cases hlt : blocks.length < 2 ^ 16
  · have hcount : UInt16.ofNat blocks.length = msgCountEndOfSession := by
      rw [← UInt16.toNat_inj, UInt16.toNat_ofNat_of_lt' hlt]
      exact le_antisymm (Nat.le_of_lt_succ hlt) h
    rw [newData, if_neg (Nat.not_le.mpr hlt)]
    exact if_pos hcount
  · rw [newData, if_pos (Nat.le_of_not_lt hlt)]

/-- The codec is a bijection between the packets of the format and the byte strings that
are accepted. -/
theorem packet_codec_bijection :
    (∀ (session : Vector UInt8 10) (sequence : UInt64) (blocks : List MessageBlock),
      blocks.length ≤ 65534 → (∀ b ∈ blocks, 1 ≤ b.data.length ∧ b.data.length ≤ 1024) →
      ∃ pkt, newData session sequence blocks = .ok pkt ∧ pkt.WellFormed ∧
        pkt.header.session = session ∧ pkt.header.sequence = sequence ∧ pkt.blocks = blocks) ∧
    (∀ (pkt : MoldPacket) (buf : Bytes), pkt.WellFormed → pkt.wireLen ≤ buf.length →
      ∃ out, pkt.encode buf = .ok (pkt.wireLen, out) ∧
        out.drop pkt.wireLen = buf.drop pkt.wireLen ∧
        decode (out.take pkt.wireLen) = .ok pkt) ∧
    (∀ (b : Bytes) (pkt : MoldPacket) (buf : Bytes), decode b = .ok pkt →
      b.length ≤ buf.length →
      pkt.WellFormed ∧ pkt.encode buf = .ok (b.length, b ++ buf.drop b.length)) := by
  refine ⟨?_, ?_, ?_⟩
  · intro session sequence blocks hlen hfits
    exact ⟨_, newData_of_le session sequence hlen, .data session sequence hlen hfits, rfl, rfl, rfl⟩
  · intro pkt buf hpkt hlen
    refine ⟨_, encode_eq hlen, ?_, ?_⟩
    · rw [← length_wire, List.drop_left]
    · rw [← length_wire, List.take_left]
      exact hpkt.decode_wire
  · intro b pkt buf hdec hlen
    obtain ⟨hpkt, rfl⟩ := decode_eq_ok.mp hdec
    rw [length_wire] at hlen ⊢
    exact ⟨hpkt, encode_eq hlen⟩

/-- Two blocks, of one byte and of two, from sequence number 7 on. -/
def samplePacket : MoldPacket :=
  { header := { session := Vector.replicate 10 0x41, sequence := 7, messageCount := 2 }
    blocks := [⟨[0x53]⟩, ⟨[0x48, 0]⟩] }

theorem packet_codec_bijection_samplePacket :
    (∃ pkt, newData (Vector.replicate 10 0x41) 7 [⟨[0x53]⟩, ⟨[0x48, 0]⟩] = .ok pkt ∧
      pkt.WellFormed ∧ pkt.header.session = Vector.replicate 10 0x41 ∧
      pkt.header.sequence = 7 ∧ pkt.blocks = [⟨[0x53]⟩, ⟨[0x48, 0]⟩]) ∧
    (∃ out, samplePacket.encode (List.replicate 28 0xee) = .ok (27, out) ∧
      out.drop 27 = [0xee] ∧ decode (out.take 27) = .ok samplePacket) ∧
    (samplePacket.WellFormed ∧
      samplePacket.encode (List.replicate 28 0xee)
        = .ok (27, samplePacket.wire ++ [0xee])) := by
  have hfits : ∀ b ∈ samplePacket.blocks, 1 ≤ b.data.length ∧ b.data.length ≤ 1024 := by decide
  have hsample : samplePacket.WellFormed := .data _ _ (by decide) hfits
  exact ⟨packet_codec_bijection.1 _ 7 _ (by decide) hfits,
    packet_codec_bijection.2.1 samplePacket (List.replicate 28 0xee) hsample (by decide),
    packet_codec_bijection.2.2 samplePacket.wire samplePacket (List.replicate 28 0xee)
      hsample.decode_wire (by decide)⟩

end MoldPacket

end Itch
