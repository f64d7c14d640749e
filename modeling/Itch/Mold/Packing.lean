import Itch.Lib.Numbered
import Itch.Lib.Tiling
import Itch.Mold.Publisher
import Itch.Protocol.RoundTrip

/-!
# The publisher packs the log

In every state of the loop the blocks that were sent and the ones that are pending make up
the encoded messages pulled so far (`Packs`).  The calls of the loop either keep this or
fail because too many blocks are pending for one packet (`Post`).  All numbers are the
words of the code here; as long as they do not wrap, the packets tile the sequence numbers
and the cache holds the last of them.
-/

namespace Itch

open Lib

/-- The block a message is sent in. -/
def Message.block (m : Message) : MessageBlock :=
  { data := m.wireImage }

theorem Message.fits_block (m : Message) : m.block.Fits := by
  have hle := m.encodedLen_le
  have hlen : m.block.data.length = m.encodedLen := m.wireImage_length
  refine ⟨?_, ?_⟩
  · rw [hlen, Message.encodedLen]
    omega
  · rw [hlen, maxBlockLen]
    omega

/-- The blocks of some packets. -/
def sentBlocks (pkts : List MoldPacket) : List MessageBlock :=
  pkts.flatMap MoldPacket.blocks

theorem sentBlocks_concat (pkts : List MoldPacket) (pkt : MoldPacket) :
    sentBlocks (pkts ++ [pkt]) = sentBlocks pkts ++ pkt.blocks := by
  simp [sentBlocks]

/-- Each packet carries the number behind the blocks of the ones before it. -/
def Sequenced : UInt64 → List MoldPacket → Prop
  | _, [] => True
  | seq, pkt :: pkts =>
      pkt.header.sequence = seq ∧ Sequenced (seq + UInt64.ofNat pkt.blocks.length) pkts

theorem Sequenced.concat {seq : UInt64} {pkts : List MoldPacket} {pkt : MoldPacket}
    (h : Sequenced seq pkts)
    (hpkt : pkt.header.sequence = seq + UInt64.ofNat (sentBlocks pkts).length) :
    Sequenced seq (pkts ++ [pkt]) := by
  induction pkts generalizing seq with
  | nil =>
      refine ⟨?_, trivial⟩
      simpa [sentBlocks] using hpkt
  | cons first pkts ih =>
      refine ⟨h.1, ih h.2 ?_⟩
      rw [hpkt, sentBlocks, List.flatMap_cons, List.length_append, UInt64.ofNat_add,
        ← UInt64.add_assoc]
      rfl

/-- Numbers that do not wrap tile the sequence space. -/
theorem Sequenced.tiles {seq : UInt64} {pkts : List MoldPacket} (h : Sequenced seq pkts)
    (hlt : seq.toNat + (sentBlocks pkts).length < 2 ^ 64) :
    Tiles (fun pkt : MoldPacket => pkt.header.sequence.toNat) (fun pkt => pkt.blocks.length)
      seq.toNat (seq.toNat + (sentBlocks pkts).length) pkts := by
  induction pkts generalizing seq with
  | nil => exact .nil _
  | cons pkt pkts ih =>
      obtain ⟨rfl, hrest⟩ := h
      rw [sentBlocks, List.flatMap_cons, List.length_append, ← sentBlocks] at hlt ⊢
      have hnext := Word64.toNat_add (a := pkt.header.sequence) (n := pkt.blocks.length) (by omega)
      have htail := ih hrest (by omega)
      rw [hnext, Nat.add_assoc] at htail
      exact .cons htail

/-! ## The cache -/

/-- The frames the cache is given for some blocks. -/
def cacheFrames : UInt64 → List MessageBlock → List CachedFrame
  | _, [] => []
  | seq, b :: bs => { sequence := seq, body := b.data } :: cacheFrames (Word64.saturatingSucc seq) bs

theorem body_cacheFrames (seq : UInt64) (blocks : List MessageBlock) :
    (cacheFrames seq blocks).map CachedFrame.body = blocks.map MessageBlock.data := by
  induction blocks generalizing seq with
  | nil => rfl
  | cons b bs ih => simp [cacheFrames, ih]

theorem numbered_cacheFrames (seq : UInt64) (blocks : List MessageBlock) :
    Numbered seq.toNat ((cacheFrames seq blocks).map fun f => (f.sequence, f.body)) := by
  induction blocks generalizing seq with
  | nil => exact .nil
  | cons b bs ih =>
      have hle := Word64.le_max seq
      refine Numbered.cons_iff.mpr ⟨(Nat.min_eq_left hle).symm, (ih _).congr ?_⟩
      rw [Word64.toNat_saturatingSucc]
      omega

/-- The frames the cache is given for some packets. -/
def sentFrames (pkts : List MoldPacket) : List CachedFrame :=
  pkts.flatMap fun pkt => cacheFrames pkt.header.sequence pkt.blocks

theorem body_sentFrames (pkts : List MoldPacket) :
    (sentFrames pkts).map CachedFrame.body = (sentBlocks pkts).map MessageBlock.data := by
  simp only [sentFrames, sentBlocks, List.map_flatMap, body_cacheFrames]

theorem sentFrames_concat (pkts : List MoldPacket) (pkt : MoldPacket) :
    sentFrames (pkts ++ [pkt]) = sentFrames pkts ++ cacheFrames pkt.header.sequence pkt.blocks := by
  simp [sentFrames]

/-- Numbers that do not wrap number the frames one after the other. -/
theorem Sequenced.numbered {seq : UInt64} {pkts : List MoldPacket} (h : Sequenced seq pkts)
    (hlt : seq.toNat + (sentBlocks pkts).length < 2 ^ 64) :
    Numbered seq.toNat ((sentFrames pkts).map fun f => (f.sequence, f.body)) := by
  induction pkts generalizing seq with
  | nil => exact .nil
  | cons pkt pkts ih =>
      obtain ⟨rfl, hrest⟩ := h
      rw [sentBlocks, List.flatMap_cons, List.length_append, ← sentBlocks] at hlt
      have hnext := Word64.toNat_add (a := pkt.header.sequence) (n := pkt.blocks.length) (by omega)
      have hlen := congrArg List.length (body_cacheFrames pkt.header.sequence pkt.blocks)
      simp only [List.length_map] at hlen
      rw [sentFrames, List.flatMap_cons, List.map_append]
      refine (numbered_cacheFrames _ _).append ?_
      rw [List.length_map, hlen, ← hnext]
      exact ih hrest (by omega)

namespace RequestServer.RingBufferSeqStore

/-- The cache holds the last of the frames, as many as it has room for. -/
structure Retains (c : RingBufferSeqStore) (frames : List CachedFrame) : Prop where
  suffix : c.inner <:+ frames
  length : c.inner.length = min c.capacity frames.length

variable {c : RingBufferSeqStore} {frames : List CachedFrame}

theorem Retains.push (h : c.Retains frames) (f : CachedFrame) :
    (c.push f).Retains (frames ++ [f]) := by
  obtain ⟨hsuffix, hlength⟩ := h
  have hpos := c.capacity_pos
  have hconcat : ∀ l, l <:+ frames → l ++ [f] <:+ frames ++ [f] := by
    rintro l ⟨dropped, rfl⟩
    exact ⟨dropped, (List.append_assoc _ _ _).symm⟩
  unfold RingBufferSeqStore.push
  split
  next hfull =>
    refine ⟨hconcat _ ((List.drop_suffix 1 _).trans hsuffix), ?_⟩
    simp only [List.length_append, List.length_drop, List.length_singleton]
    omega
  next hroom =>
    refine ⟨hconcat _ hsuffix, ?_⟩
    simp only [List.length_append, List.length_singleton]
    omega

theorem Retains.pushBlocks (h : c.Retains frames) (seq : UInt64) (blocks : List MessageBlock) :
    (c.pushBlocks seq blocks).Retains (frames ++ cacheFrames seq blocks) := by
  induction blocks generalizing c frames seq with
  | nil =>
      rw [cacheFrames, List.append_nil]
      exact h
  | cons b bs ih =>
      rw [cacheFrames, List.append_cons]
      exact ih (h.push _) _

end RequestServer.RingBufferSeqStore

namespace MoldPublisher

/-! ## What the loop keeps -/

/-- The packets sent and the pending blocks carry the messages pulled so far. -/
structure Packs (cfg : PublisherConfig) (old : List CachedFrame) (msgs : List Message)
    (pkts : List MoldPacket) (p : MoldPublisher) : Prop where
  cfg_eq : p.cfg = cfg
  socket : p.socket = pkts.map MoldPacket.wire
  packets : ∀ pkt ∈ pkts, pkt.WellFormed ∧ pkt.header.session = cfg.session ∧
    pkt.wireLen ≤ max cfg.mtu 72
  sequenced : Sequenced cfg.startSequence pkts
  blocks : sentBlocks pkts ++ p.pendingBlocks = msgs.map Message.block
  nextSeq : p.nextSeq = cfg.startSequence + UInt64.ofNat msgs.length
  firstSeq : p.pendingBlocks ≠ [] →
    p.pendingFirstSeq = cfg.startSequence + UInt64.ofNat (sentBlocks pkts).length
  size : p.pendingBlocks ≠ [] →
    p.pendingSize = headerLen + (p.pendingBlocks.map MessageBlock.wireLen).sum
  size_le : p.pendingBlocks ≠ [] → p.pendingSize ≤ max cfg.mtu 72
  cache : ∀ c, p.cache = some c → c.Retains (old ++ sentFrames pkts)

variable {cfg : PublisherConfig} {old : List CachedFrame} {msgs : List Message} {pkts : List MoldPacket}
  {p : MoldPublisher}

namespace Packs

theorem length_eq (h : Packs cfg old msgs pkts p) :
    (sentBlocks pkts).length + p.pendingBlocks.length = msgs.length := by
  rw [← List.length_append, h.blocks, List.length_map]

/-- The next number follows the pending blocks. -/
theorem nextSeq_eq (h : Packs cfg old msgs pkts p) :
    p.nextSeq = cfg.startSequence
      + UInt64.ofNat ((sentBlocks pkts).length + p.pendingBlocks.length) := by
  rw [h.nextSeq, h.length_eq]

theorem returned (h : Packs cfg old msgs pkts p) (result : Option (Except MoldError Unit)) :
    Packs cfg old msgs pkts { p with result := result } :=
  ⟨h.cfg_eq, h.socket, h.packets, h.sequenced, h.blocks, h.nextSeq, h.firstSeq, h.size, h.size_le,
    h.cache⟩

theorem concat_packets (h : Packs cfg old msgs pkts p) {pkt : MoldPacket} (hpkt : pkt.WellFormed)
    (hsession : pkt.header.session = p.cfg.session) (hlen : pkt.wireLen ≤ max cfg.mtu 72) :
    ∀ pkt' ∈ pkts ++ [pkt], pkt'.WellFormed ∧ pkt'.header.session = cfg.session ∧
      pkt'.wireLen ≤ max cfg.mtu 72 := by
  intro pkt' hpkt'
  rcases List.mem_append.mp hpkt' with hpkt' | hpkt'
  · exact h.packets pkt' hpkt'
  · obtain rfl := List.mem_singleton.mp hpkt'
    exact ⟨hpkt, h.cfg_eq ▸ hsession, hlen⟩

/-- A packet without blocks that carries the next number. -/
theorem send (h : Packs cfg old msgs pkts p) (hempty : p.pendingBlocks = []) {pkt : MoldPacket}
    (hpkt : pkt.WellFormed) (hsession : pkt.header.session = p.cfg.session)
    (hseq : pkt.header.sequence = p.nextSeq) (hblocks : pkt.blocks = []) :
    Packs cfg old msgs (pkts ++ [pkt]) { p with socket := p.socket ++ [pkt.wire] } := by
  have hsent : sentBlocks (pkts ++ [pkt]) = sentBlocks pkts := by
    rw [sentBlocks_concat, hblocks, List.append_nil]
  have hframes : sentFrames (pkts ++ [pkt]) = sentFrames pkts := by
    rw [sentFrames_concat, hblocks, cacheFrames, List.append_nil]
  have hlen : pkt.wireLen ≤ max cfg.mtu 72 := by
    rw [MoldPacket.wireLen, hblocks, headerLen]
    exact le_max_of_le_right (by decide)
  refine ⟨h.cfg_eq, ?_, h.concat_packets hpkt hsession hlen, h.sequenced.concat ?_, ?_, h.nextSeq,
    ?_, h.size, h.size_le, ?_⟩
  · rw [h.socket, List.map_append]
    rfl
  · rw [hseq, h.nextSeq_eq, hempty]
    rfl
  · rw [hsent]
    exact h.blocks
  · exact fun hne => absurd hempty hne
  · rw [hframes]
    exact h.cache

end Packs

/-! ## Flushing -/

/-- The packet of the pending blocks. -/
def dataPacket (p : MoldPublisher) : MoldPacket :=
  { header := { session := p.cfg.session, sequence := p.pendingFirstSeq
                messageCount := UInt16.ofNat p.pendingBlocks.length }
    blocks := p.pendingBlocks }

/-- The publisher after the pending blocks were sent. -/
def flushed (p : MoldPublisher) : MoldPublisher :=
  { p with
    cache := p.cache.map fun c : RequestServer.RingBufferSeqStore =>
      c.pushBlocks p.pendingFirstSeq p.pendingBlocks
    socket := p.socket ++ [p.dataPacket.wire]
    pendingBlocks := []
    pendingSize := headerLen
    pendingFirstSeq := p.nextSeq }

theorem sendPacket_eq (p : MoldPublisher) (pkt : MoldPacket) :
    p.sendPacket pkt = (.ok (), { p with socket := p.socket ++ [pkt.wire] }) := by
  rw [sendPacket, pkt.encodeTo_eq, List.nil_append]

theorem flushPending_eq (hne : p.pendingBlocks ≠ []) (hlen : p.pendingBlocks.length ≤ 65534) :
    p.flushPending = (.ok (), p.flushed) := by
  rw [flushPending, if_neg (by simpa using hne),
    MoldPacket.newData_of_le p.cfg.session p.pendingFirstSeq hlen]
  dsimp only
  rw [sendPacket_eq]
  rfl

theorem flushPending_tooMany (hlen : 65535 ≤ p.pendingBlocks.length) :
    p.flushPending
      = (.error (.tooManyBlocks p.pendingBlocks.length), { p with pendingBlocks := [] }) := by
  have hne : p.pendingBlocks ≠ [] := by
    rintro hnil
    rw [hnil] at hlen
    exact absurd hlen (by decide)
  rw [flushPending, if_neg (by simpa using hne), MoldPacket.newData_of_gt _ _ hlen]

namespace Packs

theorem flushed (h : Packs cfg old msgs pkts p) (hne : p.pendingBlocks ≠ [])
    (hlen : p.pendingBlocks.length ≤ 65534) :
    Packs cfg old msgs (pkts ++ [p.dataPacket]) p.flushed := by
  have hfits : ∀ b ∈ p.pendingBlocks, b.Fits := by
    intro b hb
    have hmem : b ∈ msgs.map Message.block := h.blocks ▸ List.mem_append_right _ hb
    obtain ⟨m, -, rfl⟩ := List.mem_map.mp hmem
    exact m.fits_block
  have hsize : p.dataPacket.wireLen ≤ max cfg.mtu 72 := by
    have heq := h.size hne
    have hle := h.size_le hne
    rwa [heq] at hle
  have hsent : sentBlocks (pkts ++ [p.dataPacket]) = msgs.map Message.block := by
    rw [sentBlocks_concat]
    exact h.blocks
  refine ⟨h.cfg_eq, ?_, h.concat_packets (.data _ _ hlen hfits) rfl hsize,
    h.sequenced.concat (h.firstSeq hne), ?_, h.nextSeq, ?_, ?_, ?_, ?_⟩
  · rw [MoldPublisher.flushed, h.socket, List.map_append]
    rfl
  · rw [hsent]
    exact List.append_nil _
  · exact fun hne' => absurd rfl hne'
  · exact fun hne' => absurd rfl hne'
  · exact fun hne' => absurd rfl hne'
  · intro c hc
    obtain ⟨c', hc', rfl⟩ := Option.map_eq_some_iff.mp hc
    rw [sentFrames_concat, ← List.append_assoc]
    exact (h.cache c' hc').pushBlocks _ _

/-- A message that finds room. -/
theorem enqueue (h : Packs cfg old msgs pkts p) (msg : Message)
    (hroom : p.pendingBlocks ≠ [] → p.pendingSize + (2 + msg.encodedLen) ≤ cfg.mtu) :
    Packs cfg old (msgs ++ [msg]) pkts (p.enqueue msg.wireImage) := by
  have hlen := msg.encodedLen_le
  have hblocks : sentBlocks pkts ++ (p.pendingBlocks ++ [msg.block])
      = (msgs ++ [msg]).map Message.block := by
    rw [← List.append_assoc, h.blocks, List.map_append]
    rfl
  have hnext : p.nextSeq + 1 = cfg.startSequence + UInt64.ofNat (msgs ++ [msg]).length := by
    rw [h.nextSeq, List.length_append, UInt64.ofNat_add, ← UInt64.add_assoc]
    rfl
  have hwire : (2 + msg.wireImage.length) = msg.block.wireLen := rfl
  by_cases hempty : p.pendingBlocks = []
  · have henq : p.enqueue msg.wireImage =
        { p with
          pendingFirstSeq := p.nextSeq
          pendingBlocks := p.pendingBlocks ++ [msg.block]
          pendingSize := headerLen + (2 + msg.wireImage.length)
          nextSeq := p.nextSeq + 1 } := by
      simp [MoldPublisher.enqueue, hempty, Message.block]
    rw [henq]
    refine ⟨h.cfg_eq, h.socket, h.packets, h.sequenced, hblocks, hnext, fun _ => ?_, fun _ => ?_,
      fun _ => ?_, h.cache⟩
    · dsimp only
      rw [h.nextSeq_eq, hempty]
      rfl
    · dsimp only
      rw [hwire, hempty]
      simp
    · dsimp only
      rw [msg.wireImage_length, headerLen]
      omega
  · have henq : p.enqueue msg.wireImage =
        { p with
          pendingBlocks := p.pendingBlocks ++ [msg.block]
          pendingSize := p.pendingSize + (2 + msg.wireImage.length)
          nextSeq := p.nextSeq + 1 } := by
      simp [MoldPublisher.enqueue, hempty, Message.block]
    rw [henq]
    refine ⟨h.cfg_eq, h.socket, h.packets, h.sequenced, hblocks, hnext,
      fun _ => h.firstSeq hempty, fun _ => ?_, fun _ => ?_, h.cache⟩
    · dsimp only
      rw [hwire, h.size hempty, List.map_append, List.sum_append]
      simp [Nat.add_assoc]
    · dsimp only
      rw [msg.wireImage_length]
      exact le_max_of_le_left (hroom hempty)

end Packs

/-! ## The calls of the loop -/

/-- The task has not returned and packs the messages. -/
structure Running (cfg : PublisherConfig) (old : List CachedFrame) (msgs : List Message)
    (p : MoldPublisher) : Prop where
  packs : ∃ pkts, Packs cfg old msgs pkts p
  result : p.result = none

/-- More blocks are pending than a packet can announce, which takes a large `mtu`. -/
def Overfull (cfg : PublisherConfig) (err : MoldError) : Prop :=
  ∃ n, err = .tooManyBlocks n ∧ 65535 ≤ n ∧ n + headerLen ≤ max cfg.mtu 72

/-- What holds after a call: `Q` of the state, or the call failed with too many blocks. -/
def Post (cfg : PublisherConfig) (Q : MoldPublisher → Prop) :
    Except MoldError Unit × MoldPublisher → Prop
  | (.ok (), p) => Q p
  | (.error err, _) => Overfull cfg err

variable {Q R : MoldPublisher → Prop} {r : Except MoldError Unit × MoldPublisher}

theorem Post.andThen {next : MoldPublisher → Except MoldError Unit × MoldPublisher}
    (h : Post cfg Q r) (hnext : ∀ p, Q p → Post cfg R (next p)) :
    Post cfg R (andThen r next) := by
  match r, h with
  | (.ok (), p), h => exact hnext p h
  | (.error _, _), h => exact h

theorem Post.mono (h : Post cfg Q r) (himp : ∀ p, Q p → R p) : Post cfg R r := by
  match r, h with
  | (.ok (), p), h => exact himp p h
  | (.error _, _), h => exact h

theorem length_le_sum_wireLen (blocks : List MessageBlock) :
    blocks.length ≤ (blocks.map MessageBlock.wireLen).sum := by
  induction blocks with
  | nil => exact le_rfl
  | cons b bs ih =>
      rw [List.length_cons, List.map_cons, List.sum_cons, MessageBlock.wireLen, blockLenPrefix]
      omega

theorem Running.flushPending (h : Running cfg old msgs p) (hne : p.pendingBlocks ≠ []) :
    Post cfg (fun p => Running cfg old msgs p ∧ p.pendingBlocks = []) p.flushPending := by
  obtain ⟨⟨pkts, hpacks⟩, hresult⟩ := h
  by_cases hlen : p.pendingBlocks.length ≤ 65534
  · rw [flushPending_eq hne hlen]
    exact ⟨⟨⟨_, hpacks.flushed hne hlen⟩, hresult⟩, rfl⟩
  · have hmany : 65535 ≤ p.pendingBlocks.length := by omega
    have hsize := hpacks.size hne
    have hle := hpacks.size_le hne
    have hsum := length_le_sum_wireLen p.pendingBlocks
    rw [flushPending_tooMany hmany]
    exact ⟨_, rfl, hmany, by omega⟩

/-- Flush if there is something to flush. -/
theorem Running.flushIf (h : Running cfg old msgs p) :
    Post cfg (fun p => Running cfg old msgs p ∧ p.pendingBlocks = [])
      (if !p.pendingBlocks.isEmpty then p.flushPending else (.ok (), p)) := by
  split
  next hne => exact h.flushPending (by simpa using hne)
  next hempty => exact ⟨h, by simpa using hempty⟩

theorem encode_message (msg : Message) :
    msg.encode (List.replicate msg.encodedLen 0)
      = .ok (msg.block.data.length, msg.block.data) := by
  rw [msg.encode_fresh, ← msg.wireImage_length, Message.block]

/-- A message is added to the pending blocks, which are flushed first if it does not fit. -/
theorem publish_eq (p : MoldPublisher) (msg : Message) :
    p.publish msg = andThen
      (if !p.pendingBlocks.isEmpty && p.pendingSize + (2 + msg.wireImage.length) > p.cfg.mtu then
        p.flushPending else (.ok (), p)) fun p => (.ok (), p.enqueue msg.wireImage) := by
  have hmax : msg.wireImage.length ≤ maxBlockLen := msg.fits_block.2
  rw [publish, encode_message]
  exact if_neg (Nat.not_lt.mpr hmax)

theorem Running.publish (h : Running cfg old msgs p) (msg : Message) :
    Post cfg (Running cfg old (msgs ++ [msg])) (p.publish msg) := by
  rw [publish_eq]
  -- whether or not the pending blocks were flushed, the message finds room
  have hroom : Post cfg (fun p => Running cfg old msgs p ∧
        (p.pendingBlocks ≠ [] → p.pendingSize + (2 + msg.encodedLen) ≤ cfg.mtu))
      (if !p.pendingBlocks.isEmpty && p.pendingSize + (2 + msg.wireImage.length) > p.cfg.mtu then
        p.flushPending else (.ok (), p)) := by
    split
    next hfull =>
      rw [Bool.and_eq_true] at hfull
      exact (h.flushPending (by simpa using hfull.1)).mono fun q hq =>
        ⟨hq.1, fun hne => absurd hq.2 hne⟩
    next hfit =>
      refine ⟨h, fun hne => ?_⟩
      obtain ⟨pkts, hpacks⟩ := h.packs
      rw [Message.wireImage_length, hpacks.cfg_eq] at hfit
      simpa [hne] using hfit
  refine hroom.andThen fun q ⟨⟨⟨pkts, hpacks⟩, hresult⟩, hq⟩ => ?_
  refine ⟨⟨pkts, hpacks.enqueue msg hq⟩, ?_⟩
  rw [MoldPublisher.enqueue]
  split <;> exact hresult

theorem Running.heartbeatDue (h : Running cfg old msgs p) :
    Post cfg (Running cfg old msgs) p.heartbeatDue := by
  unfold MoldPublisher.heartbeatDue
  split
  next hne =>
    exact (h.flushPending (by simpa using hne)).mono fun q hq => hq.1
  next hempty =>
    obtain ⟨⟨pkts, hpacks⟩, hresult⟩ := h
    rw [sendHeartbeat, sendPacket_eq]
    exact ⟨⟨_, hpacks.send (by simpa using hempty) (.heartbeat _ _) rfl rfl rfl⟩, hresult⟩

theorem Running.sendBurst (h : Running cfg old msgs p) (hempty : p.pendingBlocks = [])
    (count : Nat) :
    Post cfg (fun p => Running cfg old msgs p ∧ p.pendingBlocks = []) (sendBurst count p) := by
  induction count generalizing p with
  | zero => exact ⟨h, hempty⟩
  | succ count ih =>
      obtain ⟨⟨pkts, hpacks⟩, hresult⟩ := h
      rw [MoldPublisher.sendBurst, sendEndOfSession, sendPacket_eq]
      exact ih ⟨⟨_, hpacks.send hempty (.endOfSession _ _) rfl rfl rfl⟩, hresult⟩ hempty

theorem Running.exhaust (h : Running cfg old msgs p) :
    Post cfg (fun p => Running cfg old msgs p ∧ p.pendingBlocks = []) p.exhaust := by
  refine h.flushIf.andThen fun q ⟨hq, hempty⟩ => ?_
  refine (hq.sendBurst hempty q.cfg.eosBurst).andThen ?_
  rintro q' ⟨⟨⟨pkts, hpacks⟩, hresult⟩, hempty'⟩
  refine ⟨⟨⟨pkts, ⟨hpacks.cfg_eq, hpacks.socket, hpacks.packets, hpacks.sequenced, hpacks.blocks,
    hpacks.nextSeq, hpacks.firstSeq, hpacks.size, hpacks.size_le, ?_⟩⟩, hresult⟩, hempty'⟩
  intro c hc
  obtain ⟨c', hc', rfl⟩ := Option.map_eq_some_iff.mp hc
  exact ⟨(hpacks.cache c' hc').suffix, (hpacks.cache c' hc').length⟩

/-! ## Runs -/

/-- What holds in a state the loop reaches. -/
inductive Reached (cfg : PublisherConfig) (old : List CachedFrame) (msgs : List Message)
    (p : MoldPublisher) : Prop where
  | packs {pkts : List MoldPacket} : Packs cfg old msgs pkts p →
      (p.result = some (.ok ()) → p.pendingBlocks = []) → Reached cfg old msgs p
  | overfull {err : MoldError} : p.result = some (.error err) → Overfull cfg err →
      Reached cfg old msgs p

theorem Running.reached (h : Running cfg old msgs p) : Reached cfg old msgs p := by
  obtain ⟨⟨pkts, hpacks⟩, hresult⟩ := h
  refine .packs hpacks fun hok => ?_
  rw [hresult] at hok
  cases hok

/-- The loop goes on, or the task has returned in a state that packs the messages. -/
def Turned (cfg : PublisherConfig) (old : List CachedFrame) (msgs : List Message)
    (p : MoldPublisher) : Prop :=
  Running cfg old msgs p ∨ (p.result.isSome ∧ Reached cfg old msgs p)

theorem Post.stopAtError (h : Post cfg (Running cfg old msgs) r) :
    Turned cfg old msgs (stopAtError r) := by
  match r, h with
  | (.ok (), p), h => exact .inl h
  | (.error err, _), h => exact .inr ⟨rfl, .overfull rfl h⟩

theorem Post.stop (h : Post cfg (fun p => Running cfg old msgs p ∧ p.pendingBlocks = []) r) :
    Turned cfg old msgs (stop r) := by
  match r, h with
  | (.ok (), p), ⟨⟨⟨pkts, hpacks⟩, _⟩, hempty⟩ =>
      exact .inr ⟨rfl, .packs (hpacks.returned _) fun _ => hempty⟩
  | (.error err, _), h => exact .inr ⟨rfl, .overfull rfl h⟩

theorem step_of_returned (h : p.result.isSome) (event : PublisherEvent) : p.step event = none :=
  if_pos h

theorem step_message (h : p.result = none) (msg : Message) :
    p.step (.next (some (.ok msg))) = some (MoldPublisher.stopAtError (p.publish msg)) :=
  if_neg (by simp [h])

theorem step_timer (h : p.result = none) :
    p.step .timer = some (MoldPublisher.stopAtError p.heartbeatDue) :=
  if_neg (by simp [h])

/-- One turn of the loop. -/
theorem Running.step (h : Running cfg old msgs p) (event : PublisherEvent) :
    ∃ p', p.step event = some p' ∧ Turned cfg old (msgs ++ pulled [event]) p' := by
  have hgo : ¬ p.result.isSome := by simp [h.result]
  match event with
  | .next (some (.ok msg)) => exact ⟨_, step_message h.result msg, (h.publish msg).stopAtError⟩
  | .next none | .next (some (.error .exhausted)) =>
      refine ⟨_, if_neg hgo, ?_⟩
      rw [show pulled _ = [] from rfl, List.append_nil]
      exact h.exhaust.stop
  | .next (some (.error .backend)) | .next (some (.error .invariant)) =>
      obtain ⟨⟨pkts, hpacks⟩, -⟩ := h
      refine ⟨_, if_neg hgo, .inr ⟨rfl, ?_⟩⟩
      rw [show pulled _ = [] from rfl, List.append_nil]
      exact .packs (hpacks.returned _) fun hok => by cases hok
  | .timer =>
      refine ⟨_, step_timer h.result, ?_⟩
      rw [show pulled _ = [] from rfl, List.append_nil]
      exact h.heartbeatDue.stopAtError

theorem pulled_cons (event : PublisherEvent) (events : List PublisherEvent) :
    pulled (event :: events) = pulled [event] ++ pulled events := by
  rw [pulled, pulled, pulled, ← List.filterMap_append, List.singleton_append]

theorem run_cons (event : PublisherEvent) (events : List PublisherEvent) :
    p.run (event :: events) = (p.step event).bind fun p => p.run events :=
  List.foldlM_cons

/-- What every turn of the running task keeps holds at the end of a run. -/
theorem Running.induct {J : List Message → MoldPublisher → Prop} (h : Running cfg old msgs p)
    (hp : J msgs p)
    (hstep : ∀ {msgs p event q}, Running cfg old msgs p → J msgs p → p.step event = some q →
      J (msgs ++ pulled [event]) q)
    {events : List PublisherEvent} {p' : MoldPublisher} (hrun : p.run events = some p') :
    J (msgs ++ pulled events) p' := by
  induction events generalizing p msgs with
  | nil =>
      cases hrun
      rwa [show pulled [] = [] from rfl, List.append_nil]
  | cons event events ih =>
      obtain ⟨q, heq, hturned⟩ := h.step event
      have hq := hstep h hp heq
      rw [run_cons, heq, Option.bind_some] at hrun
      rw [pulled_cons, ← List.append_assoc]
      rcases hturned with hrunning | ⟨hsome, -⟩
      · exact ih hrunning hq hrun
      · -- the task has returned, so this was the last event
        cases events with
        | nil =>
            cases hrun
            rwa [show pulled [] = [] from rfl, List.append_nil]
        | cons event' events =>
            rw [run_cons, step_of_returned hsome] at hrun
            cases hrun

/-- What a run keeps. -/
theorem Running.run (h : Running cfg old msgs p) {events : List PublisherEvent}
    {p' : MoldPublisher} (hrun : p.run events = some p') :
    Reached cfg old (msgs ++ pulled events) p' := by
  refine h.induct h.reached (fun {msgs p event q} hrunning _ hstep => ?_) hrun
  obtain ⟨q', heq, hturned⟩ := hrunning.step event
  obtain rfl : q' = q := Option.some.inj (heq.symm.trans hstep)
  rcases hturned with hrunning | ⟨-, hreached⟩
  · exact hrunning.reached
  · exact hreached

/-- The frames a cache starts with. -/
def cachedBefore (cache : Option RequestServer.RingBufferSeqStore) : List CachedFrame :=
  match cache with
  | some c => c.inner
  | none => []

theorem running_new (cfg : PublisherConfig) (cache : Option RequestServer.RingBufferSeqStore) :
    Running cfg (cachedBefore cache) [] (new cfg cache) := by
  refine ⟨⟨[], rfl, rfl, by simp, trivial, rfl, ?_, ?_, ?_, ?_, ?_⟩, rfl⟩
  · simp [new]
  · exact fun hne => absurd rfl hne
  · exact fun hne => absurd rfl hne
  · exact fun hne => absurd rfl hne
  · rintro c rfl
    refine ⟨by simp [cachedBefore, sentFrames], ?_⟩
    simp [cachedBefore, sentFrames, c.length_le]

/-- A cache that started empty has been given every block under its number and has dropped
only the oldest, for lack of room. -/
theorem Packs.cache_holds (h : Packs cfg [] msgs pkts p)
    (hlt : cfg.startSequence.toNat + (sentBlocks pkts).length < 2 ^ 64)
    {c : RequestServer.RingBufferSeqStore} (hc : p.cache = some c) :
    ∃ evicted,
      (evicted ++ c.inner).map CachedFrame.body = (sentBlocks pkts).map MessageBlock.data ∧
      (∀ i f, (evicted ++ c.inner)[i]? = some f →
        f.sequence.toNat = cfg.startSequence.toNat + i) ∧
      (evicted ≠ [] → c.inner.length = c.capacity) := by
  obtain ⟨⟨evicted, heq⟩, hfull⟩ := h.cache c hc
  rw [List.nil_append] at heq hfull
  refine ⟨evicted, by rw [heq, body_sentFrames], ?_, ?_⟩
  · intro i f hf
    rw [heq] at hf
    have hnum := h.sequenced.numbered hlt i (f.sequence, f.body)
      (by rw [List.getElem?_map, hf]; rfl)
    have hi := (List.getElem?_eq_some_iff.mp hf).1
    have hlen := congrArg List.length (body_sentFrames pkts)
    simp only [List.length_map] at hlen
    dsimp only at hnum
    omega
  · intro hne
    have hpos := List.length_pos_of_ne_nil hne
    rw [← heq, List.length_append] at hfull
    omega

/-- A publisher that numbers from `start` and packs up to `mtu` bytes. -/
def publisherFrom (start : UInt64) (mtu : Nat) : PublisherConfig :=
  { session := Vector.replicate 10 0x41, startSequence := start, mtu := mtu, eosBurst := 2 }

/-- The source yields a delete. -/
def pullDelete : PublisherEvent :=
  .next (some (.ok Message.sampleDelete))

/-- Two deletes go out together when the timer fires, then a heartbeat, and the third
delete when the source ends. -/
def sampleEvents : List PublisherEvent :=
  [pullDelete, pullDelete, .timer, .timer, pullDelete, .next none]

theorem run_append (events events' : List PublisherEvent) :
    p.run (events ++ events') = (p.run events).bind fun p => p.run events' :=
  List.foldlM_append

/-- Messages pile up as long as they fit. -/
theorem run_fill (cfg : PublisherConfig) (msg : Message) (k : Nat)
    (hfit : headerLen + k * (2 + msg.wireImage.length) ≤ cfg.mtu) :
    ∃ p, (new cfg none).run (List.replicate k (.next (some (.ok msg)))) = some p ∧ p.cfg = cfg ∧
      p.pendingBlocks.length = k ∧ p.socket = [] ∧ p.result = none ∧
      p.pendingSize = headerLen + k * (2 + msg.wireImage.length) := by
  induction k with
  | zero => exact ⟨_, rfl, rfl, rfl, rfl, rfl, by simp [new]⟩
  | succ k ih =>
      rw [Nat.succ_mul] at hfit
      obtain ⟨p, hrun, rfl, hlen, hsocket, hresult, hsize⟩ := ih (by omega)
      have hpublish : p.publish msg = (.ok (), p.enqueue msg.wireImage) := by
        rw [publish_eq, if_neg]
        · rfl
        · rw [Bool.and_eq_true, decide_eq_true_eq]
          omega
      have hstep : p.step (.next (some (.ok msg))) = some (p.enqueue msg.wireImage) := by
        rw [step_message hresult, hpublish]
        rfl
      refine ⟨p.enqueue msg.wireImage, ?_, ?_⟩
      · rw [List.replicate_succ', run_append, hrun, Option.bind_some, run_cons, hstep]
        rfl
      · rw [enqueue]
        split
        next hempty =>
          have hzero : k = 0 := by rw [← hlen, List.isEmpty_iff.mp hempty, List.length_nil]
          exact ⟨rfl, by simp [hlen], hsocket, hresult, by simp [hzero]⟩
        next =>
          refine ⟨rfl, by simp [hlen], hsocket, hresult, ?_⟩
          rw [hsize, Nat.succ_mul, Nat.add_assoc]

end MoldPublisher

end Itch
