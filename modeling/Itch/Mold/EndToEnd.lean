import Itch.Mold.Completeness
import Itch.Mold.Packing

/-!
# From the publisher to the receiver

The data datagrams of a publisher tile the sequence numbers of its messages.  So two of
them that share a number carry the same numbers, and however they are reordered and
repeated, a datagram that fills the hole of the receiver does not overlap what came before
it.  A receiver that gets each of them at least once delivers every message.
-/

namespace Itch

open Lib

/-- The largest datagram the receiver reads whole. -/
def recvBufferLen : Nat := 2048

namespace ReceiverState

/-- A datagram from the socket. -/
def receive (r : ReceiverState) (datagram : Bytes) : ReceiverState :=
  r.ingestResult (MoldPacket.decode (datagram.take recvBufferLen))

theorem receive_wire (r : ReceiverState) {pkt : MoldPacket} (h : pkt.WellFormed)
    (hlen : pkt.wireLen ≤ recvBufferLen) : r.receive pkt.wire = r.ingest pkt := by
  rw [receive, List.take_of_length_le (pkt.length_wire.trans_le hlen), h.decode_wire, ingestResult]

/-- Packets that carry the same numbers if they share one fill every hole cleanly. -/
theorem fillsCleanly_of_apart {s : Nat} {seen : Set Nat} {pkts : List MoldPacket}
    (hseen : ∀ pkt ∈ pkts, ∀ k ∈ pkt.span, k ∈ seen → pkt.span ⊆ seen)
    (hapart : ∀ pkt ∈ pkts, ∀ pkt' ∈ pkts, ∀ k ∈ pkt.span, k ∈ pkt'.span → pkt.span = pkt'.span) :
    FillsCleanly s seen pkts := by
  induction pkts generalizing seen with
  | nil => trivial
  | cons first pkts ih =>
      refine ⟨?_, ih ?_ ?_⟩
      · intro f hf hmem k hk _ hold
        exact hf.not_mem (hseen first List.mem_cons_self k hk hold hmem)
      · rintro pkt hpkt k hk (hold | hfirst)
        · exact (hseen pkt (List.mem_cons_of_mem _ hpkt) k hk hold).trans Set.subset_union_left
        · rw [hapart pkt (List.mem_cons_of_mem _ hpkt) first List.mem_cons_self k hk hfirst]
          exact Set.subset_union_right
      · intro pkt hpkt pkt' hpkt'
        exact hapart pkt (List.mem_cons_of_mem _ hpkt) pkt' (List.mem_cons_of_mem _ hpkt')

end ReceiverState

/-- Whether a datagram carries sequenced data. -/
def isData (datagram : Bytes) : Bool :=
  match MoldPacket.decode datagram with
  | .ok pkt => !(pkt.header.isHeartbeat || pkt.header.isEndOfSession)
  | .error _ => false

namespace MoldPacket

/-- A well-formed packet carries data when it has blocks. -/
theorem WellFormed.isData_wire {pkt : MoldPacket} (h : pkt.WellFormed) :
    isData pkt.wire = true ↔ pkt.blocks ≠ [] := by
  have hblocks := wellFormed_iff.mp h
  rw [isData, h.decode_wire]
  dsimp only
  split at hblocks
  next hspecial => simp [hspecial, hblocks]
  next hspecial =>
    have hzero : pkt.header.messageCount.toNat ≠ 0 := by
      intro hzero
      refine hspecial ?_
      rw [MoldPacketHeader.isHeartbeat, beq_iff_eq.mpr (UInt16.toNat_inj.mp hzero), Bool.true_or]
    simp only [Bool.not_eq_true] at hspecial
    simp only [hspecial, Bool.not_false, true_iff]
    intro hnil
    rw [hnil] at hblocks
    exact hzero hblocks.1.symm

theorem WellFormed.wire_inj {pkt pkt' : MoldPacket} (h : pkt.WellFormed) (h' : pkt'.WellFormed)
    (heq : pkt.wire = pkt'.wire) : pkt = pkt' :=
  Except.ok.inj (h.decode_wire.symm.trans (heq ▸ h'.decode_wire))

end MoldPacket

namespace MoldPublisher

variable {cfg : PublisherConfig} {old : List CachedFrame} {msgs : List Message}
  {pkts : List MoldPacket} {p : MoldPublisher}

/-- The sequenced datagrams that were sent. -/
def dataDatagrams (p : MoldPublisher) : List Bytes :=
  p.socket.filter isData

/-! ## The publisher runs to the end -/

theorem not_overfull (hmtu : cfg.mtu ≤ recvBufferLen) (err : MoldError) : ¬ Overfull cfg err := by
  rintro ⟨n, -, hmany, hle⟩
  rw [recvBufferLen] at hmtu
  omega

theorem Post.ok {Q : MoldPublisher → Prop} {r : Except MoldError Unit × MoldPublisher}
    (h : Post cfg Q r) (hmtu : cfg.mtu ≤ recvBufferLen) : ∃ p, r = (.ok (), p) ∧ Q p := by
  match r, h with
  | (.ok (), p), h => exact ⟨p, rfl, h⟩
  | (.error err, _), h => exact absurd h (not_overfull hmtu err)

/-- The events are the messages, with firings of the timer anywhere between them. -/
def Schedules (messages : List Message) (events : List PublisherEvent) : Prop :=
  events.filter (· ≠ .timer) = messages.map fun m => .next (some (.ok m))

/-- Over messages and timer firings the loop goes on. -/
theorem Running.schedule (h : Running cfg old msgs p) (hmtu : cfg.mtu ≤ recvBufferLen)
    {messages : List Message} {events : List PublisherEvent} (hevents : Schedules messages events) :
    ∃ p', p.run events = some p' ∧ Running cfg old (msgs ++ messages) p' := by
  induction events generalizing p msgs messages with
  | nil =>
      have hnil : messages = [] := List.map_eq_nil_iff.mp hevents.symm
      exact ⟨p, rfl, by rwa [hnil, List.append_nil]⟩
  | cons event events ih =>
      rw [run_cons]
      by_cases htimer : event = .timer
      · subst htimer
        obtain ⟨q, hdue, hq⟩ := h.heartbeatDue.ok hmtu
        rw [step_timer h.result, hdue]
        refine ih hq ?_
        rw [Schedules, List.filter_cons_of_neg (by simp)] at hevents
        exact hevents
      · rw [Schedules, List.filter_cons_of_pos (by simpa using htimer)] at hevents
        obtain ⟨m, rest, rfl, rfl, hrest⟩ := List.map_eq_cons_iff.mp hevents.symm
        obtain ⟨q, hpublish, hq⟩ := (h.publish m).ok hmtu
        rw [step_message h.result, hpublish, List.append_cons]
        exact ih hq hrest.symm

/-- The end of the source. -/
def isEnd (event : PublisherEvent) : Prop :=
  event = .next none ∨ event = .next (some (.error .exhausted))

theorem Running.finish (h : Running cfg old msgs p) (hmtu : cfg.mtu ≤ recvBufferLen)
    {last : PublisherEvent} (hlast : isEnd last) :
    ∃ p', p.run [last] = some p' ∧ p'.result = some (.ok ()) ∧ p'.pendingBlocks = [] ∧
      ∃ pkts, Packs cfg old msgs pkts p' := by
  obtain ⟨q, hexhaust, ⟨⟨pkts, hpacks⟩, -⟩, hempty⟩ := h.exhaust.ok hmtu
  have hstep : p.step last = some { q with result := some (.ok ()) } := by
    have hgo : ¬ p.result.isSome := by simp [h.result]
    rcases hlast with rfl | rfl
    · exact (if_neg hgo).trans (congrArg (fun r => some (stop r)) hexhaust)
    · exact (if_neg hgo).trans (congrArg (fun r => some (stop r)) hexhaust)
  refine ⟨{ q with result := some (.ok ()) }, ?_, rfl, hempty, pkts, hpacks.returned _⟩
  rw [run_cons, hstep]
  rfl

/-! ## The datagrams are slices of the log -/

/-- The log of the messages. -/
def logOf (msgs : List Message) : List Bytes :=
  msgs.map Message.wireImage

theorem isEncoded_logOf (msgs : List Message) : ∀ b ∈ logOf msgs, ReceiverState.IsEncoded b := by
  intro b hb
  obtain ⟨m, -, rfl⟩ := List.mem_map.mp hb
  exact ⟨m, m.encode_fresh⟩

/-- Everything that was pulled has been sent. -/
structure Sent (cfg : PublisherConfig) (msgs : List Message) (pkts : List MoldPacket) : Prop where
  packets : ∀ pkt ∈ pkts, pkt.WellFormed ∧ pkt.header.session = cfg.session ∧
    pkt.wireLen ≤ max cfg.mtu 72
  blocks : sentBlocks pkts = msgs.map Message.block
  tiles : Tiles (fun pkt : MoldPacket => pkt.header.sequence.toNat) (fun pkt => pkt.blocks.length)
    cfg.startSequence.toNat (cfg.startSequence.toNat + msgs.length) pkts

theorem Packs.sent (h : Packs cfg old msgs pkts p) (hempty : p.pendingBlocks = [])
    (hlt : cfg.startSequence.toNat + msgs.length < 2 ^ 64) : Sent cfg msgs pkts := by
  have hblocks : sentBlocks pkts = msgs.map Message.block := by
    rw [← h.blocks, hempty, List.append_nil]
  have hlen : (sentBlocks pkts).length = msgs.length := by rw [hblocks, List.length_map]
  refine ⟨h.packets, hblocks, ?_⟩
  rw [← hlen] at hlt ⊢
  exact h.sequenced.tiles hlt

/-- A packet with blocks is a slice of the log. -/
theorem Sent.isSlice (h : Sent cfg msgs pkts)
    (hlt : cfg.startSequence.toNat + msgs.length < 2 ^ 64) {pkt : MoldPacket} (hpkt : pkt ∈ pkts)
    (hne : pkt.blocks ≠ []) :
    ReceiverState.IsSlice cfg.session cfg.startSequence (logOf msgs) pkt := by
  obtain ⟨before, after, rfl⟩ := List.append_of_mem hpkt
  obtain ⟨hwf, hsession, -⟩ := h.packets pkt hpkt
  have hseq := h.tiles.first_eq
  have hsplit : sentBlocks before ++ pkt.blocks ++ sentBlocks after = msgs.map Message.block := by
    rw [← h.blocks]
    simp [sentBlocks]
  have hlog : (logOf msgs).map MessageBlock.mk = msgs.map Message.block := by
    rw [logOf, List.map_map]
    rfl
  have hlen := congrArg List.length hsplit
  rw [List.length_append, List.length_append, List.length_map] at hlen
  have hslice : (((logOf msgs).drop (sentBlocks before).length).take pkt.blocks.length).map
      MessageBlock.mk = pkt.blocks := by
    rw [List.map_take, List.map_drop, hlog, ← hsplit, List.append_assoc, List.drop_left,
      List.take_left]
  have hfirst : cfg.startSequence + UInt64.ofNat (sentBlocks before).length
      = pkt.header.sequence := by
    rw [Word64.eq_iff, Word64.toNat_add (by omega), hseq, sentBlocks, List.length_flatMap]
  refine ⟨(sentBlocks before).length, pkt.blocks.length, List.length_pos_of_ne_nil hne, ?_, ?_⟩
  · rw [logOf, List.length_map]
    omega
  · rw [hslice, hfirst, ← hsession]
    cases hwf with
    | data session sequence hle _ => exact MoldPacket.newData_of_le session sequence hle
    | heartbeat => exact absurd rfl hne
    | endOfSession => exact absurd rfl hne

/-- Packets of the publisher that share a number carry the same numbers. -/
theorem Sent.span_eq (h : Sent cfg msgs pkts) {pkt pkt' : MoldPacket} (hpkt : pkt ∈ pkts)
    (hpkt' : pkt' ∈ pkts) {k : Nat} (hk : k ∈ pkt.span) (hk' : k ∈ pkt'.span) :
    pkt.span = pkt'.span := by
  obtain ⟨hfirst, hlen⟩ := h.tiles.same_of_mem hpkt hpkt' hk hk'
  rw [MoldPacket.span, MoldPacket.span, hfirst, hlen]

/-! ## What the receiver gets -/

/-- A packet that the network hands to the receiver: data of the publisher or a heartbeat. -/
def Carried (cfg : PublisherConfig) (pkts : List MoldPacket) (pkt : MoldPacket) : Prop :=
  (pkt ∈ pkts ∧ pkt.blocks ≠ []) ∨ ∃ seq, pkt = .heartbeat cfg.session seq

theorem Carried.span_eq_empty {seq : UInt64} :
    (MoldPacket.heartbeat cfg.session seq).span = ∅ := by
  rw [MoldPacket.span, MoldPacket.heartbeat, List.length_nil, Nat.add_zero, Set.Ico_self]

theorem Sent.wellFormed (h : Sent cfg msgs pkts) (hmtu : cfg.mtu ≤ recvBufferLen)
    {pkt : MoldPacket} (hpkt : Carried cfg pkts pkt) :
    pkt.WellFormed ∧ pkt.wireLen ≤ recvBufferLen := by
  rcases hpkt with ⟨hpkt, -⟩ | ⟨seq, rfl⟩
  · obtain ⟨hwf, -, hlen⟩ := h.packets pkt hpkt
    exact ⟨hwf, hlen.trans (max_le hmtu (by decide))⟩
  · exact ⟨.heartbeat _ _, by simp [MoldPacket.wireLen, MoldPacket.heartbeat, headerLen,
      recvBufferLen]⟩

theorem Sent.feedFacts (h : Sent cfg msgs pkts)
    (hlt : cfg.startSequence.toNat + msgs.length < 2 ^ 64) {pkt : MoldPacket}
    (hpkt : Carried cfg pkts pkt) :
    ReceiverState.FeedFacts cfg.session cfg.startSequence (logOf msgs) pkt := by
  rcases hpkt with ⟨hpkt, hne⟩ | ⟨seq, rfl⟩
  · refine .slice ((h.isSlice hlt hpkt hne).facts ?_ fun b hb => ?_)
    · rwa [logOf, List.length_map]
    · exact (isEncoded_logOf msgs b hb).length_le
  · exact .heartbeat rfl rfl rfl

theorem Sent.apart (h : Sent cfg msgs pkts) {rpkts : List MoldPacket}
    (hrpkts : ∀ pkt ∈ rpkts, Carried cfg pkts pkt) :
    ∀ pkt ∈ rpkts, ∀ pkt' ∈ rpkts, ∀ k ∈ pkt.span, k ∈ pkt'.span → pkt.span = pkt'.span := by
  intro pkt hpkt pkt' hpkt' k hk hk'
  rcases hrpkts pkt hpkt with ⟨hmem, -⟩ | ⟨seq, rfl⟩
  · rcases hrpkts pkt' hpkt' with ⟨hmem', -⟩ | ⟨seq, rfl⟩
    · exact h.span_eq hmem hmem' hk hk'
    · rw [Carried.span_eq_empty] at hk'
      exact absurd hk' (Set.notMem_empty k)
  · rw [Carried.span_eq_empty] at hk
    exact absurd hk (Set.notMem_empty k)

/-- Data that arrives at least once covers the log. -/
theorem Sent.covered (h : Sent cfg msgs pkts) {rpkts : List MoldPacket}
    (hall : ∀ pkt ∈ pkts, pkt.blocks ≠ [] → pkt ∈ rpkts) (k : Nat)
    (hle : cfg.startSequence.toNat ≤ k) (hlt : k < cfg.startSequence.toNat + msgs.length) :
    k ∈ Itch.covered rpkts := by
  obtain ⟨pkt, hpkt, hk⟩ := h.tiles.exists_mem hle hlt
  refine ⟨pkt, hall pkt hpkt ?_, hk⟩
  intro hnil
  have hend := hk.2
  rw [hnil] at hend
  exact absurd hk.1 (Nat.not_le.mpr hend)

/-- The datagrams the receiver gets are packets that the network carries. -/
theorem exists_carried {received : List Bytes}
    (h : ∀ d ∈ received, ∃ pkt, Carried cfg pkts pkt ∧ d = pkt.wire) :
    ∃ rpkts : List MoldPacket, received = rpkts.map MoldPacket.wire ∧
      ∀ pkt ∈ rpkts, Carried cfg pkts pkt := by
  induction received with
  | nil => exact ⟨[], rfl, fun pkt hpkt => absurd hpkt List.not_mem_nil⟩
  | cons d received ih =>
      obtain ⟨hhead, htail⟩ := List.forall_mem_cons.mp h
      obtain ⟨pkt, hpkt, rfl⟩ := hhead
      obtain ⟨rpkts, rfl, hrpkts⟩ := ih htail
      exact ⟨pkt :: rpkts, rfl, List.forall_mem_cons.mpr ⟨hpkt, hrpkts⟩⟩

theorem foldl_receive {rpkts : List MoldPacket}
    (h : ∀ pkt ∈ rpkts, pkt.WellFormed ∧ pkt.wireLen ≤ recvBufferLen) (r : ReceiverState) :
    (rpkts.map MoldPacket.wire).foldl ReceiverState.receive r
      = rpkts.foldl ReceiverState.ingest r := by
  rw [List.foldl_map]
  refine List.foldl_ext _ _ r fun r pkt hpkt => ?_
  exact r.receive_wire (h pkt hpkt).1 (h pkt hpkt).2

theorem mem_dataDatagrams (h : p.socket = pkts.map MoldPacket.wire)
    (hwf : ∀ pkt ∈ pkts, pkt.WellFormed) {d : Bytes} :
    d ∈ p.dataDatagrams ↔ ∃ pkt ∈ pkts, pkt.blocks ≠ [] ∧ d = pkt.wire := by
  rw [dataDatagrams, h, List.mem_filter, List.mem_map]
  constructor
  · rintro ⟨⟨pkt, hpkt, rfl⟩, hdata⟩
    exact ⟨pkt, hpkt, (hwf pkt hpkt).isData_wire.mp hdata, rfl⟩
  · rintro ⟨pkt, hpkt, hne, rfl⟩
    exact ⟨⟨pkt, hpkt, rfl⟩, (hwf pkt hpkt).isData_wire.mpr hne⟩

/-- Messages that fit the wire come back from their encodings. -/
theorem messages_eq_of_decode {messages messages' : List Message}
    (hfits : ∀ m ∈ messages, m.FitsWire)
    (h : List.Forall₂ (fun body m => Message.decode body = .ok m) (logOf messages) messages') :
    messages' = messages := by
  induction messages generalizing messages' with
  | nil =>
      cases h
      rfl
  | cons m messages ih =>
      obtain ⟨hm, hrest⟩ := List.forall_mem_cons.mp hfits
      cases h with
      | cons hdec htail =>
          rw [Message.decode_wireImage, Message.onWire_of_fitsWire hm, Except.ok.injEq] at hdec
          rw [ih hrest htail, hdec]

/-- **From the publisher to the receiver.**  The publisher sends all messages of the source
and returns.  However its data datagrams are reordered and repeated, with heartbeats
anywhere between them, a receiver that gets each of them at least once and whose buffer
never fills up delivers exactly the messages, in order, once, under consecutive numbers. -/
theorem published_messages_delivered (cfg : PublisherConfig)
    (cache : Option RequestServer.RingBufferSeqStore) (hstart : 1 ≤ cfg.startSequence.toNat)
    (hmtu : cfg.mtu ≤ 2048) (messages : List Message) (hfits : ∀ m ∈ messages, m.FitsWire)
    (hlt : cfg.startSequence.toNat + messages.length < 2 ^ 64) (events : List PublisherEvent)
    (hevents : Schedules messages events) (last : PublisherEvent) (hlast : isEnd last) :
    ∃ p, (new cfg cache).run (events ++ [last]) = some p ∧ p.result = some (.ok ()) ∧
      ∀ (rcfg : MoldConfig) (received : List Bytes),
        (rcfg.session = none ∨ rcfg.session = some cfg.session) →
        rcfg.startSequence = cfg.startSequence →
        (∀ d ∈ received,
          d ∈ p.dataDatagrams ∨ ∃ seq, d = (MoldPacket.heartbeat cfg.session seq).wire) →
        (∀ d ∈ p.dataDatagrams, d ∈ received) →
        (∀ before, before <+: received →
          (before.foldl ReceiverState.receive (.new rcfg)).pending.size
            < rcfg.maxPendingMessages) →
        deliveries (received.foldl ReceiverState.receive (.new rcfg)).outbox
            = (messages.zipIdx.map fun (m, i) =>
                .ok (.message (cfg.startSequence + UInt64.ofNat i) m)) ∧
          (received.foldl ReceiverState.receive (.new rcfg)).pending = ∅ := by
  obtain ⟨q, hrun, hq⟩ := (running_new cfg cache).schedule hmtu hevents
  obtain ⟨p, hend, hresult, hempty, pkts, hpacks⟩ := hq.finish hmtu hlast
  rw [List.nil_append] at hpacks
  have hsent := hpacks.sent hempty hlt
  have hwf : ∀ pkt ∈ pkts, pkt.WellFormed := fun pkt hpkt => (hsent.packets pkt hpkt).1
  refine ⟨p, by rw [run_append, hrun, Option.bind_some, hend], hresult, ?_⟩
  intro rcfg received hsession hnum hreceived hall hroom
  have hcarried : ∀ d ∈ received, ∃ pkt, Carried cfg pkts pkt ∧ d = pkt.wire := by
    intro d hd
    rcases hreceived d hd with hdata | ⟨seq, rfl⟩
    · obtain ⟨pkt, hpkt, hne, rfl⟩ := (mem_dataDatagrams hpacks.socket hwf).mp hdata
      exact ⟨pkt, .inl ⟨hpkt, hne⟩, rfl⟩
    · exact ⟨_, .inr ⟨seq, rfl⟩, rfl⟩
  obtain ⟨rpkts, rfl, hrpkts⟩ := exists_carried hcarried
  have hgood : ∀ pkt ∈ rpkts, pkt.WellFormed ∧ pkt.wireLen ≤ recvBufferLen := fun pkt hpkt =>
    hsent.wellFormed hmtu (hrpkts pkt hpkt)
  have hdata : ∀ pkt ∈ pkts, pkt.blocks ≠ [] → pkt ∈ rpkts := by
    intro pkt hpkt hne
    have hmem := hall _ ((mem_dataDatagrams hpacks.socket hwf).mpr ⟨pkt, hpkt, hne, rfl⟩)
    obtain ⟨pkt', hpkt', heq⟩ := List.mem_map.mp hmem
    rwa [← (hgood pkt' hpkt').1.wire_inj (hwf pkt hpkt) heq]
  have hnever : ReceiverState.NeverFull (.new rcfg) rpkts := by
    intro before hbefore
    have hsmall := hroom (before.map MoldPacket.wire) (hbefore.map _)
    rwa [foldl_receive fun pkt hpkt => hgood pkt (hbefore.subset hpkt)] at hsmall
  have hne : cfg.startSequence ≠ 0 := by
    intro hzero
    rw [hzero] at hstart
    exact absurd hstart (by decide)
  have hcomplete := ReceiverState.complete_of_fillsCleanly hne (isEncoded_logOf messages)
    (by rwa [logOf, List.length_map]) hsession hnum
    (fun pkt hpkt => hsent.feedFacts hlt (hrpkts pkt hpkt))
    (by rw [logOf, List.length_map]; exact hsent.covered hdata) hnever
    (ReceiverState.fillsCleanly_of_apart (fun _ _ _ _ hk => absurd hk (Set.notMem_empty _))
      (hsent.apart hrpkts))
  rw [foldl_receive hgood]
  obtain ⟨messages', hdec, hout⟩ := hcomplete.delivered
  rw [messages_eq_of_decode hfits hdec] at hout
  exact ⟨hout, hcomplete.pending⟩

/-- A delete of an order. -/
def deleteOf (ref : UInt64) : Message :=
  .orderDelete { header := ⟨7, 13, 5⟩, orderRef := ref }

/-- Two deletes go out together when the timer fires, then a heartbeat, then the third. -/
def threeDeletes : List PublisherEvent :=
  [.next (some (.ok (deleteOf 1))), .next (some (.ok (deleteOf 2))), .timer, .timer,
    .next (some (.ok (deleteOf 3)))]

/-- The data datagrams arrive in reverse. -/
theorem published_messages_delivered_reversed :
    ∃ p, (new (publisherFrom 1 1400) none).run (threeDeletes ++ [.next none]) = some p ∧
      p.dataDatagrams.length = 2 ∧
      deliveries (p.dataDatagrams.reverse.foldl ReceiverState.receive
          (.new ReceiverState.fromOne)).outbox
        = [.ok (.message 1 (deleteOf 1)), .ok (.message 2 (deleteOf 2)),
            .ok (.message 3 (deleteOf 3))] ∧
      (p.dataDatagrams.reverse.foldl ReceiverState.receive
          (.new ReceiverState.fromOne)).pending = ∅ := by
  have heval : ((new (publisherFrom 1 1400) none).run (threeDeletes ++ [.next none])).map
      (fun p => (p.dataDatagrams.length, p.dataDatagrams.reverse.inits.all fun before =>
        decide ((before.foldl ReceiverState.receive (.new ReceiverState.fromOne)).pending.size < 8)))
      = some (2, true) := by
    decide +kernel
  obtain ⟨p, hrun, -, hdelivered⟩ := published_messages_delivered (publisherFrom 1 1400) none
    (by decide) (by decide) [deleteOf 1, deleteOf 2, deleteOf 3] (by decide) (by decide)
    threeDeletes (by unfold Schedules; decide +kernel) (.next none) (.inl rfl)
  rw [hrun, Option.map_some, Option.some.injEq, Prod.mk.injEq, List.all_eq_true] at heval
  obtain ⟨hlen, hsmall⟩ := heval
  refine ⟨p, hrun, hlen, hdelivered ReceiverState.fromOne p.dataDatagrams.reverse (.inr rfl) rfl
    (fun d hd => .inl (List.mem_reverse.mp hd)) (fun d hd => List.mem_reverse.mpr hd) ?_⟩
  intro before hbefore
  exact of_decide_eq_true (hsmall before ((List.mem_inits _ _).mpr hbefore))

/-- A receiver that waits for the last number of the sequence space. -/
def fromLast : MoldConfig :=
  { ReceiverState.fromOne with startSequence := Word64.max }

/-- A message under the last number of the sequence space is sent and arrives, but the end of
its packet wraps to zero and the receiver takes it for one that was delivered before. -/
theorem last_number_not_delivered :
    ∃ p, (new (publisherFrom Word64.max 1400) none).run [pullDelete, .next none] = some p ∧
      p.result = some (.ok ()) ∧ p.dataDatagrams.length = 1 ∧
      (p.dataDatagrams.foldl ReceiverState.receive (.new fromLast)).outbox = [] ∧
      (p.dataDatagrams.foldl ReceiverState.receive (.new fromLast)).pending.size = 0 := by
  have heval : ((new (publisherFrom Word64.max 1400) none).run [pullDelete, .next none]).map
      (fun p => (p.result, p.dataDatagrams.length,
        (p.dataDatagrams.foldl ReceiverState.receive (.new fromLast)).outbox,
        (p.dataDatagrams.foldl ReceiverState.receive (.new fromLast)).pending.size))
      = some (some (.ok ()), 1, [], 0) := by
    decide +kernel
  obtain ⟨p, hrun, hp⟩ := Option.map_eq_some_iff.mp heval
  simp only [Prod.mk.injEq] at hp
  exact ⟨p, hrun, hp⟩

end MoldPublisher

end Itch
