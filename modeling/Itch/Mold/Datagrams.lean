import Itch.Mold.EndToEnd

/-!
# What the publisher sends, and what it does not

The size of a datagram: a block is added to others only within the `mtu`, but the first block
of a packet is taken whatever its size.  So the datagrams keep within the `mtu` exactly if
every message fits a datagram of its own.

The end of the task: the pending blocks are flushed when the source is exhausted.  On any other
error of the source the task returns at once, and the messages it has pulled and numbered but
not sent are lost.
-/

namespace Itch

open Lib

namespace MoldPublisher

variable {cfg : PublisherConfig} {old : List CachedFrame} {msgs : List Message}
  {pkts : List MoldPacket} {p q : MoldPublisher} {bound : Nat}

/-! ## The size of the datagrams -/

/-- The data datagrams and the pending blocks keep within a size. -/
structure Within (bound : Nat) (p : MoldPublisher) : Prop where
  sent : ∀ d ∈ p.dataDatagrams, d.length ≤ bound
  pending : p.pendingBlocks ≠ [] → p.pendingSize ≤ bound

theorem flushPending_cases (hne : p.pendingBlocks ≠ []) :
    p.pendingBlocks.length ≤ 65534 ∧ p.flushPending = (.ok (), p.flushed) ∨
      65535 ≤ p.pendingBlocks.length ∧
        p.flushPending =
          (.error (.tooManyBlocks p.pendingBlocks.length), { p with pendingBlocks := [] }) := by
  by_cases hlen : p.pendingBlocks.length ≤ 65534
  · exact .inl ⟨hlen, flushPending_eq hne hlen⟩
  · have hmany : 65535 ≤ p.pendingBlocks.length := by omega
    exact .inr ⟨hmany, flushPending_tooMany hmany⟩

namespace Within

/-- A packet without blocks. -/
theorem send (h : Within bound p) {pkt : MoldPacket} (hpkt : pkt.WellFormed)
    (hblocks : pkt.blocks = []) :
    Within bound { p with socket := p.socket ++ [pkt.wire] } := by
  refine ⟨fun d hd => ?_, h.pending⟩
  have hcontrol : ¬ isData pkt.wire = true := fun hdata => hpkt.isData_wire.mp hdata hblocks
  rw [dataDatagrams, List.filter_append, List.filter_cons_of_neg hcontrol, List.filter_nil,
    List.append_nil] at hd
  exact h.sent d hd

theorem flushPending (h : Within bound p) (hpacks : Packs cfg old msgs pkts p)
    (hne : p.pendingBlocks ≠ []) : Within bound p.flushPending.2 := by
  rcases flushPending_cases hne with ⟨-, heq⟩ | ⟨-, heq⟩
  · rw [heq]
    refine ⟨fun d hd => ?_, fun hne' => absurd rfl hne'⟩
    obtain ⟨hmem, hdata⟩ := List.mem_filter.mp hd
    rcases List.mem_append.mp hmem with hold | hnew
    · exact h.sent d (List.mem_filter.mpr ⟨hold, hdata⟩)
    · rw [List.mem_singleton.mp hnew, MoldPacket.length_wire]
      exact (hpacks.size hne).symm.trans_le (h.pending hne)
  · rw [heq]
    exact ⟨h.sent, fun hne' => absurd rfl hne'⟩

/-- A message is added to blocks it fits with, or begins a packet it fits alone. -/
theorem enqueue (h : Within bound p) {body : Bytes}
    (hroom : p.pendingBlocks ≠ [] → p.pendingSize + (2 + body.length) ≤ bound)
    (halone : headerLen + (2 + body.length) ≤ bound) : Within bound (p.enqueue body) := by
  unfold MoldPublisher.enqueue
  split
  next => exact ⟨h.sent, fun _ => halone⟩
  next hne => exact ⟨h.sent, fun _ => hroom (by simpa using hne)⟩

theorem andThen {r : Except MoldError Unit × MoldPublisher}
    {next : MoldPublisher → Except MoldError Unit × MoldPublisher} (h : Within bound r.2)
    (hnext : ∀ q, r = (.ok (), q) → Within bound q → Within bound (next q).2) :
    Within bound (andThen r next).2 := by
  match r, h with
  | (.ok (), q), h => exact hnext q rfl h
  | (.error _, _), h => exact h

theorem publish (h : Within bound p) (hpacks : Packs cfg old msgs pkts p) (hmtu : cfg.mtu ≤ bound)
    (msg : Message) (halone : headerLen + (2 + msg.wireImage.length) ≤ bound) :
    Within bound (p.publish msg).2 := by
  rw [publish_eq]
  split
  next hfull =>
    rw [Bool.and_eq_true] at hfull
    have hne : p.pendingBlocks ≠ [] := by simpa using hfull.1
    refine (h.flushPending hpacks hne).andThen fun q hq hwithin => ?_
    refine hwithin.enqueue (fun hne' => ?_) halone
    rcases flushPending_cases hne with ⟨-, heq⟩ | ⟨-, heq⟩
    · rw [heq] at hq
      cases hq
      exact absurd rfl hne'
    · rw [heq] at hq
      cases hq
  next hfit =>
    refine h.enqueue (fun hne => ?_) halone
    rw [hpacks.cfg_eq] at hfit
    exact le_trans (by simpa [hne] using hfit) hmtu

theorem heartbeatDue (h : Within bound p) (hpacks : Packs cfg old msgs pkts p) :
    Within bound p.heartbeatDue.2 := by
  unfold MoldPublisher.heartbeatDue
  split
  next hne => exact h.flushPending hpacks (by simpa using hne)
  next =>
    rw [sendHeartbeat, sendPacket_eq]
    exact h.send (.heartbeat _ _) rfl

theorem sendBurst (h : Within bound p) (count : Nat) : Within bound (sendBurst count p).2 := by
  induction count generalizing p with
  | zero => exact h
  | succ count ih =>
      rw [MoldPublisher.sendBurst, sendEndOfSession, sendPacket_eq]
      exact ih (h.send (.endOfSession _ _) rfl)

theorem exhaust (h : Within bound p) (hpacks : Packs cfg old msgs pkts p) :
    Within bound p.exhaust.2 := by
  have hflush : Within bound
      (if !p.pendingBlocks.isEmpty then p.flushPending else (.ok (), p)).2 := by
    split
    next hne => exact h.flushPending hpacks (by simpa using hne)
    next => exact h
  refine hflush.andThen fun q _ hq => ?_
  exact (hq.sendBurst _).andThen fun q' _ hq' => ⟨hq'.sent, hq'.pending⟩

theorem returned (h : Within bound p) (result : Option (Except MoldError Unit)) :
    Within bound { p with result := result } :=
  ⟨h.sent, h.pending⟩

theorem step (h : Within bound p) (hrunning : Running cfg old msgs p) (hmtu : cfg.mtu ≤ bound)
    {event : PublisherEvent}
    (halone : ∀ m ∈ pulled [event], headerLen + m.block.wireLen ≤ bound)
    (hstep : p.step event = some q) : Within bound q := by
  obtain ⟨⟨pkts, hpacks⟩, hresult⟩ := hrunning
  have hgo : ¬ p.result.isSome := by simp [hresult]
  have hstop {r : Except MoldError Unit × MoldPublisher} (hr : Within bound r.2) :
      Within bound (stopAtError r) := by
    match r, hr with
    | (.ok (), _), hr => exact hr
    | (.error _, _), hr => exact hr.returned _
  match event with
  | .next (some (.ok msg)) =>
      cases (step_message hresult msg).symm.trans hstep
      exact hstop (h.publish hpacks hmtu msg (halone msg List.mem_cons_self))
  | .next none | .next (some (.error .exhausted)) =>
      cases (if_neg hgo).symm.trans hstep
      exact (h.exhaust hpacks).returned _
  | .next (some (.error .backend)) | .next (some (.error .invariant)) =>
      cases (if_neg hgo).symm.trans hstep
      exact h.returned _
  | .timer =>
      cases (step_timer hresult).symm.trans hstep
      exact hstop (h.heartbeatDue hpacks)

theorem new (cfg : PublisherConfig) (cache : Option RequestServer.RingBufferSeqStore)
    (bound : Nat) : Within bound (new cfg cache) :=
  ⟨fun _ hd => absurd hd List.not_mem_nil, fun hne => absurd rfl hne⟩

theorem run {events : List PublisherEvent} (h : Within bound p) (hrunning : Running cfg old [] p)
    (hmtu : cfg.mtu ≤ bound)
    (halone : ∀ m ∈ pulled events, headerLen + m.block.wireLen ≤ bound)
    (hrun : p.run events = some q) : Within bound q := by
  refine hrunning.induct
    (J := fun msgs p => (∀ m ∈ msgs, headerLen + m.block.wireLen ≤ bound) → Within bound p)
    (fun _ => h) (fun hrunning hp hstep hmsgs => ?_) hrun halone
  exact (hp fun m hm => hmsgs m (List.mem_append_left _ hm)).step hrunning hmtu
    (fun m hm => hmsgs m (List.mem_append_right _ hm)) hstep

end Within

/-- The source yields the messages and ends. -/
def pullAll (msgs : List Message) : List PublisherEvent :=
  msgs.map (fun m => .next (some (.ok m))) ++ [.next none]

theorem pulled_pullAll (msgs : List Message) : pulled (pullAll msgs) = msgs := by
  induction msgs with
  | nil => rfl
  | cons m msgs ih =>
      rw [pullAll, List.map_cons, List.cons_append, pulled_cons, ← pullAll, ih]
      rfl

/-- With a small `mtu` every message is sent. -/
theorem exists_datagram_of_mem (cfg : PublisherConfig)
    (cache : Option RequestServer.RingBufferSeqStore) (hmtu : cfg.mtu ≤ recvBufferLen) {m : Message}
    (hm : m ∈ msgs) :
    ∃ p, (new cfg cache).run (pullAll msgs) = some p ∧
      ∃ d ∈ p.dataDatagrams, headerLen + m.block.wireLen ≤ d.length := by
  have hschedule : Schedules msgs (msgs.map fun m => .next (some (.ok m))) := by
    refine List.filter_eq_self.mpr fun event hevent => ?_
    obtain ⟨m, -, rfl⟩ := List.mem_map.mp hevent
    rfl
  obtain ⟨q, hq, hrunning⟩ := (running_new cfg cache).schedule hmtu hschedule
  obtain ⟨p, hp, -, hempty, pkts, hpacks⟩ := hrunning.finish hmtu (.inl rfl)
  refine ⟨p, ?_, ?_⟩
  · rw [pullAll, run_append, hq, Option.bind_some, hp]
  · have hblocks := hpacks.blocks
    rw [hempty, List.append_nil, List.nil_append] at hblocks
    have hmem : m.block ∈ sentBlocks pkts := hblocks ▸ List.mem_map_of_mem hm
    obtain ⟨pkt, hpkt, hblock⟩ := List.mem_flatMap.mp hmem
    refine ⟨pkt.wire, ?_, ?_⟩
    · exact (mem_dataDatagrams hpacks.socket fun pkt hpkt => (hpacks.packets pkt hpkt).1).mpr
        ⟨pkt, hpkt, List.ne_nil_of_mem hblock, rfl⟩
    · rw [pkt.length_wire, MoldPacket.wireLen]
      exact Nat.add_le_add_left (List.le_sum_of_mem (List.mem_map_of_mem hblock)) _

/-- Whatever the timer does, the data datagrams keep within the `mtu`, exactly if every message
of the stream fits a datagram of its own. -/
theorem datagrams_within_mtu_iff (cfg : PublisherConfig)
    (cache : Option RequestServer.RingBufferSeqStore) (msgs : List Message) :
    (∀ events p, pulled events = msgs → (new cfg cache).run events = some p →
        ∀ d ∈ p.dataDatagrams, d.length ≤ cfg.mtu) ↔
      ∀ m ∈ msgs, headerLen + (2 + m.encodedLen) ≤ cfg.mtu := by
  have hlen (m : Message) : headerLen + m.block.wireLen = headerLen + (2 + m.encodedLen) := by
    rw [MessageBlock.wireLen, Message.block, m.wireImage_length, blockLenPrefix]
  constructor
  · intro h m hm
    by_contra hover
    have hmtu : cfg.mtu ≤ recvBufferLen := by
      have hle := m.encodedLen_le
      rw [headerLen] at hover
      rw [recvBufferLen]
      omega
    obtain ⟨p, hrun, d, hd, hbig⟩ := exists_datagram_of_mem cfg cache hmtu hm
    have hsmall := h _ p (pulled_pullAll msgs) hrun d hd
    rw [hlen] at hbig
    omega
  · rintro h events p rfl hrun
    have halone : ∀ m ∈ pulled events, headerLen + m.block.wireLen ≤ cfg.mtu := by
      intro m hm
      rw [hlen]
      exact h m hm
    exact ((Within.new cfg cache cfg.mtu).run (running_new cfg cache) le_rfl halone hrun).sent

/-- A delete is sent in a datagram of 41 bytes with an `mtu` of 30. -/
theorem datagram_over_mtu :
    ∃ p, (new (publisherFrom 1 30) none).run [pullDelete, .timer] = some p ∧
      ∃ d ∈ p.dataDatagrams, d.length = 41 := by
  have heval : ((new (publisherFrom 1 30) none).run [pullDelete, .timer]).map
      (fun p => p.dataDatagrams.map List.length) = some [41] := by
    decide +kernel
  obtain ⟨p, hrun, hp⟩ := Option.map_eq_some_iff.mp heval
  have hmem : 41 ∈ p.dataDatagrams.map List.length := hp ▸ List.mem_singleton_self 41
  obtain ⟨d, hd, hlen⟩ := List.mem_map.mp hmem
  exact ⟨p, hrun, d, hd, hlen⟩

/-! ## The end of the task -/

/-- The blocks of a datagram. -/
def blocksOf (datagram : Bytes) : List MessageBlock :=
  match MoldPacket.decode datagram with
  | .ok pkt => pkt.blocks
  | .error _ => []

/-- The messages have all been sent, in their order, and given to the cache. -/
structure AllSent (cache : Option RequestServer.RingBufferSeqStore) (msgs : List Message)
    (p : MoldPublisher) : Prop where
  sent : p.socket.flatMap blocksOf = msgs.map Message.block
  cached : ∀ c, p.cache = some c → ∃ frames,
    frames.map CachedFrame.body = msgs.map Message.wireImage ∧
      c.Retains (cachedBefore cache ++ frames)

theorem Packs.blocksOf_socket (h : Packs cfg old msgs pkts p) :
    p.socket.flatMap blocksOf = sentBlocks pkts := by
  rw [h.socket, List.flatMap_map]
  refine List.flatMap_congr fun pkt hpkt => ?_
  rw [blocksOf, (h.packets pkt hpkt).1.decode_wire]

variable {cache : Option RequestServer.RingBufferSeqStore}

theorem Packs.allSent (h : Packs cfg (cachedBefore cache) msgs pkts p)
    (hempty : p.pendingBlocks = []) : AllSent cache msgs p := by
  have hblocks : sentBlocks pkts = msgs.map Message.block := by
    rw [← h.blocks, hempty, List.append_nil]
  refine ⟨h.blocksOf_socket.trans hblocks, fun c hc => ⟨sentFrames pkts, ?_, h.cache c hc⟩⟩
  rw [body_sentFrames, hblocks, List.map_map]
  rfl

/-- Blocks that were pending have not been sent as long as nothing more is sent. -/
theorem AllSent.pending_eq_nil {msgs' : List Message} (h : AllSent cache msgs' p)
    (hpacks : Packs cfg old msgs pkts q) (hsocket : p.socket = q.socket)
    (hle : msgs.length ≤ msgs'.length) : q.pendingBlocks = [] := by
  have hlen := congrArg List.length h.sent
  rw [hsocket, hpacks.blocksOf_socket, List.length_map] at hlen
  have hall := hpacks.length_eq
  exact List.eq_nil_of_length_eq_zero (by omega)

/-- A running task that has pulled `msgs`. -/
theorem running_of_step {events : List PublisherEvent} {event : PublisherEvent}
    (hrun : (new cfg cache).run events = some q) (hstep : q.step event = some p) :
    Running cfg (cachedBefore cache) (pulled events) q := by
  have hresult : q.result = none := by
    by_contra hsome
    rw [step_of_returned (Option.isSome_iff_ne_none.mpr hsome)] at hstep
    cases hstep
  cases (running_new cfg cache).run hrun with
  | packs hpacks => exact ⟨⟨_, hpacks⟩, hresult⟩
  | overfull herr =>
      rw [hresult] at herr
      cases herr

/-! ### The calls that fail -/

variable {err : MoldError} {r : Except MoldError Unit × MoldPublisher}

theorem flushPending_failed (h : q.flushPending = (.error err, p)) :
    65535 ≤ q.pendingBlocks.length ∧ p.socket = q.socket := by
  by_cases hempty : q.pendingBlocks = []
  · rw [flushPending, if_pos (by simpa using hempty)] at h
    cases h
  · rcases flushPending_cases hempty with ⟨-, heq⟩ | ⟨hmany, heq⟩
    · rw [heq] at h
      cases h
    · rw [heq] at h
      cases h
      exact ⟨hmany, rfl⟩

theorem andThen_failed {next : MoldPublisher → Except MoldError Unit × MoldPublisher}
    (hnext : ∀ q, ∃ q', next q = (.ok (), q')) (h : andThen r next = (.error err, p)) :
    r = (.error err, p) := by
  match r, h with
  | (.ok (), q), h =>
      obtain ⟨q', hq'⟩ := hnext q
      rw [andThen, hq'] at h
      cases h
  | (.error _, _), h => exact h

theorem eosBurst_ok (q : MoldPublisher) : ∃ q', q.eosBurst = (.ok (), q') := by
  have hburst : ∀ count q, ∃ q', sendBurst count q = (.ok (), q') := by
    intro count
    induction count with
    | zero => exact fun q => ⟨q, rfl⟩
    | succ count ih =>
        intro q
        rw [sendBurst, sendEndOfSession, sendPacket_eq]
        exact ih _
  obtain ⟨q', hq'⟩ := hburst q.cfg.eosBurst q
  rw [eosBurst, hq']
  exact ⟨_, rfl⟩

/-- A conditional flush fails only by the flush. -/
theorem flushIf_failed {b : Bool} (h : (if b then q.flushPending else (.ok (), q)) = (.error err, p)) :
    65535 ≤ q.pendingBlocks.length ∧ p.socket = q.socket := by
  split at h
  next => exact flushPending_failed h
  next => cases h

theorem publish_failed {msg : Message} (h : q.publish msg = (.error err, p)) :
    65535 ≤ q.pendingBlocks.length ∧ p.socket = q.socket := by
  rw [publish_eq] at h
  exact flushIf_failed (andThen_failed (fun q => ⟨_, rfl⟩) h)

theorem exhaust_failed (h : q.exhaust = (.error err, p)) :
    65535 ≤ q.pendingBlocks.length ∧ p.socket = q.socket :=
  flushIf_failed (andThen_failed eosBurst_ok h)

theorem heartbeatDue_failed (h : q.heartbeatDue = (.error err, p)) :
    65535 ≤ q.pendingBlocks.length ∧ p.socket = q.socket := by
  unfold heartbeatDue at h
  split at h
  next => exact flushPending_failed h
  next =>
    rw [sendHeartbeat, sendPacket_eq] at h
    cases h

theorem ne_nil_of_tooMany (h : 65535 ≤ q.pendingBlocks.length) : q.pendingBlocks ≠ [] := by
  intro hnil
  rw [hnil] at h
  exact absurd h (by decide)

theorem exhaust_tooMany (h : 65535 ≤ q.pendingBlocks.length) :
    ∃ err q', q.exhaust = (.error err, q') := by
  have hne : (!q.pendingBlocks.isEmpty) = true := by simpa using ne_nil_of_tooMany h
  rw [exhaust, if_pos hne, flushPending_tooMany h]
  exact ⟨_, _, rfl⟩

/-! ### What is pending -/

/-- The messages pulled since the timer last fired. -/
def sinceTimer (events : List PublisherEvent) : List Message :=
  events.foldl (fun msgs event =>
    match event with
    | .timer => []
    | .next (some (.ok msg)) => msgs ++ [msg]
    | .next _ => msgs) []

/-- The last packet when messages are packed in their order, as many in a packet as the `mtu`
allows. -/
def filling (mtu : Nat) (msgs : List Message) : List Message :=
  msgs.foldl (fun packet msg =>
    if headerLen + ((packet ++ [msg]).map fun m => 2 + m.encodedLen).sum ≤ mtu then
      packet ++ [msg]
    else [msg]) []

theorem filling_concat (mtu : Nat) (msgs : List Message) (msg : Message) :
    filling mtu (msgs ++ [msg]) =
      if headerLen + ((filling mtu msgs ++ [msg]).map fun m => 2 + m.encodedLen).sum ≤ mtu then
        filling mtu msgs ++ [msg]
      else [msg] := by
  rw [filling, List.foldl_append]
  rfl

theorem filling_eq_nil_iff {mtu : Nat} : filling mtu msgs = [] ↔ msgs = [] := by
  induction msgs using List.reverseRecOn with
  | nil => exact iff_of_true rfl rfl
  | append_singleton msgs msg =>
      rw [filling_concat]
      split
      next => simp
      next => simp

theorem publish_pending {msg : Message} (hpacks : Packs cfg old msgs pkts q)
    {packet : List Message} (hpending : q.pendingBlocks = packet.map Message.block)
    (h : q.publish msg = (.ok (), p)) :
    p.pendingBlocks =
      (if headerLen + ((packet ++ [msg]).map fun m => 2 + m.encodedLen).sum ≤ cfg.mtu then
        packet ++ [msg]
      else [msg]).map Message.block := by
  have hblock : ({ data := msg.wireImage } : MessageBlock) = msg.block := rfl
  -- the size of the packet that the message would join
  have hsize : q.pendingBlocks ≠ [] → q.pendingSize + (2 + msg.wireImage.length) =
      headerLen + ((packet ++ [msg]).map fun m => 2 + m.encodedLen).sum := by
    intro hne
    have hlen (m : Message) : m.block.wireLen = 2 + m.encodedLen := by
      rw [MessageBlock.wireLen, Message.block, m.wireImage_length, blockLenPrefix]
    rw [hpacks.size hne, hpending, List.map_map, List.map_append, List.sum_append,
      msg.wireImage_length, Nat.add_assoc]
    simp [Function.comp_def, hlen]
  rw [publish_eq] at h
  by_cases hne : q.pendingBlocks = []
  · rw [hne] at h hpending
    have hpacket : packet = [] := List.map_eq_nil_iff.mp hpending.symm
    cases h
    rw [enqueue, hpacket, List.nil_append, ite_self]
    simp [hne, hblock]
  · have hflag : (!q.pendingBlocks.isEmpty) = true := by simpa using hne
    rw [hflag, Bool.true_and, hsize hne, hpacks.cfg_eq] at h
    split at h
    next hfull =>
      rw [decide_eq_true_eq] at hfull
      rw [if_neg (Nat.not_le.mpr hfull)]
      rcases flushPending_cases hne with ⟨-, heq⟩ | ⟨-, heq⟩
      · rw [heq] at h
        cases h
        rfl
      · rw [heq] at h
        cases h
    next hroom =>
      rw [decide_eq_true_eq, Nat.not_lt] at hroom
      rw [if_pos hroom]
      cases h
      rw [enqueue, List.map_append, ← hpending]
      simp [hne, hblock]

theorem heartbeatDue_pending (h : q.heartbeatDue = (.ok (), p)) : p.pendingBlocks = [] := by
  unfold heartbeatDue at h
  split at h
  next hne =>
    rcases flushPending_cases (by simpa using hne) with ⟨-, heq⟩ | ⟨-, heq⟩
    · rw [heq] at h
      cases h
      rfl
    · rw [heq] at h
      cases h
  next hempty =>
    rw [sendHeartbeat, sendPacket_eq] at h
    cases h
    simpa using hempty

theorem eq_of_stopAtError (h : stopAtError r = q) (hresult : q.result = none) :
    r = (.ok (), q) := by
  match r, h with
  | (.ok (), _), rfl => rfl
  | (.error _, _), rfl => cases hresult

/-- As long as the task runs, the pending blocks are the messages since the timer last fired that
were not sent to make room. -/
theorem pending_eq_filling {events : List PublisherEvent}
    (hrun : (new cfg cache).run events = some q) (hresult : q.result = none) :
    q.pendingBlocks = (filling cfg.mtu (sinceTimer events)).map Message.block := by
  induction events using List.reverseRecOn generalizing q with
  | nil =>
      cases hrun
      rfl
  | append_singleton events event ih =>
      rw [run_append] at hrun
      obtain ⟨q₀, hbefore, hlast⟩ := Option.bind_eq_some_iff.mp hrun
      rw [run_cons] at hlast
      obtain ⟨q₁, hstep, hdone⟩ := Option.bind_eq_some_iff.mp hlast
      cases hdone
      obtain ⟨⟨pkts, hpacks⟩, hrunning⟩ := running_of_step hbefore hstep
      have hpending := ih hbefore hrunning
      have hgo : ¬ q₀.result.isSome := by simp [hrunning]
      rw [sinceTimer, List.foldl_append]
      match event with
      | .next (some (.ok msg)) =>
          have heq := Option.some.inj ((step_message hrunning msg).symm.trans hstep)
          show _ = (filling cfg.mtu (sinceTimer events ++ [msg])).map Message.block
          rw [filling_concat]
          exact publish_pending hpacks hpending (eq_of_stopAtError heq hresult)
      | .timer =>
          have heq := Option.some.inj ((step_timer hrunning).symm.trans hstep)
          exact heartbeatDue_pending (eq_of_stopAtError heq hresult)
      | .next none | .next (some (.error .exhausted)) | .next (some (.error .backend))
      | .next (some (.error .invariant)) =>
          cases (if_neg hgo).symm.trans hstep
          cases hresult

/-! ### The turn that ends the task -/

/-- The event ends the task with messages that are not sent: an error of the source other than
its exhaustion while messages were pulled that the timer has not fired since, or more blocks in
the last packet than a packet can announce. -/
def Loses (mtu : Nat) (events : List PublisherEvent) : PublisherEvent → Prop
  | .next (some (.error .backend)) | .next (some (.error .invariant)) => sinceTimer events ≠ []
  | _ => 65535 ≤ (filling mtu (sinceTimer events)).length

/-- A call that fails loses the pending blocks. -/
theorem not_allSent_of_failed {msgs' : List Message} (h : Packs cfg old msgs pkts q)
    (hfailed : 65535 ≤ q.pendingBlocks.length ∧ p.socket = q.socket)
    (hle : msgs.length ≤ msgs'.length) : ¬ AllSent cache msgs' p := fun hsent =>
  ne_nil_of_tooMany hfailed.1 (hsent.pending_eq_nil h hfailed.2 hle)

/-- The task returns in the middle of a turn only if a call has failed. -/
theorem Packs.allSent_stopAtError_iff {msgs' : List Message} (h : Packs cfg old msgs pkts q)
    (hpost : Post cfg (Running cfg old msgs') r)
    (hfailed : ∀ err p, r = (.error err, p) →
      65535 ≤ q.pendingBlocks.length ∧ p.socket = q.socket)
    (hreturn : (stopAtError r).result.isSome) (hle : msgs.length ≤ msgs'.length) :
    AllSent cache msgs' (stopAtError r) ↔ ¬ 65535 ≤ q.pendingBlocks.length := by
  match r, hpost with
  | (.ok (), p), hpost =>
      rw [stopAtError, hpost.result] at hreturn
      cases hreturn
  | (.error err, p), _ =>
      have hlost := hfailed err p rfl
      exact iff_of_false (not_allSent_of_failed h hlost hle) (not_not.mpr hlost.1)

theorem Running.allSent_exhaust_iff (h : Running cfg (cachedBefore cache) msgs q) :
    AllSent cache msgs (stop q.exhaust) ↔ ¬ 65535 ≤ q.pendingBlocks.length := by
  have hpost := h.exhaust
  obtain ⟨pkts, hpacks⟩ := h.packs
  cases hexhaust : q.exhaust with
  | mk result p =>
      cases result with
      | error err =>
          have hlost := exhaust_failed hexhaust
          exact iff_of_false (not_allSent_of_failed hpacks hlost le_rfl) (not_not.mpr hlost.1)
      | ok =>
          rw [hexhaust] at hpost
          obtain ⟨⟨⟨pkts', hpacks'⟩, -⟩, hempty⟩ := hpost
          refine iff_of_true ((hpacks'.returned _).allSent hempty) fun hmany => ?_
          obtain ⟨err, q', hfailed⟩ := exhaust_tooMany hmany
          rw [hexhaust] at hfailed
          cases hfailed

theorem pulled_concat (events : List PublisherEvent) (event : PublisherEvent) :
    pulled (events ++ [event]) = pulled events ++ pulled [event] :=
  List.filterMap_append

/-- When the task returns, every message it has pulled has been sent and given to the cache,
exactly if its last event loses none. -/
theorem all_sent_iff_not_loses (cfg : PublisherConfig)
    (cache : Option RequestServer.RingBufferSeqStore) (events : List PublisherEvent)
    (event : PublisherEvent) (q p : MoldPublisher) (hrun : (new cfg cache).run events = some q)
    (hstep : q.step event = some p) (hreturn : p.result.isSome) :
    AllSent cache (pulled (events ++ [event])) p ↔ ¬ Loses cfg.mtu events event := by
  have hrunning := running_of_step hrun hstep
  have hresult := hrunning.result
  have hpending := pending_eq_filling hrun hresult
  have hlen : (filling cfg.mtu (sinceTimer events)).length = q.pendingBlocks.length := by
    rw [hpending, List.length_map]
  have hnil : sinceTimer events = [] ↔ q.pendingBlocks = [] := by
    rw [hpending, List.map_eq_nil_iff, filling_eq_nil_iff]
  obtain ⟨pkts, hpacks⟩ := hrunning.packs
  have hgo : ¬ q.result.isSome := by simp [hresult]
  rw [pulled_concat]
  match event with
  | .next (some (.ok msg)) =>
      cases (step_message hresult msg).symm.trans hstep
      show AllSent _ _ _ ↔ ¬ 65535 ≤ (filling cfg.mtu (sinceTimer events)).length
      rw [hlen]
      exact hpacks.allSent_stopAtError_iff (hrunning.publish msg) (fun _ _ => publish_failed) hreturn
        (by rw [List.length_append]; exact Nat.le_add_right _ _)
  | .timer =>
      cases (step_timer hresult).symm.trans hstep
      rw [show pulled [PublisherEvent.timer] = [] from rfl, List.append_nil]
      show AllSent _ _ _ ↔ ¬ 65535 ≤ (filling cfg.mtu (sinceTimer events)).length
      rw [hlen]
      exact hpacks.allSent_stopAtError_iff hrunning.heartbeatDue (fun _ _ => heartbeatDue_failed)
        hreturn le_rfl
  | .next none | .next (some (.error .exhausted)) =>
      cases (if_neg hgo).symm.trans hstep
      rw [show pulled [PublisherEvent.next _] = [] from rfl, List.append_nil]
      show AllSent _ _ _ ↔ ¬ 65535 ≤ (filling cfg.mtu (sinceTimer events)).length
      rw [hlen]
      exact hrunning.allSent_exhaust_iff
  | .next (some (.error .backend)) | .next (some (.error .invariant)) =>
      cases (if_neg hgo).symm.trans hstep
      rw [show pulled [PublisherEvent.next _] = [] from rfl, List.append_nil, Loses, not_not, hnil]
      exact ⟨fun h => h.pending_eq_nil hpacks rfl le_rfl,
        fun hempty => (hpacks.returned _).allSent hempty⟩

/-- The source is exhausted while a delete is pending. -/
theorem all_sent_iff_not_loses_exhausted :
    ∃ q p, (new (publisherFrom 1 1400) none).run [pullDelete] = some q ∧
      q.step (.next (some (.error .exhausted))) = some p ∧ p.result.isSome ∧
      (AllSent none (pulled ([pullDelete] ++ [.next (some (.error .exhausted))])) p ↔
        ¬ Loses 1400 [pullDelete] (.next (some (.error .exhausted)))) := by
  have heval : (((new (publisherFrom 1 1400) none).run [pullDelete]).bind fun q =>
      (q.step (.next (some (.error .exhausted)))).map MoldPublisher.result)
        = some (some (.ok ())) := by
    decide +kernel
  obtain ⟨q, hrun, hq⟩ := Option.bind_eq_some_iff.mp heval
  obtain ⟨p, hstep, hp⟩ := Option.map_eq_some_iff.mp hq
  have hreturn : p.result.isSome := by
    rw [hp]
    rfl
  exact ⟨q, p, hrun, hstep, hreturn,
    all_sent_iff_not_loses _ none [pullDelete] _ q p hrun hstep hreturn⟩

/-- A failure of the source while a delete is pending: nothing is sent. -/
theorem source_failure_loses_message :
    ∃ p, (new (publisherFrom 1 1400) none).run [pullDelete, .next (some (.error .backend))]
        = some p ∧
      p.result = some (.error .sourceExhausted) ∧ p.socket = [] ∧
      ¬ AllSent none (pulled [pullDelete, .next (some (.error .backend))]) p := by
  have heval : ((new (publisherFrom 1 1400) none).run
      [pullDelete, .next (some (.error .backend))]).map (fun p => (p.result, p.socket))
        = some (some (.error .sourceExhausted), []) := by
    decide +kernel
  obtain ⟨p, hrun, hp⟩ := Option.map_eq_some_iff.mp heval
  obtain ⟨hresult, hsocket⟩ := Prod.mk.inj hp
  refine ⟨p, hrun, hresult, hsocket, fun h => ?_⟩
  have hlen := congrArg List.length h.sent
  rw [hsocket] at hlen
  exact absurd hlen (by decide)

end MoldPublisher

end Itch
