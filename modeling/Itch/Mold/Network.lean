import Itch.Lib.Run
import Itch.Mold.PrefixSafety
import Itch.Mold.Recovery

/-!
# The publisher, its request server and a recovering client

A publisher that fills a retransmission cache, the request server that answers from it, and a
gap-recovery client.  The network brings the client any datagram that was sent, as often and in
whatever order it likes, and datagrams of other sessions besides.  A request is answered from the
cache as it was at any time, or not at all.

Whatever the network does, what the client yields are the messages of the publisher, from the
first one on and in order, under their numbers.  The log of the publisher grows while the client
reads, so what the client has is said of every log that continues the messages published so far.
-/

namespace Itch

open Lib

open RequestServer (RingBufferSeqStore respond)

/-- What the network brings. -/
inductive NetworkItem where
  /-- A datagram that was sent, by its index. -/
  | sent (i : Nat)
  /-- A datagram that is not one of the session. -/
  | stray (bytes : Bytes)
  | ioError
  /-- Nothing has arrived for the time of a dead link. -/
  | silence
deriving Repr, DecidableEq

/-- What comes of an attempt to ask the request server. -/
inductive ServerReply where
  /-- The time for the gap is over before the attempt. -/
  | expired
  /-- There is no connection. -/
  | refused
  /-- Nothing is answered. -/
  | silent
  /-- The answer comes from the cache as it was after a turn of the publisher. -/
  | cached (i : Nat)
deriving Repr, DecidableEq

/-- How a recovery task ends. -/
inductive TaskReplies where
  | panicked
  | finished (replies : Nat → ServerReply)

structure MoldNetwork where
  publisher : MoldPublisher
  /-- The messages that were pulled from the source. -/
  messages : List Message
  /-- The caches of the request server, oldest first. -/
  caches : List RingBufferSeqStore
  client : GapRecoveryClient
  /-- What the polls of the client have yielded. -/
  yielded : List (Except MoldError MoldEvent)

inductive MoldNetworkAction where
  /-- A turn of the publisher. -/
  | publish (event : PublisherEvent)
  /-- A poll of the client, with the end of its task if it has ended. -/
  | poll (task : Option TaskReplies) (items : List NetworkItem)

namespace MoldNetwork

def start (cfg : PublisherConfig) (capacity : Nat) (mold : MoldConfig) : MoldNetwork where
  publisher := .new cfg (some (.withCapacity capacity))
  messages := []
  caches := []
  client := .new (.new mold)
  yielded := []

/-- Not a packet of the session. -/
def isStray (session : Vector UInt8 10) (bytes : Bytes) : Bool :=
  !accepted session (MoldPacket.decode (bytes.take recvBufferLen))

/-- What the socket yields; nothing of what was not sent. -/
def arrives (net : MoldNetwork) : NetworkItem → Option SocketItem
  | .sent i => net.publisher.socket[i]?.map .datagram
  | .stray bytes =>
      if isStray net.publisher.cfg.session bytes then some (.datagram bytes) else none
  | .ioError => some .ioError
  | .silence => some .silence

def attempt (net : MoldNetwork) : ServerReply → Attempt
  | .expired => .expired
  | .refused => .failed .io
  | .silent => .answered fun _ => []
  | .cached i =>
      match net.caches[i]? with
      | none => .failed .io
      -- a server that fails closes the connection
      | some cache => .answered fun request => (respond cache request).toOption.getD []

def taskResult (net : MoldNetwork) : TaskReplies → TaskResult
  | .panicked => .panicked
  | .finished replies => .finished fun i => net.attempt (replies i)

def step (cfg : GapRecoveryConfig) (net : MoldNetwork) : MoldNetworkAction → Option MoldNetwork
  | .publish event => (net.publisher.step event).map fun p =>
      { net with
        publisher := p
        messages := net.messages ++ pulled [event]
        caches := net.caches ++ p.cache.toList }
  | .poll task items =>
      let polled := net.client.pollNext cfg
        { task := task.map net.taskResult, items := items.filterMap net.arrives }
      some { net with client := polled.2, yielded := net.yielded ++ surfaced polled.1 }

end MoldNetwork

/-! ## Logs of the publisher -/

/-- The log has the messages under the numbers from `start` on. -/
def Continues (start : Nat) (msgs : List Message) (log : Nat → Bytes) : Prop :=
  ∀ i m, msgs[i]? = some m → log (start + i) = m.wireImage

theorem Continues.of_append {start : Nat} {msgs more : List Message} {log : Nat → Bytes}
    (h : Continues start (msgs ++ more) log) : Continues start msgs log := by
  intro i m hm
  refine h i m ?_
  rw [List.getElem?_append_left (List.getElem?_eq_some_iff.mp hm).1]
  exact hm

namespace MoldPublisher

variable {cfg : PublisherConfig} {msgs : List Message} {pkts : List MoldPacket}
  {p : MoldPublisher} {log : Nat → Bytes}

/-- A block that was sent is that of a message. -/
theorem Packs.block_eq (h : Packs cfg [] msgs pkts p) {i : Nat} {b : MessageBlock}
    (hb : (sentBlocks pkts)[i]? = some b) : ∃ m, msgs[i]? = some m ∧ b = m.block := by
  have hget : (msgs.map Message.block)[i]? = some b := by
    rw [← h.blocks, List.getElem?_append_left (List.getElem?_eq_some_iff.mp hb).1]
    exact hb
  rw [List.getElem?_map, Option.map_eq_some_iff] at hget
  obtain ⟨m, hm, rfl⟩ := hget
  exact ⟨m, hm, rfl⟩

/-- What the publisher has sent is on the log. -/
theorem Packs.packetAgrees (h : Packs cfg [] msgs pkts p)
    (hroom : cfg.startSequence.toNat + msgs.length < 2 ^ 64)
    (hlog : Continues cfg.startSequence.toNat msgs log) {pkt : MoldPacket} (hpkt : pkt ∈ pkts) :
    ReceiverState.PacketAgrees log pkt := by
  obtain ⟨before, after, rfl⟩ := List.append_of_mem hpkt
  have hlen := h.length_eq
  have hsplit : sentBlocks (before ++ pkt :: after) =
      sentBlocks before ++ (pkt.blocks ++ sentBlocks after) := by
    simp [sentBlocks]
  have hfirst := (h.sequenced.tiles (by omega)).first_eq
  rw [← List.length_flatMap, ← sentBlocks] at hfirst
  rw [hsplit, List.length_append, List.length_append] at hlen
  intro _ _
  refine ⟨fun i b hb => ?_, fun b hb => ((h.packets pkt hpkt).1.fits b hb).2,
    by omega⟩
  have hi := (List.getElem?_eq_some_iff.mp hb).1
  have hget : (sentBlocks (before ++ pkt :: after))[(sentBlocks before).length + i]? = some b := by
    rw [hsplit, List.getElem?_append_right (Nat.le_add_right _ _), Nat.add_sub_cancel_left,
      List.getElem?_append_left hi]
    exact hb
  obtain ⟨m, hm, rfl⟩ := h.block_eq hget
  rw [hfirst, Nat.add_assoc]
  exact (hlog _ m hm).symm

end MoldPublisher

/-! ## Honest caches -/

namespace RequestServer.RingBufferSeqStore

/-- The cache holds consecutive frames of the log. -/
structure Honest (log : Nat → Bytes) (c : RingBufferSeqStore) : Prop where
  consecutive : ∃ first, Consecutive first (c.inner.map CachedFrame.entry)
  fits : ∀ f ∈ c.inner, f.Fits
  agrees : ∀ f ∈ c.inner, f.body = log f.sequence.toNat ∧ f.sequence.toNat + 1 < 2 ^ 64

/-- The client reads frames of the log out of what is answered from such a cache. -/
theorem Honest.readResponse {log : Nat → Bytes} {c : RingBufferSeqStore} (h : c.Honest log)
    (sequence : UInt64) (count : UInt32) :
    ∃ status, RequestClient.readResponse sequence
        ((respond c (RequestClient.requestFrame sequence count)).toOption.getD []) =
      some (.ok { status := status, frames := c.lookup sequence count }, []) := by
  obtain ⟨first, hcons⟩ := h.consecutive
  have hrun : LongestRun c.cached sequence (min count.toNat maxResponseFrames)
      ((c.lookup sequence count).map CachedFrame.entry) := longestRun_lookup hcons count
  have hfits : ∀ f ∈ c.lookup sequence count, f.Fits := fun f hf => h.fits f (mem_of_mem_lookup hf)
  have hlen := hrun.length_le
  rw [List.length_map] at hlen
  obtain ⟨status, hrespond⟩ := respond_requestFrame c sequence count
  obtain ⟨out, hout⟩ : ∃ out, writeResponse status (c.lookup sequence count) = .ok out := by
    rw [writeResponse, writeFrames_eq hfits]
    exact ⟨_, rfl⟩
  refine ⟨status, ?_⟩
  rw [hrespond, hout]
  exact RequestClient.readResponse_writeResponse hfits hrun.consecutive
    (hlen.trans (Nat.min_le_right _ _)) hout

end RequestServer.RingBufferSeqStore

/-- The cache of a publisher is honest about its messages. -/
theorem MoldPublisher.Packs.honest {cfg : PublisherConfig} {msgs : List Message}
    {pkts : List MoldPacket} {p : MoldPublisher} {log : Nat → Bytes}
    (h : MoldPublisher.Packs cfg [] msgs pkts p)
    (hroom : cfg.startSequence.toNat + msgs.length < 2 ^ 64)
    (hlog : Continues cfg.startSequence.toNat msgs log) {c : RingBufferSeqStore}
    (hc : p.cache = some c) : c.Honest log := by
  have hlen := h.length_eq
  obtain ⟨evicted, hbodies, hnumbers, -⟩ := h.cache_holds (by omega) hc
  have hframe : ∀ i f, c.inner[i]? = some f → ∃ m, msgs[evicted.length + i]? = some m ∧
      f.body = m.wireImage ∧
      f.sequence.toNat = cfg.startSequence.toNat + (evicted.length + i) := by
    intro i f hf
    have hget : (evicted ++ c.inner)[evicted.length + i]? = some f := by
      rw [List.getElem?_append_right (Nat.le_add_right _ _), Nat.add_sub_cancel_left]
      exact hf
    have hbody : ((sentBlocks pkts).map MessageBlock.data)[evicted.length + i]? = some f.body := by
      rw [← hbodies, List.getElem?_map, hget]
      rfl
    rw [List.getElem?_map, Option.map_eq_some_iff] at hbody
    obtain ⟨b, hb, hdata⟩ := hbody
    obtain ⟨m, hm, rfl⟩ := h.block_eq hb
    exact ⟨m, hm, hdata.symm, hnumbers _ f hget⟩
  refine ⟨⟨cfg.startSequence.toNat + evicted.length, fun i e he => ?_⟩, fun f hf => ?_,
    fun f hf => ?_⟩
  · rw [List.getElem?_map, Option.map_eq_some_iff] at he
    obtain ⟨f, hf, rfl⟩ := he
    obtain ⟨m, -, -, hseq⟩ := hframe i f hf
    rw [CachedFrame.entry, hseq, Nat.add_assoc]
  · obtain ⟨i, hi⟩ := List.mem_iff_getElem?.mp hf
    obtain ⟨m, -, hbody, -⟩ := hframe i f hi
    rw [CachedFrame.Fits, hbody]
    exact m.fits_block
  · obtain ⟨i, hi⟩ := List.mem_iff_getElem?.mp hf
    obtain ⟨m, hm, hbody, hseq⟩ := hframe i f hi
    have hlt := (List.getElem?_eq_some_iff.mp hm).1
    rw [hbody, hseq]
    exact ⟨(hlog _ m hm).symm, by omega⟩

/-! ## Yielding -/

namespace ReceiverState

variable {log : Nat → Bytes} {session : Vector UInt8 10} {base : Nat} {r : ReceiverState}

/-- Taking an event off the outbox moves the segment on that is still to be yielded. -/
theorem Tracks.pop (h : Tracks log session base r) {event : Except MoldError MoldEvent}
    {outbox : List (Except MoldError MoldEvent)} (houtbox : r.outbox = event :: outbox) :
    ∃ base', base ≤ base' ∧ Tracks log session base' { r with outbox := outbox } ∧
      Itch.deliveries [event] = segment (logOutcome log) base base' := by
  have hdeliveries := h.deliveries
  rw [houtbox] at hdeliveries
  cases hevent : isDelivery event with
  | false =>
      rw [Itch.deliveries, List.filter_cons_of_neg (by simp [hevent])] at hdeliveries
      refine ⟨base, le_rfl, ⟨h.fixed, h.session, h.le, hdeliveries, h.holds⟩, ?_⟩
      rw [segment_self, Itch.deliveries, List.filter_cons_of_neg (by simp [hevent])]
      rfl
  | true =>
      rw [Itch.deliveries, List.filter_cons_of_pos hevent] at hdeliveries
      have hlt : base < r.nextExpected.toNat := by
        have hlen := congrArg List.length hdeliveries
        rw [List.length_cons, length_segment] at hlen
        omega
      have hhead : segment (logOutcome log) base (base + 1) = [logOutcome log base] := by
        rw [segment_succ le_rfl, segment_self]
        rfl
      rw [← segment_append (Nat.le_succ base) hlt, hhead, List.singleton_append,
        List.cons.injEq] at hdeliveries
      refine ⟨base + 1, Nat.le_succ base, ⟨h.fixed, h.session, hlt, hdeliveries.2, h.holds⟩, ?_⟩
      rw [hhead, ← hdeliveries.1, Itch.deliveries, List.filter_cons_of_pos hevent]
      rfl

end ReceiverState

namespace MoldStream

open ReceiverState (Tracks)

variable {log : Nat → Bytes} {session : Vector UInt8 10} {base : Nat} {s s' : MoldStream}

/-- The stream has yielded, with `out`, the part of the log from `base` to where it goes on. -/
def Yielded (log : Nat → Bytes) (session : Vector UInt8 10) (base : Nat)
    (out : List (Except MoldError MoldEvent)) (s : MoldStream) : Prop :=
  ∃ base', base ≤ base' ∧ Tracks log session base' s.state ∧
    deliveries out = segment (logOutcome log) base base'

theorem Yielded.nothing (h : Tracks log session base s.state) : Yielded log session base [] s :=
  ⟨base, le_rfl, h, segment_self.symm⟩

/-- An error that is not that of a block. -/
theorem Yielded.error (h : Tracks log session base s.state) {err : MoldError}
    (herr : isDelivery (.error err) = false) : Yielded log session base [.error err] s := by
  refine ⟨base, le_rfl, h, ?_⟩
  rw [segment_self, deliveries, List.filter_cons_of_neg (by simp [herr])]
  rfl

theorem Yielded.popEvent {event : Except MoldError MoldEvent}
    (h : Tracks log session base s.state) (hpop : s.popEvent = some (event, s')) :
    Yielded log session base [event] s' := by
  unfold MoldStream.popEvent at hpop
  split at hpop
  next => cases hpop
  next houtbox =>
    cases hpop
    exact h.pop houtbox

/-- What the socket yields agrees with the log. -/
def ItemAgrees (log : Nat → Bytes) (session : Vector UInt8 10) : SocketItem → Prop
  | .datagram bytes => ResultAgrees log session (MoldPacket.decode (bytes.take recvBufferLen))
  | .ioError | .silence => True

theorem yielded_readLoop {items : List SocketItem} (h : Tracks log session base s.state)
    (hitems : ∀ item ∈ items, ItemAgrees log session item) :
    Yielded log session base (surfaced (s.readLoop items).1) (s.readLoop items).2 := by
  induction items generalizing s with
  | nil => exact .nothing h
  | cons item items ih =>
      obtain ⟨hitem, hrest⟩ := List.forall_mem_cons.mp hitems
      cases item with
      | ioError => exact .error h rfl
      | silence =>
          rw [readLoop]
          split
          next => exact ih h hrest
          next => exact .error h rfl
      | datagram bytes =>
          rw [readLoop]
          dsimp only
          rw [ItemAgrees] at hitem
          split
          next err hdecode =>
            rw [hdecode] at hitem
            exact .error h hitem
          next pkt hdecode =>
            rw [hdecode] at hitem
            have hnext := h.advance (h.advances_ingestResult hitem).1
            split
            next hpop => exact .popEvent hnext hpop
            next => exact ih hnext hrest

theorem yielded_pollNext {items : List SocketItem} (h : Tracks log session base s.state)
    (hitems : ∀ item ∈ items, ItemAgrees log session item) :
    Yielded log session base (surfaced (s.pollNext items).1) (s.pollNext items).2 := by
  unfold pollNext
  split
  next => exact .nothing h
  next =>
    split
    next hpop => exact .popEvent h hpop
    next => exact yielded_readLoop h hitems

end MoldStream

theorem MoldPacket.isDelivery_of_decodeBlocks {count : Nat} {cursor : Bytes} {err : MoldError}
    (h : MoldPacket.decodeBlocks count cursor = .error err) : isDelivery (.error err) = false := by
  induction count generalizing cursor with
  | zero => cases h
  | succ count ih =>
      match cursor with
      | [] | [_] =>
          cases h
          rfl
      | hi :: lo :: cursor =>
          rw [decodeBlocks] at h
          dsimp only at h
          split at h
          next =>
            cases h
            rfl
          next =>
            split at h
            next =>
              cases h
              rfl
            next =>
              split at h
              next =>
                cases h
                rfl
              next =>
                rcases bind_eq_error.mp h with herr | ⟨_, -, hok⟩
                · exact ih herr
                · cases hok

/-- A datagram that does not decode is not a block that does not decode. -/
theorem MoldPacket.isDelivery_of_decode {buf : Bytes} {err : MoldError}
    (h : MoldPacket.decode buf = .error err) : isDelivery (.error err) = false := by
  rw [MoldPacket.decode] at h
  rcases bind_eq_error.mp h with hheader | ⟨header, -, hbody⟩
  · rw [MoldPacketHeader.fromBytes] at hheader
    split at hheader
    next =>
      cases hheader
      rfl
    next => cases hheader
  · dsimp only at hbody
    split at hbody
    next =>
      split at hbody
      next =>
        cases hbody
        rfl
      next => cases hbody
    next =>
      rcases bind_eq_error.mp hbody with hblocks | ⟨⟨blocks, cursor⟩, -, hrest⟩
      · exact isDelivery_of_decodeBlocks hblocks
      · dsimp only at hrest
        split at hrest
        next =>
          cases hrest
          rfl
        next => cases hrest

/-! ## Recovering -/

namespace GapRecoveryClient

open ReceiverState (Tracks)

variable {log : Nat → Bytes} {session : Vector UInt8 10} {base : Nat} {c : GapRecoveryClient}
  {cfg : GapRecoveryConfig}

/-- An attempt that fails without a word about a block, or is answered with frames of the log. -/
def AttemptAgrees (log : Nat → Bytes) : Attempt → Prop
  | .expired => True
  | .failed err => isDelivery (.error err) = false
  | .answered reply => ∀ sequence count,
      RequestClient.readResponse sequence (reply (RequestClient.requestFrame sequence count)) = none ∨
      ∃ resp rest, RequestClient.readResponse sequence
          (reply (RequestClient.requestFrame sequence count)) = some (.ok resp, rest) ∧
        ∀ f ∈ resp.frames, f.body = log f.sequence.toNat ∧ f.sequence.toNat + 1 < 2 ^ 64

theorem recoverLoop_error {first last : UInt64} {attempts : Nat → Attempt} {i : Nat}
    {servers : List SocketAddr} {lastErr err : MoldError}
    (hattempts : ∀ i, AttemptAgrees log (attempts i))
    (hlast : isDelivery (.error lastErr) = false)
    (h : recoverLoop first last attempts i servers lastErr = .error err) :
    isDelivery (.error err) = false := by
  induction servers generalizing i lastErr with
  | nil =>
      cases h
      exact hlast
  | cons server servers ih =>
      have hattempt := hattempts i
      rw [recoverLoop] at h
      split at h
      next =>
        cases h
        rfl
      next e heq =>
        rw [heq] at hattempt
        exact ih hattempt h
      next reply heq =>
        rw [heq] at hattempt
        rcases hattempt first (gapCount first last) with hnone | ⟨resp, rest, hsome, -⟩
        · rw [hnone] at h
          exact ih rfl h
        · rw [hsome] at h
          dsimp only at h
          split at h
          next => cases h
          next =>
            split at h
            next => cases h
            next => exact ih rfl h

theorem recoverGap_error {first last : UInt64} {attempts : Nat → Attempt} {err : MoldError}
    (hattempts : ∀ i, AttemptAgrees log (attempts i))
    (h : recoverGap cfg first last attempts = .error err) : isDelivery (.error err) = false := by
  rw [recoverGap] at h
  split at h
  next =>
    cases h
    rfl
  next => exact recoverLoop_error hattempts rfl h

theorem recoverGap_frames {first last : UInt64} {attempts : Nat → Attempt}
    {found : RecoveryFrames} (hattempts : ∀ i, AttemptAgrees log (attempts i))
    (h : recoverGap cfg first last attempts = .ok found) :
    ∀ f ∈ found.frames, f.body = log f.sequence.toNat ∧ f.sequence.toNat + 1 < 2 ^ 64 := by
  obtain ⟨i, resp, haccepts, rfl⟩ := recoverGap_eq_ok_iff.mp h
  have hresp := haccepts.response
  show ∀ f ∈ resp.frames, _
  have hattempt := hattempts i
  cases heq : attempts i with
  | expired =>
      rw [heq] at hresp
      cases hresp
  | failed err =>
      rw [heq] at hresp
      cases hresp
  | answered reply =>
      rw [heq] at hresp hattempt
      rw [Attempt.response] at hresp
      rcases hattempt first (gapCount first last) with hnone | ⟨resp', rest, hsome, hframes⟩
      · rw [hnone] at hresp
        cases hresp
      · rw [hsome] at hresp
        cases hresp
        exact hframes

def TaskAgrees (log : Nat → Bytes) : TaskResult → Prop
  | .panicked => True
  | .finished attempts => ∀ i, AttemptAgrees log (attempts i)

/-- The end of a task brings the client forward along the log, or an error. -/
theorem tracks_drain {task : Option TaskResult} (h : Tracks log session base c.stream.state)
    (htask : ∀ result ∈ task, TaskAgrees log result) :
    Tracks log session base (c.drain cfg task).2.stream.state ∧
      ∀ err, (c.drain cfg task).1 = some err → isDelivery (.error err) = false := by
  cases task with
  | none => exact ⟨h, by rintro _ ⟨⟩⟩
  | some result =>
      have hresult := htask result rfl
      cases hactive : c.active with
      | none =>
          simp only [drain, hactive]
          exact ⟨h, by rintro _ ⟨⟩⟩
      | some range =>
          cases result with
          | panicked =>
              simp only [drain, hactive]
              exact ⟨h, by rintro _ ⟨⟩⟩
          | finished attempts =>
              simp only [drain, hactive]
              split
              next found hfound =>
                have hagrees : ∀ i ∈ [Input.retransmit found.frames], i.Agrees log session := by
                  intro i hi
                  rw [List.mem_singleton.mp hi]
                  exact recoverGap_frames hresult hfound
                exact ⟨h.advance (h.advances_run hagrees), by rintro _ ⟨⟩⟩
              next err herr =>
                refine ⟨h, ?_⟩
                rintro _ ⟨⟩
                exact recoverGap_error hresult herr

theorem yielded_pollNext {input : PollInput} (h : Tracks log session base c.stream.state)
    (htask : ∀ result ∈ input.task, TaskAgrees log result)
    (hitems : ∀ item ∈ input.items, MoldStream.ItemAgrees log session item) :
    MoldStream.Yielded log session base (surfaced (c.pollNext cfg input).1)
      (c.pollNext cfg input).2.stream := by
  obtain ⟨htracks, herr⟩ := @tracks_drain log session base c cfg input.task h htask
  rw [pollNext]
  rcases hdrain : c.drain cfg input.task with ⟨_ | err, c'⟩
  · rw [hdrain] at htracks
    dsimp only
    rw [pollStream_fst, stream_pollStream]
    exact MoldStream.yielded_pollNext htracks hitems
  · rw [hdrain] at htracks herr
    exact .error htracks (herr err rfl)

end GapRecoveryClient

/-! ## Runs -/

/-- A publisher that packs small datagrams never fails. -/
theorem MoldPublisher.Turned.packs {cfg : PublisherConfig} {msgs : List Message}
    {p : MoldPublisher} (h : MoldPublisher.Turned cfg [] msgs p) (hmtu : cfg.mtu ≤ recvBufferLen) :
    ∃ pkts, MoldPublisher.Packs cfg [] msgs pkts p := by
  rcases h with ⟨⟨pkts, hpacks⟩, -⟩ | ⟨-, hreached⟩
  · exact ⟨pkts, hpacks⟩
  · cases hreached with
    | packs hpacks => exact ⟨_, hpacks⟩
    | overfull _ herr => exact absurd herr (not_overfull hmtu _)

namespace MoldNetwork

variable {pcfg : PublisherConfig} {rcfg : GapRecoveryConfig} {net net' : MoldNetwork}
  {log : Nat → Bytes}

/-- The client has yielded a part of every log that continues the messages. -/
structure Faithful (pcfg : PublisherConfig) (net : MoldNetwork) : Prop where
  publisher : MoldPublisher.Turned pcfg [] net.messages net.publisher
  caches : ∀ log, Continues pcfg.startSequence.toNat net.messages log →
    ∀ c ∈ net.caches, c.Honest log
  client : ∀ log, Continues pcfg.startSequence.toNat net.messages log →
    MoldStream.Yielded log pcfg.session pcfg.startSequence.toNat net.yielded net.client.stream

theorem Faithful.itemAgrees (h : Faithful pcfg net) (hmtu : pcfg.mtu ≤ recvBufferLen)
    (hroom : pcfg.startSequence.toNat + net.messages.length < 2 ^ 64)
    (hlog : Continues pcfg.startSequence.toNat net.messages log) {items : List NetworkItem} :
    ∀ item ∈ items.filterMap net.arrives, MoldStream.ItemAgrees log pcfg.session item := by
  obtain ⟨pkts, hpacks⟩ := h.publisher.packs hmtu
  intro item hitem
  obtain ⟨source, -, harrives⟩ := List.mem_filterMap.mp hitem
  cases source with
  | sent i =>
      obtain ⟨bytes, hbytes, rfl⟩ := Option.map_eq_some_iff.mp harrives
      rw [hpacks.socket, List.getElem?_map, Option.map_eq_some_iff] at hbytes
      obtain ⟨pkt, hpkt, rfl⟩ := hbytes
      have hmem := List.mem_of_getElem? hpkt
      obtain ⟨hwf, -, hlen⟩ := hpacks.packets pkt hmem
      have hwhole : pkt.wire.take recvBufferLen = pkt.wire :=
        List.take_of_length_le (pkt.length_wire.trans_le (hlen.trans (max_le hmtu (by decide))))
      rw [MoldStream.ItemAgrees, hwhole, hwf.decode_wire]
      exact fun _ => hpacks.packetAgrees hroom hlog hmem
  | stray bytes =>
      rw [arrives] at harrives
      split at harrives
      next hstray =>
        cases harrives
        rw [MoldStream.ItemAgrees]
        rw [isStray, hpacks.cfg_eq] at hstray
        cases hdecode : MoldPacket.decode (bytes.take recvBufferLen) with
        | error err => exact MoldPacket.isDelivery_of_decode hdecode
        | ok pkt =>
            intro hsession
            simp [hdecode, accepted, hsession] at hstray
      next => cases harrives
  | ioError | silence =>
      cases harrives
      trivial

theorem Faithful.taskAgrees (h : Faithful pcfg net)
    (hlog : Continues pcfg.startSequence.toNat net.messages log) {task : Option TaskReplies} :
    ∀ result ∈ task.map net.taskResult, GapRecoveryClient.TaskAgrees log result := by
  intro result hresult
  obtain ⟨replies, rfl, rfl⟩ := Option.map_eq_some_iff.mp hresult
  cases replies with
  | panicked => trivial
  | finished replies =>
      intro i
      dsimp only
      cases replies i with
      | expired => trivial
      | refused => rfl
      | silent => exact fun sequence count => .inl rfl
      | cached j =>
          rw [attempt]
          split
          next => rfl
          next cache hcache =>
            have hhonest := h.caches log hlog cache (List.mem_of_getElem? hcache)
            intro sequence count
            obtain ⟨status, hread⟩ := hhonest.readResponse sequence count
            refine .inr ⟨_, _, hread, fun f hf => hhonest.agrees f ?_⟩
            exact RingBufferSeqStore.mem_of_mem_lookup hf

theorem Faithful.step (h : Faithful pcfg net) (hmtu : pcfg.mtu ≤ recvBufferLen)
    {action : MoldNetworkAction} (hstep : net.step rcfg action = some net')
    (hroom : pcfg.startSequence.toNat + net'.messages.length < 2 ^ 64) : Faithful pcfg net' := by
  cases action with
  | publish event =>
      obtain ⟨p, hp, rfl⟩ := Option.map_eq_some_iff.mp hstep
      have hturned : MoldPublisher.Turned pcfg [] (net.messages ++ pulled [event]) p := by
        rcases h.publisher with hrunning | ⟨hreturned, -⟩
        · obtain ⟨q, hq, hturned⟩ := hrunning.step event
          cases hq.symm.trans hp
          exact hturned
        · rw [MoldPublisher.step_of_returned hreturned] at hp
          cases hp
      refine ⟨hturned, fun log hlog c hc => ?_, fun log hlog => h.client log hlog.of_append⟩
      rcases List.mem_append.mp hc with hold | hnew
      · exact h.caches log hlog.of_append c hold
      · obtain ⟨pkts, hpacks⟩ := hturned.packs hmtu
        exact hpacks.honest hroom hlog (Option.mem_toList.mp hnew)
  | poll task items =>
      rw [MoldNetwork.step] at hstep
      obtain rfl := Option.some.inj hstep
      refine ⟨h.publisher, h.caches, fun log hlog => ?_⟩
      obtain ⟨base, hle, htracks, hout⟩ := h.client log hlog
      obtain ⟨base', hle', htracks', hout'⟩ := @GapRecoveryClient.yielded_pollNext log pcfg.session
        base net.client rcfg
        { task := task.map net.taskResult, items := items.filterMap net.arrives }
        htracks (h.taskAgrees hlog) (h.itemAgrees hmtu hroom hlog)
      refine ⟨base', hle.trans hle', htracks', ?_⟩
      rw [deliveries, List.filter_append, ← deliveries, ← deliveries, hout, hout',
        segment_append hle hle']

theorem faithful_start (hstart : pcfg.startSequence ≠ 0) (capacity : Nat) {mold : MoldConfig}
    (hsession : mold.session = some pcfg.session)
    (hfirst : mold.startSequence = pcfg.startSequence) :
    Faithful pcfg (start pcfg capacity mold) := by
  refine ⟨.inl (MoldPublisher.running_new pcfg (some (.withCapacity capacity))),
    fun _ _ c hc => absurd hc List.not_mem_nil, ?_⟩
  intro log _
  refine .nothing ?_
  rw [← hfirst] at hstart ⊢
  exact ReceiverState.tracks_new hsession hstart

/-- The log of some messages, with anything after them. -/
def padded (first : Nat) (msgs : List Message) (rest : Bytes) (n : Nat) : Bytes :=
  match msgs[n - first]? with
  | some m => m.wireImage
  | none => rest

theorem continues_padded (first : Nat) (msgs : List Message) (rest : Bytes) :
    Continues first msgs (padded first msgs rest) := by
  intro i m hm
  rw [padded, Nat.add_sub_cancel_left, hm]

theorem logOutcome_padded {first : Nat} {msgs : List Message} {rest : Bytes} {i : Nat}
    {m : Message} (hm : msgs[i]? = some m) :
    logOutcome (padded first msgs rest) (first + i) =
      .ok (.message (UInt64.ofNat (first + i)) m.onWire) := by
  rw [logOutcome, continues_padded first msgs rest i m hm, outcome, Message.decode_wireImage]

/-- What is a part of every log that continues some messages is a part of the messages. -/
theorem le_of_forall_padded {base first : Nat} {msgs : List Message}
    {out : List (Except MoldError MoldEvent)}
    (h : ∀ rest, ∃ base', first ≤ base' ∧
      out = segment (logOutcome (padded first msgs rest)) first base')
    (hlen : out.length = base - first) : base ≤ first + msgs.length := by
  by_contra hlt
  have hentry (rest : Bytes) : out[msgs.length]? =
      some (outcome (UInt64.ofNat (first + msgs.length)) rest) := by
    obtain ⟨base', -, hout⟩ := h rest
    have hbound : msgs.length < (segment (logOutcome (padded first msgs rest)) first base').length := by
      rw [← hout, hlen]
      omega
    rw [hout, List.getElem?_eq_getElem hbound, getElem_segment, logOutcome, padded,
      Nat.add_sub_cancel_left, List.getElem?_eq_none le_rfl]
  have hsame := (hentry []).symm.trans (hentry Message.sampleDelete.wireImage)
  rw [outcome, outcome, Message.decode_wireImage] at hsame
  cases hsame

/-- **Retransmission end to end.**  Whatever the network brings, loses, repeats and reorders, and
whatever the request server answers and when, the blocks that a recovering client yields are the
messages of the publisher from the first one on, in order and under their numbers. -/
theorem network_yields_published (pcfg : PublisherConfig) (capacity : Nat) (mold : MoldConfig)
    (rcfg : GapRecoveryConfig) (hstart : pcfg.startSequence ≠ 0) (hmtu : pcfg.mtu ≤ 2048)
    (hsession : mold.session = some pcfg.session)
    (hfirst : mold.startSequence = pcfg.startSequence)
    (hrun : Run (step rcfg)
      (fun net => pcfg.startSequence.toNat + net.messages.length < 2 ^ 64)
      (start pcfg capacity mold) net) :
    deliveries net.yielded =
      ((net.messages.take (deliveries net.yielded).length).zipIdx.map fun (m, i) =>
        .ok (.message (pcfg.startSequence + UInt64.ofNat i) m.onWire)) := by
  have hfaithful : Faithful pcfg net :=
    hrun.invariant (fun _ => faithful_start hstart capacity hsession hfirst)
      fun _ _ _ _ h hstep hroom => h.step hmtu hstep hroom
  have hout (rest : Bytes) := hfaithful.client _
    (continues_padded pcfg.startSequence.toNat net.messages rest)
  obtain ⟨base, hle, -, hdeliveries⟩ := hout []
  have hlen : (deliveries net.yielded).length = base - pcfg.startSequence.toNat := by
    rw [hdeliveries, length_segment]
  have hbound : base ≤ pcfg.startSequence.toNat + net.messages.length := by
    refine le_of_forall_padded (fun rest => ?_) hlen
    obtain ⟨base', hle', -, hdeliveries'⟩ := hout rest
    exact ⟨base', hle', hdeliveries'⟩
  rw [hlen, hdeliveries]
  refine List.ext_getElem ?_ fun i hi hi' => ?_
  · rw [length_segment, List.length_map, List.length_zipIdx, List.length_take]
    omega
  · rw [List.length_map, List.length_zipIdx] at hi'
    have hget := List.getElem?_eq_getElem hi'
    rw [length_segment] at hi
    rw [List.getElem?_take_of_lt hi] at hget
    simp only [getElem_segment, List.getElem_map, List.getElem_zipIdx, Nat.zero_add]
    rw [logOutcome_padded hget, UInt64.ofNat_add, UInt64.ofNat_toNat]

/-- The second datagram comes first, and the request server has the message of the first one. -/
def lostDatagram : List MoldNetworkAction :=
  [.publish (.next (some (.ok (MoldPublisher.deleteOf 1)))), .publish .timer,
    .publish (.next (some (.ok (MoldPublisher.deleteOf 2)))), .publish .timer,
    .poll none [.stray [1, 2, 3], .silence], .poll none [.sent 1],
    .poll (some (.finished fun _ => .cached 3)) [], .poll none []]

theorem network_yields_published_lostDatagram :
    ∃ net, Run (step GapRecoveryClient.oneServer) (fun net => 1 + net.messages.length < 2 ^ 64)
        (start (MoldPublisher.publisherFrom 1 1400) 8 ReceiverState.fromOne) net ∧
      net.messages = [MoldPublisher.deleteOf 1, MoldPublisher.deleteOf 2] ∧
      deliveries net.yielded = [.ok (.message 1 (MoldPublisher.deleteOf 1)),
        .ok (.message 2 (MoldPublisher.deleteOf 2))] := by
  have hexec : (exec (step GapRecoveryClient.oneServer)
      (fun net => 1 + net.messages.length < 2 ^ 64)
      (start (MoldPublisher.publisherFrom 1 1400) 8 ReceiverState.fromOne) lostDatagram).map
        (fun net => (net.messages, (deliveries net.yielded).length)) =
      some ([MoldPublisher.deleteOf 1, MoldPublisher.deleteOf 2], 2) := by
    decide +kernel
  obtain ⟨net, hrun, hnet⟩ := exists_run_of_exec _ _ (by decide) hexec
  obtain ⟨hmessages, hlen⟩ := Prod.mk.inj hnet
  have hyields := network_yields_published (MoldPublisher.publisherFrom 1 1400) 8
    ReceiverState.fromOne GapRecoveryClient.oneServer (by decide) (by decide) rfl rfl hrun
  rw [hlen, hmessages] at hyields
  exact ⟨net, hrun, hmessages, hyields⟩

end MoldNetwork

end Itch
