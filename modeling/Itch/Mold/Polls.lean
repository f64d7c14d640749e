import Itch.Mold.Answers
import Itch.Mold.Orderly

/-!
# What a poll does to the receiver

A poll of the client first settles the task, if it is done, and then polls the stream.  That takes
the next event off the outbox, or reads datagrams until one of them has queued an event.
`Drained` and `Polled` are the two parts; `pollPackets` lists the packets that are read, each with
the receiver that it meets.

The frames of a recovery come one by one as packets of one block, so they keep the receiver
orderly, and a poll whose datagrams mesh with what is held back does so too
(`Orderly.pollNext`).
-/

namespace Itch

open Lib

/-! ## The stream -/

namespace MoldStream

/-- The packets that the loop of a poll feeds to the receiver, each with the receiver it meets. -/
def readPackets : MoldStream → List SocketItem → List (ReceiverState × MoldPacket)
  | _, [] => []
  | s, .datagram bytes :: items =>
      match MoldPacket.decode (bytes.take recvBufferLen) with
      | .error _ => []
      | .ok pkt =>
          let after := { s with state := s.state.ingest pkt, deadLinkPending := false }
          (s.state, pkt) :: if after.state.outbox.isEmpty then after.readPackets items else []
  | _, .ioError :: _ => []
  | s, .silence :: items => if s.deadLinkPending then s.readPackets items else []

/-- The packets of a poll.  Nothing is read while an event is waiting. -/
def pollPackets (s : MoldStream) (items : List SocketItem) : List (ReceiverState × MoldPacket) :=
  if !s.finished && s.state.outbox.isEmpty then s.readPackets items else []

end MoldStream

/-- What a poll of the stream returns. -/
abbrev StreamAnswer := Poll (Option (Except MoldError MoldEvent))

def StreamAnswer.gap (first last : UInt64) : StreamAnswer :=
  .ready (some (.ok (.gap first last)))

/-- The event of a poll that yields one. -/
def surfaced : StreamAnswer → List (Except MoldError MoldEvent)
  | .ready (some event) => [event]
  | _ => []

/-- A poll takes the receiver from one state to another, over some packets. -/
inductive MoldStream.Polled : ReceiverState → List (ReceiverState × MoldPacket) → StreamAnswer →
    ReceiverState → Prop where
  | quiet {r : ReceiverState} {answer : StreamAnswer} :
      (∀ first last, answer ≠ .gap first last) → Polled r [] answer r
  | waiting {r : ReceiverState} {event : Except MoldError MoldEvent}
      {outbox : List (Except MoldError MoldEvent)} :
      r.outbox = event :: outbox →
      Polled r [] (.ready (some event)) { r with outbox := outbox }
  /-- The packet queues an event, and the poll returns it. -/
  | caught {r : ReceiverState} {pkt : MoldPacket} {event : Except MoldError MoldEvent}
      {outbox : List (Except MoldError MoldEvent)} :
      pkt.Received → r.outbox = [] → (r.ingest pkt).outbox = event :: outbox →
      Polled r [(r, pkt)] (.ready (some event)) { r.ingest pkt with outbox := outbox }
  /-- The packet queues nothing, and the loop goes on. -/
  | passed {r r' : ReceiverState} {pkt : MoldPacket} {answer : StreamAnswer}
      {later : List (ReceiverState × MoldPacket)} :
      pkt.Received → (r.ingest pkt).outbox = [] → Polled (r.ingest pkt) later answer r' →
      Polled r ((r, pkt) :: later) answer r'

namespace MoldStream

variable {s s' : MoldStream} {items : List SocketItem} {event : Except MoldError MoldEvent}

theorem popEvent_eq_some (h : s.popEvent = some (event, s')) :
    ∃ outbox, s.state.outbox = event :: outbox ∧
      s'.state = { s.state with outbox := outbox } := by
  unfold popEvent at h
  split at h
  next => cases h
  next outbox houtbox =>
    cases h
    exact ⟨outbox, houtbox, rfl⟩

theorem popEvent_eq_none (h : s.popEvent = none) : s.state.outbox = [] := by
  unfold popEvent at h
  split at h
  next houtbox => exact houtbox
  next => cases h

theorem polled_readLoop (items : List SocketItem) (h : s.state.outbox = []) :
    Polled s.state (s.readPackets items) (s.readLoop items).1 (s.readLoop items).2.state := by
  induction items generalizing s with
  | nil => exact .quiet (by rintro _ _ ⟨⟩)
  | cons item items ih =>
      cases item with
      | ioError => exact .quiet (by rintro _ _ ⟨⟩)
      | silence =>
          rw [readLoop, readPackets]
          split
          next => exact ih h
          next => exact .quiet (by rintro _ _ ⟨⟩)
      | datagram bytes =>
          rw [readLoop, readPackets]
          dsimp only
          cases hdecode : MoldPacket.decode (bytes.take recvBufferLen) with
          | error err => exact .quiet (by rintro _ _ ⟨⟩)
          | ok pkt =>
              have hpkt : pkt.Received := .inl ⟨_, hdecode⟩
              dsimp only
              cases hpop : popEvent { s with
                  state := s.state.ingest pkt, deadLinkPending := false } with
              | some popped =>
                  obtain ⟨event, popped⟩ := popped
                  obtain ⟨outbox, houtbox, hpopped⟩ := popEvent_eq_some hpop
                  dsimp only at houtbox hpopped ⊢
                  rw [hpopped, houtbox]
                  exact .caught hpkt h houtbox
              | none =>
                  have houtbox := popEvent_eq_none hpop
                  dsimp only at houtbox ⊢
                  rw [houtbox]
                  exact .passed hpkt houtbox (@ih { s with
                    state := s.state.ingest pkt, deadLinkPending := false } houtbox)

theorem polled_pollNext (s : MoldStream) (items : List SocketItem) :
    Polled s.state (s.pollPackets items) (s.pollNext items).1 (s.pollNext items).2.state := by
  unfold pollNext pollPackets
  cases s.finished with
  | true => exact .quiet (by rintro _ _ ⟨⟩)
  | false =>
      cases hpop : s.popEvent with
      | some popped =>
          obtain ⟨event, popped⟩ := popped
          obtain ⟨outbox, houtbox, hpopped⟩ := popEvent_eq_some hpop
          rw [houtbox]
          show Polled s.state [] (.ready (some event)) popped.state
          rw [hpopped]
          exact .waiting houtbox
      | none =>
          have houtbox := popEvent_eq_none hpop
          rw [houtbox]
          exact polled_readLoop items houtbox

end MoldStream

/-! ## The client -/

namespace GapRecoveryClient

variable {cfg : GapRecoveryConfig} {c c' : GapRecoveryClient} {first last : UInt64}
  {attempts : Nat → Attempt} {task : Option TaskResult} {err : Option MoldError}

/-- The packets that a poll reads. -/
def pollPackets (cfg : GapRecoveryConfig) (c : GapRecoveryClient) (input : PollInput) :
    List (ReceiverState × MoldPacket) :=
  match c.drain cfg input.task with
  | (some _, _) => []
  | (none, c) => c.stream.pollPackets input.items

theorem drain_of_recovered {found : RecoveryFrames} (hactive : c.active = some (first, last))
    (h : recoverGap cfg first last attempts = .ok found) :
    c.drain cfg (some (.finished attempts)) =
      (none, { c with active := none, stream := c.stream.ingestRetransmit found.frames }) := by
  simp only [drain, hactive, h]

theorem drain_of_failed {err : MoldError} (hactive : c.active = some (first, last))
    (h : recoverGap cfg first last attempts = .error err) :
    c.drain cfg (some (.finished attempts)) =
      (some err, { c with active := none, failed := c.failed ++ [(first, last)] }) := by
  simp only [drain, hactive, h]

/-- What becomes of a task. -/
inductive Drained (cfg : GapRecoveryConfig) (c : GapRecoveryClient) (task : Option TaskResult) :
    Option MoldError → GapRecoveryClient → Prop where
  | running : task = none ∨ c.active = none → Drained cfg c task none c
  | panicked : task = some .panicked → c.active ≠ none →
      Drained cfg c task none { c with active := none }
  | recovered {first last : UInt64} {attempts : Nat → Attempt} {found : RecoveryFrames} :
      c.active = some (first, last) → task = some (.finished attempts) →
      recoverGap cfg first last attempts = .ok found →
      Drained cfg c task none
        { c with active := none, stream := c.stream.ingestRetransmit found.frames }
  | failed {first last : UInt64} {attempts : Nat → Attempt} {err : MoldError} :
      c.active = some (first, last) → task = some (.finished attempts) →
      recoverGap cfg first last attempts = .error err →
      Drained cfg c task (some err)
        { c with active := none, failed := c.failed ++ [(first, last)] }

theorem drained (h : c.drain cfg task = (err, c')) : Drained cfg c task err c' := by
  cases task with
  | none =>
      cases h
      exact .running (.inl rfl)
  | some result =>
      cases hactive : c.active with
      | none =>
          simp only [drain, hactive] at h
          cases h
          exact .running (.inr hactive)
      | some range =>
          obtain ⟨first, last⟩ := range
          cases result with
          | panicked =>
              simp only [drain, hactive] at h
              cases h
              exact .panicked rfl (by simp [hactive])
          | finished attempts =>
              cases hgap : recoverGap cfg first last attempts with
              | ok found =>
                  rw [drain_of_recovered hactive hgap] at h
                  cases h
                  exact .recovered hactive rfl hgap
              | error e =>
                  rw [drain_of_failed hactive hgap] at h
                  cases h
                  exact .failed hactive rfl hgap

@[simp]
theorem stream_onGap (c : GapRecoveryClient) (first last : UInt64) :
    (c.onGap cfg first last).stream = c.stream := by
  unfold onGap
  split
  next => rfl
  next => rfl

@[simp]
theorem pollStream_fst (c : GapRecoveryClient) (items : List SocketItem) :
    (c.pollStream cfg items).1 = (c.stream.pollNext items).1 := by
  unfold pollStream
  split
  next heq => rw [heq]
  next heq => rw [heq]

@[simp]
theorem stream_pollStream (c : GapRecoveryClient) (items : List SocketItem) :
    (c.pollStream cfg items).2.stream = (c.stream.pollNext items).2 := by
  unfold pollStream
  split
  next heq => rw [heq, stream_onGap]
  next heq => rw [heq]

end GapRecoveryClient

/-! ## Retransmitted frames -/

namespace CachedFrame

variable {f : CachedFrame} {session : Vector UInt8 10} {pkt : MoldPacket}

/-- The packet of a frame. -/
structure IsPacket (f : CachedFrame) (session : Vector UInt8 10) (pkt : MoldPacket) : Prop where
  session : pkt.header.session = session
  sequence : pkt.header.sequence = f.sequence
  length : pkt.blocks.length = 1
  heartbeat : pkt.header.isHeartbeat = false
  endOfSession : pkt.header.isEndOfSession = false

theorem packet_eq_ok (h : f.packet session = .ok pkt) : f.IsPacket session pkt := by
  obtain ⟨block, -, hdata⟩ := bind_eq_ok.mp h
  obtain ⟨hsession, hsequence, hblocks, hcount, hend⟩ := MoldPacket.newData_eq_ok hdata
  refine ⟨hsession, hsequence, by rw [hblocks, List.length_singleton], ?_, hend⟩
  rw [MoldPacketHeader.isHeartbeat, beq_eq_false_iff_ne]
  intro hzero
  rw [hzero] at hcount
  cases hcount

/-- A frame that fits a block can be wrapped into a packet. -/
theorem exists_packet (h : f.Fits) (session : Vector UInt8 10) :
    ∃ pkt, f.packet session = .ok pkt := by
  have hblock : MessageBlock.new f.body = .ok { data := f.body } := by
    unfold MessageBlock.new
    rw [if_neg, if_neg (Nat.not_lt.mpr h.2)]
    rw [List.isEmpty_iff_length_eq_zero]
    exact Nat.one_le_iff_ne_zero.mp h.1
  rw [packet, hblock, ok_bind]
  exact ⟨_, rfl⟩

end CachedFrame

namespace ReceiverState

variable {r : ReceiverState} {session : Vector UInt8 10}

theorem Orderly.ingestResult (h : r.Orderly) (f : CachedFrame) (session : Vector UInt8 10) :
    (r.ingestResult (f.packet session)).Orderly := by
  cases hpacket : f.packet session with
  | error err => exact h.quiet
  | ok pkt =>
      have hsingle := h.meshes_of_single (CachedFrame.packet_eq_ok hpacket).length
      exact (h.ingest (.inr ⟨session, f, hpacket⟩) hsingle).1

theorem Orderly.ingestRetransmit (h : r.Orderly) (frames : List CachedFrame) :
    (r.ingestRetransmit frames).Orderly := by
  unfold ReceiverState.ingestRetransmit
  generalize r.session.getD (Vector.replicate 10 0x20) = session
  induction frames generalizing r with
  | nil => exact h
  | cons f frames ih => exact ih (h.ingestResult f session)

/-- A frame that is not above the cursor takes it past its number, and is no gap. -/
theorem Orderly.ingest_frame {f : CachedFrame} (h : r.Orderly)
    (hsession : r.session = none ∨ r.session = some session) (hfits : f.Fits)
    (hle : f.sequence.toNat ≤ r.nextExpected.toNat) (hlt : f.sequence.toNat + 1 < 2 ^ 64) :
    f.sequence.toNat + 1 ≤ (r.ingestResult (f.packet session)).nextExpected.toNat ∧
      (r.ingestResult (f.packet session)).session = some session ∧
      Queues r (r.ingestResult (f.packet session)) [] ∧
      ∀ k, (r.ingestResult (f.packet session)).Lacks k → r.Lacks k := by
  obtain ⟨pkt, hpacket⟩ := f.exists_packet hfits session
  have hpkt : pkt.Received := .inr ⟨session, f, hpacket⟩
  have his := CachedFrame.packet_eq_ok hpacket
  have hmesh := h.meshes_of_single his.length
  have hcursor : pkt.header.sequence.toNat ≤ (r.cursor pkt).toNat := by
    rw [his.sequence]
    exact hle.trans (h.opening pkt).2
  have hahead : ¬ r.Ahead pkt := fun hahead =>
    absurd (Word64.lt_iff.mp hahead.lt) (Nat.not_lt.mpr hcursor)
  obtain ⟨hpast, hopened⟩ := h.ingest_data hpkt hmesh (his.session.symm ▸ hsession) his.heartbeat
    his.endOfSession (Word64.le_iff.mpr hcursor) (by rw [his.sequence, his.length]; exact hlt)
  rw [hpacket]
  rw [his.sequence, his.length] at hpast
  exact ⟨hpast, hopened.trans (congrArg some his.session), (ingest_of_not_ahead hahead).1,
    fun k => lacks_of_ingest h hpkt hmesh hahead⟩

/-- So do frames that are numbered from the cursor on, or from below it. -/
theorem Orderly.ingest_frames {frames : List CachedFrame} {first : Nat} (h : r.Orderly)
    (hsession : r.session = none ∨ r.session = some session) (hfits : ∀ f ∈ frames, f.Fits)
    (hnumbered : Numbered first (frames.map CachedFrame.entry))
    (hle : first ≤ r.nextExpected.toNat) (hlt : first + frames.length < 2 ^ 64) :
    let r' := frames.foldl (fun r f => r.ingestResult (f.packet session)) r
    first + frames.length ≤ r'.nextExpected.toNat ∧ Queues r r' [] ∧
      ∀ k, r'.Lacks k → r.Lacks k := by
  induction frames generalizing r first with
  | nil => exact ⟨hle, .of_eq rfl, fun _ hk => hk⟩
  | cons f frames ih =>
      rw [List.length_cons] at hlt ⊢
      rw [List.map_cons] at hnumbered
      obtain ⟨hhead, htail⟩ := Numbered.cons_iff.mp hnumbered
      have hsequence : f.sequence.toNat = first := hhead.trans (Nat.min_eq_left (by omega))
      obtain ⟨hf, hrest⟩ := List.forall_mem_cons.mp hfits
      obtain ⟨hpast, hopened, hqueues, hlacks⟩ :=
        h.ingest_frame hsession hf (by omega) (by omega)
      obtain ⟨hend, hqueues', hlacks'⟩ := ih (h.ingestResult f session) (.inr hopened) hrest htail
        (by omega) (by omega)
      exact ⟨by rw [List.foldl_cons]; omega, hqueues.trans hqueues',
        fun k hk => hlacks k (hlacks' k hk)⟩

theorem Orderly.retransmit_past {frames : List CachedFrame} {first : Nat} (h : r.Orderly)
    (hfits : ∀ f ∈ frames, f.Fits) (hnumbered : Numbered first (frames.map CachedFrame.entry))
    (hle : first ≤ r.nextExpected.toNat) (hlt : first + frames.length < 2 ^ 64) :
    first + frames.length ≤ (r.ingestRetransmit frames).nextExpected.toNat ∧
      Queues r (r.ingestRetransmit frames) [] ∧
      ∀ k, (r.ingestRetransmit frames).Lacks k → r.Lacks k := by
  refine h.ingest_frames ?_ hfits hnumbered hle hlt
  cases r.session with
  | none => exact .inl rfl
  | some session => exact .inr rfl

end ReceiverState

/-! ## Polls that mesh -/

theorem MoldStream.Polled.orderly {r r' : ReceiverState} {answer : StreamAnswer}
    {pkts : List (ReceiverState × MoldPacket)} (h : Polled r pkts answer r') (hr : r.Orderly)
    (hmesh : ∀ m ∈ pkts, m.1.Meshes m.2) :
    r'.Orderly ∧ r.nextExpected.toNat ≤ r'.nextExpected.toNat := by
  induction h with
  | quiet => exact ⟨hr, le_rfl⟩
  | waiting => exact ⟨hr.quiet, le_rfl⟩
  | caught hpkt =>
      obtain ⟨horderly, hle⟩ := hr.ingest hpkt (hmesh _ List.mem_cons_self)
      exact ⟨horderly.quiet, hle⟩
  | passed hpkt _ _ ih =>
      obtain ⟨horderly, hle⟩ := hr.ingest hpkt (hmesh _ List.mem_cons_self)
      obtain ⟨hlater, hle'⟩ := ih horderly fun m hm => hmesh m (List.mem_cons_of_mem _ hm)
      exact ⟨hlater, hle.trans hle'⟩

namespace GapRecoveryClient

variable {cfg : GapRecoveryConfig} {c c' : GapRecoveryClient} {input : PollInput}

theorem Drained.orderly {task : Option TaskResult} {err : Option MoldError}
    (h : Drained cfg c task err c') (hc : c.stream.state.Orderly) : c'.stream.state.Orderly := by
  cases h with
  | running => exact hc
  | panicked => exact hc
  | recovered => exact hc.ingestRetransmit _
  | failed => exact hc

/-- A poll whose packets mesh with what is held back when they arrive. -/
def MeshingPoll (cfg : GapRecoveryConfig) (c c' : GapRecoveryClient) : Prop :=
  ∃ input, (∀ m ∈ c.pollPackets cfg input, m.1.Meshes m.2) ∧ (c.pollNext cfg input).2 = c'

theorem orderly_pollNext (hc : c.stream.state.Orderly)
    (hmesh : ∀ m ∈ c.pollPackets cfg input, m.1.Meshes m.2) :
    (c.pollNext cfg input).2.stream.state.Orderly := by
  unfold pollPackets at hmesh
  unfold GapRecoveryClient.pollNext
  split
  next hdrain => exact (drained hdrain).orderly hc
  next drained' hdrain =>
    rw [hdrain] at hmesh
    rw [stream_pollStream]
    have hpolled := drained'.stream.polled_pollNext input.items
    exact (hpolled.orderly ((drained hdrain).orderly hc) hmesh).1

/-- In a run of such polls nothing is held back that the cursor has reached. -/
theorem orderly_of_run {mold : MoldConfig}
    (hrun : Relation.ReflTransGen (MeshingPoll cfg) (new (.new mold)) c) :
    c.stream.state.Orderly := by
  induction hrun with
  | refl => exact .new mold
  | tail _ hstep ih =>
      obtain ⟨input, hmesh, rfl⟩ := hstep
      exact orderly_pollNext ih hmesh

end GapRecoveryClient

end Itch
