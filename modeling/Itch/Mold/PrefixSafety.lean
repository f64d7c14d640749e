import Itch.Mold.Advance
import Itch.Mold.PacketCodec

/-!
# Prefix safety of the receiver

Whatever is lost, repeated, reordered, evicted or retransmitted, the receiver queues the
outcomes of consecutive log entries from the starting sequence number on.  Before the
first packet of the session a receiver without a configured start is `Fresh`; from then
on, or from the beginning with a configured start, it `Tracks` the log.
-/

namespace Itch

open Lib

/-- What a driver hands to the receiver. -/
inductive Input where
  /-- A decoded datagram. -/
  | packet (pkt : MoldPacket)
  /-- The answer of a request server. -/
  | retransmit (frames : List CachedFrame)
deriving Repr, DecidableEq

namespace ReceiverState

def step (r : ReceiverState) : Input → ReceiverState
  | .packet pkt => r.ingest pkt
  | .retransmit frames => r.ingestRetransmit frames

def run (r : ReceiverState) (inputs : List Input) : ReceiverState :=
  inputs.foldl step r

theorem run_append (r : ReceiverState) (before after : List Input) :
    r.run (before ++ after) = (r.run before).run after :=
  List.foldl_append

end ReceiverState

open ReceiverState

/-- Whether a packet is one of the session. -/
def accepted (session : Vector UInt8 10) : Except MoldError MoldPacket → Bool
  | .ok pkt => pkt.header.session == session
  | .error _ => false

namespace Input

/-- The packets an input hands to a receiver of the session, or the errors queued in
their place. -/
def results (session : Vector UInt8 10) : Input → List (Except MoldError MoldPacket)
  | .packet pkt => [.ok pkt]
  | .retransmit frames => frames.map (·.packet session)

/-- A datagram the codec accepts, or frames of a request server.  The data of the session
agrees with the log and stays below the last sequence number. -/
def Agrees (log : Nat → Bytes) (session : Vector UInt8 10) : Input → Prop
  | .packet pkt =>
      (∃ buf, MoldPacket.decode buf = .ok pkt) ∧
      (pkt.header.session = session →
        pkt.header.isHeartbeat = false → pkt.header.isEndOfSession = false →
          (∀ i b, pkt.blocks[i]? = some b → b.data = log (pkt.header.sequence.toNat + i)) ∧
          pkt.header.sequence.toNat + pkt.blocks.length < 2 ^ 64)
  | .retransmit frames =>
      ∀ f ∈ frames, f.body = log f.sequence.toNat ∧ f.sequence.toNat + 1 < 2 ^ 64

end Input

/-- The first sequence number to deliver: the configured one, or the one of the first
packet of the session. -/
def startingSequence (cfg : MoldConfig) (session : Vector UInt8 10) (inputs : List Input) :
    UInt64 :=
  if cfg.startSequence ≠ 0 then cfg.startSequence
  else match (inputs.flatMap (·.results session)).find? (accepted session) with
    | some (.ok pkt) => pkt.header.sequence
    | _ => 0

/-! ## Inputs as packets -/

/-- A packet, or an error in its place, that keeps to the log. -/
def ResultAgrees (log : Nat → Bytes) (session : Vector UInt8 10) :
    Except MoldError MoldPacket → Prop
  | .ok pkt => pkt.header.session = session → PacketAgrees log pkt
  | .error err => isDelivery (.error err) = false

theorem CachedFrame.packet_agrees {log : Nat → Bytes} {session : Vector UInt8 10}
    {f : CachedFrame} (heq : f.body = log f.sequence.toNat)
    (hlt : f.sequence.toNat + 1 < 2 ^ 64) : ResultAgrees log session (f.packet session) := by
  unfold CachedFrame.packet
  cases hblock : MessageBlock.new f.body with
  | error err =>
      unfold MessageBlock.new at hblock
      split at hblock
      next => cases hblock; rfl
      next =>
        split at hblock
        next => cases hblock; rfl
        next => cases hblock
  | ok block =>
      obtain ⟨hdata, hfits⟩ := MessageBlock.new_eq_ok hblock
      rw [ok_bind]
      cases hpkt : MoldPacket.newData session f.sequence [block] with
      | error err =>
          unfold MoldPacket.newData at hpkt
          cases hpkt
      | ok pkt =>
          obtain ⟨-, hseq, hblocks, -, -⟩ := MoldPacket.newData_eq_ok hpkt
          intro _ _ _
          rw [hseq, hblocks]
          refine ⟨?_, ?_, by simpa using hlt⟩
          · intro i b hb
            obtain ⟨rfl, rfl⟩ : i = 0 ∧ b = block := by
              cases i with
              | zero => simpa [eq_comm] using hb
              | succ i => simp at hb
            rw [hdata, heq, Nat.add_zero]
          · intro b hb
            rw [List.mem_singleton.mp hb, hdata]
            exact hfits

theorem Input.Agrees.results {log : Nat → Bytes} {session : Vector UInt8 10} {input : Input}
    (h : input.Agrees log session) : ∀ x ∈ input.results session, ResultAgrees log session x := by
  cases input with
  | packet pkt =>
      obtain ⟨⟨buf, hbuf⟩, hdata⟩ := h
      intro x hx
      rw [List.mem_singleton.mp hx]
      intro hsession hheart heos
      obtain ⟨heq, hlt⟩ := hdata hsession hheart heos
      exact ⟨heq, MoldPacket.decode_fit hbuf, hlt⟩
  | retransmit frames =>
      intro x hx
      obtain ⟨f, hf, rfl⟩ := List.mem_map.mp hx
      obtain ⟨heq, hlt⟩ := h f hf
      exact CachedFrame.packet_agrees heq hlt

namespace ReceiverState

variable {log : Nat → Bytes} {session : Vector UInt8 10} {base : Nat} {r r' : ReceiverState}

theorem step_eq (h : r.session = some session) (input : Input) :
    r.step input = (input.results session).foldl ingestResult r := by
  cases input with
  | packet pkt => rfl
  | retransmit frames =>
      simp only [step, ingestRetransmit, Input.results, h, Option.getD_some, List.foldl_map]

/-! ## Before and after the first packet -/

/-- The sequence number is fixed, and the output so far is the segment of the log from
`base` to the cursor. -/
structure Tracks (log : Nat → Bytes) (session : Vector UInt8 10) (base : Nat)
    (r : ReceiverState) : Prop where
  fixed : r.bootstrapped ∨ r.startSequence ≠ 0
  session : r.session = some session
  le : base ≤ r.nextExpected.toNat
  deliveries : deliveries r.outbox = segment (logOutcome log) base r.nextExpected.toNat
  holds : HoldsLog log r

/-- No packet of the session has come and no start is configured. -/
structure Fresh (session : Vector UInt8 10) (r : ReceiverState) : Prop where
  bootstrapped : r.bootstrapped = false
  startSequence : r.startSequence = 0
  session : r.session = some session
  nextExpected : r.nextExpected = 0
  pending : r.pending = ∅
  deliveries : deliveries r.outbox = []

theorem Tracks.advance (h : Tracks log session base r) (hadv : Advances log r r') :
    Tracks log session base r' where
  fixed := h.fixed.imp hadv.bootstrapped fun h => hadv.startSequence ▸ h
  session := hadv.session.trans h.session
  le := h.le.trans hadv.le
  deliveries := by rw [hadv.deliveries, h.deliveries, segment_append h.le hadv.le]
  holds := hadv.holds

theorem Fresh.holds (h : Fresh session r) : HoldsLog log r := by
  intro seq body hseq
  rw [h.pending] at hseq
  simp at hseq

theorem ingest_eq (h : r.session = some session) {pkt : MoldPacket}
    (hpkt : pkt.header.session = session) : r.ingest pkt = r.ingestSession pkt := by
  unfold ingest
  rw [h]
  exact if_neg (not_not.mpr hpkt.symm)

/-- A result that is not accepted only queues an error. -/
theorem ingestResult_not_accepted (h : r.session = some session)
    {x : Except MoldError MoldPacket} (hx : accepted session x = false)
    (hagree : ResultAgrees log session x) :
    ∃ event, isDelivery event = false ∧ r.ingestResult x = r.push event := by
  cases x with
  | error err => exact ⟨.error err, hagree, rfl⟩
  | ok pkt =>
      have hne : session ≠ pkt.header.session := fun heq => by simp [accepted, heq] at hx
      refine ⟨.error (.sessionMismatch session pkt.header.session), rfl, ?_⟩
      simp only [ingestResult, ingest, h]
      exact if_pos hne

theorem Tracks.advances_ingestResult (h : Tracks log session base r)
    {x : Except MoldError MoldPacket} (hagree : ResultAgrees log session x) :
    Advances log r (r.ingestResult x) ∧
      (accepted session x → (r.ingestResult x).bootstrapped) := by
  cases hx : accepted session x with
  | false =>
      obtain ⟨event, hevent, heq⟩ := ingestResult_not_accepted h.session hx hagree
      rw [heq]
      exact ⟨.push h.holds hevent, nofun⟩
  | true =>
      cases x with
      | error err => cases hx
      | ok pkt =>
          have hsession : pkt.header.session = session := by simpa [accepted] using hx
          rw [ingestResult, ingest_eq h.session hsession, ingestSession]
          have hboot := advances_bootstrap pkt.header.sequence h.holds h.fixed
          have hadv := advances_ingestBootstrapped hboot.holds (hagree hsession)
          exact ⟨hboot.trans hadv, fun _ => hadv.bootstrapped (bootstrapped_bootstrap _)⟩

/-- The first packet of the session fixes the starting point. -/
theorem Fresh.ingest (h : Fresh session r) {pkt : MoldPacket}
    (hsession : pkt.header.session = session) (hagree : PacketAgrees log pkt) :
    Tracks log session pkt.header.sequence.toNat (r.ingest pkt) ∧
      (r.ingest pkt).bootstrapped := by
  have hboot : r.bootstrap pkt.header.sequence
      = { r with nextExpected := pkt.header.sequence, bootstrapped := true } := by
    unfold bootstrap
    rw [if_neg (by simp [h.bootstrapped]), if_pos h.startSequence]
  rw [ingest_eq h.session hsession, ingestSession, hboot]
  have htracks : Tracks log session pkt.header.sequence.toNat
      { r with nextExpected := pkt.header.sequence, bootstrapped := true } :=
    ⟨.inl rfl, h.session, le_rfl, by rw [segment_self]; exact h.deliveries, h.holds⟩
  have hadv := advances_ingestBootstrapped htracks.holds hagree
  exact ⟨htracks.advance hadv, hadv.bootstrapped rfl⟩

theorem Fresh.push (h : Fresh session r) {event : Except MoldError MoldEvent}
    (hevent : isDelivery event = false) : Fresh session (r.push event) :=
  { h with deliveries := by simpa [ReceiverState.push, Itch.deliveries, hevent] using h.deliveries }

/-! ## Runs -/

/-- Once it tracks the log, the receiver advances over every list of results. -/
theorem Tracks.advances_results (h : Tracks log session base r)
    {xs : List (Except MoldError MoldPacket)} (hxs : ∀ x ∈ xs, ResultAgrees log session x) :
    Advances log r (xs.foldl ingestResult r) ∧
      (xs.any (accepted session) → (xs.foldl ingestResult r).bootstrapped) := by
  induction xs generalizing r with
  | nil => exact ⟨.refl h.holds, nofun⟩
  | cons x xs ih =>
      obtain ⟨hx, hxs⟩ := List.forall_mem_cons.mp hxs
      obtain ⟨hadv, hboot⟩ := h.advances_ingestResult hx
      obtain ⟨hadv', hboot'⟩ := ih (h.advance hadv) hxs
      refine ⟨hadv.trans hadv', fun hany => ?_⟩
      rcases Bool.or_eq_true_iff.mp (List.any_cons ▸ hany) with hx | hxs
      · exact hadv'.bootstrapped (hboot hx)
      · exact hboot' hxs

/-- A fresh receiver stays fresh until the first packet of the session, and then tracks
the log from there. -/
theorem Fresh.results (h : Fresh session r) {xs : List (Except MoldError MoldPacket)}
    (hxs : ∀ x ∈ xs, ResultAgrees log session x) :
    match xs.find? (accepted session) with
    | some (.ok pkt) =>
        Tracks log session pkt.header.sequence.toNat (xs.foldl ingestResult r) ∧
          (xs.foldl ingestResult r).bootstrapped
    | _ => Fresh session (xs.foldl ingestResult r) := by
  induction xs generalizing r with
  | nil => exact h
  | cons x xs ih =>
      obtain ⟨hx, hrest⟩ := List.forall_mem_cons.mp hxs
      rw [List.foldl_cons]
      cases hacc : accepted session x with
      | false =>
          obtain ⟨event, hevent, heq⟩ := ingestResult_not_accepted h.session hacc hx
          rw [List.find?_cons_of_neg (by simp [hacc]), heq]
          exact ih (h.push hevent) hrest
      | true =>
          rw [List.find?_cons_of_pos hacc]
          cases x with
          | error err => cases hacc
          | ok pkt =>
              have hsession : pkt.header.session = session := by simpa [accepted] using hacc
              obtain ⟨htracks, hboot⟩ := h.ingest hsession (hx hsession)
              obtain ⟨hadv, -⟩ := htracks.advances_results hrest
              exact ⟨htracks.advance hadv, hadv.bootstrapped hboot⟩

/-- The receiver tracks the log or waits for the first packet. -/
def Ready (log : Nat → Bytes) (session : Vector UInt8 10) (r : ReceiverState) : Prop :=
  (∃ base, Tracks log session base r) ∨ Fresh session r

theorem Ready.session_eq (h : Ready log session r) : r.session = some session := by
  rcases h with ⟨base, h⟩ | h
  · exact h.session
  · exact h.session

theorem Ready.results (h : Ready log session r) {xs : List (Except MoldError MoldPacket)}
    (hxs : ∀ x ∈ xs, ResultAgrees log session x) : Ready log session (xs.foldl ingestResult r) := by
  rcases h with ⟨base, h⟩ | h
  · exact .inl ⟨base, h.advance (h.advances_results hxs).1⟩
  · have hfresh := h.results hxs
    split at hfresh
    next pkt _ => exact .inl ⟨_, hfresh.1⟩
    next => exact .inr hfresh

/-- A run hands the receiver the results of its inputs one after the other. -/
theorem run_eq (h : Ready log session r) {inputs : List Input}
    (hinputs : ∀ i ∈ inputs, i.Agrees log session) :
    r.run inputs = (inputs.flatMap (·.results session)).foldl ingestResult r := by
  induction inputs generalizing r with
  | nil => rfl
  | cons input inputs ih =>
      obtain ⟨hinput, hrest⟩ := List.forall_mem_cons.mp hinputs
      have hnext := h.results hinput.results
      rw [List.flatMap_cons, List.foldl_append, ← ih hnext hrest, ← step_eq h.session_eq]
      rfl

theorem results_agree {inputs : List Input} (hinputs : ∀ i ∈ inputs, i.Agrees log session) :
    ∀ x ∈ inputs.flatMap (·.results session), ResultAgrees log session x := by
  intro x hx
  obtain ⟨i, hi, hx⟩ := List.mem_flatMap.mp hx
  exact (hinputs i hi).results x hx

theorem Tracks.advances_run (h : Tracks log session base r) {inputs : List Input}
    (hinputs : ∀ i ∈ inputs, i.Agrees log session) : Advances log r (r.run inputs) := by
  rw [run_eq (.inl ⟨base, h⟩) hinputs]
  exact (h.advances_results (results_agree hinputs)).1

theorem tracks_new {cfg : MoldConfig} (hsession : cfg.session = some session)
    (hstart : cfg.startSequence ≠ 0) :
    Tracks log session cfg.startSequence.toNat (new cfg) := by
  refine ⟨.inr hstart, hsession, le_rfl, by rw [new, segment_self]; rfl, ?_⟩
  intro seq body hseq
  simp [new] at hseq

theorem fresh_new {cfg : MoldConfig} (hsession : cfg.session = some session)
    (hstart : cfg.startSequence = 0) : Fresh session (new cfg) :=
  ⟨rfl, hstart, hsession, hstart, rfl, rfl⟩

/-- The state after a run: the starting point is the one of the configuration or of the
first packet of the session, or no such packet has come. -/
theorem run_new {cfg : MoldConfig} (hsession : cfg.session = some session)
    {inputs : List Input} (hinputs : ∀ i ∈ inputs, i.Agrees log session) :
    Tracks log session (startingSequence cfg session inputs).toNat ((new cfg).run inputs) ∨
      (startingSequence cfg session inputs = 0 ∧ Fresh session ((new cfg).run inputs) ∧
        (inputs.flatMap (·.results session)).any (accepted session) = false) := by
  unfold startingSequence
  split
  next hstart =>
    have htracks : Tracks log session _ (new cfg) := tracks_new hsession hstart
    exact .inl (htracks.advance (htracks.advances_run hinputs))
  next hstart =>
    have hfresh := fresh_new hsession (not_not.mp hstart)
    have hrun := hfresh.results (results_agree hinputs)
    rw [← run_eq (.inr hfresh) hinputs] at hrun
    cases hfind : (inputs.flatMap (·.results session)).find? (accepted session) with
    | none =>
        rw [hfind] at hrun
        refine .inr ⟨rfl, hrun, ?_⟩
        exact List.any_eq_false.mpr (List.find?_eq_none.mp hfind)
    | some x =>
        cases x with
        | error err => exact absurd (List.find?_some hfind) (by simp [accepted])
        | ok pkt =>
            rw [hfind] at hrun
            exact .inl hrun.1

/-- **Prefix safety.**  The messages and decode errors queued by a receiver of a pinned
session are the outcomes of consecutive log entries from the starting one, and from the
first packet of the session on the cursor never moves back. -/
theorem prefix_safety (log : Nat → Bytes) (cfg : MoldConfig) (session : Vector UInt8 10)
    (hsession : cfg.session = some session) (inputs : List Input)
    (hinputs : ∀ i ∈ inputs, i.Agrees log session) :
    (∃ n, (startingSequence cfg session inputs).toNat ≤ n ∧
      ((new cfg).run inputs).nextExpected.toNat = n ∧
      deliveries ((new cfg).run inputs).outbox
        = segment (logOutcome log) (startingSequence cfg session inputs).toNat n) ∧
    ∀ before after, inputs = before ++ after →
      (before.flatMap (·.results session)).any (accepted session) →
        ((new cfg).run before).nextExpected ≤ ((new cfg).run inputs).nextExpected := by
  constructor
  · rcases run_new hsession hinputs with htracks | ⟨hstart, hfresh, -⟩
    · exact ⟨_, htracks.le, rfl, htracks.deliveries⟩
    · refine ⟨0, by simp [hstart], by simp [hfresh.nextExpected], ?_⟩
      rw [hfresh.deliveries, hstart, UInt64.toNat_zero, segment_self]
  · rintro before after rfl hany
    obtain ⟨hbefore, hafter⟩ := List.forall_mem_append.mp hinputs
    rcases run_new hsession hbefore with htracks | ⟨-, -, hnone⟩
    · rw [Word64.le_iff, run_append]
      exact (htracks.advances_run hafter).le
    · rw [hany] at hnone
      cases hnone

/-- A delete under number 1, and bytes that decode to no message from there on. -/
def lossyLog (n : Nat) : Bytes :=
  if n = 1 then 0x44 :: List.replicate 18 0 else [0]

/-- Block 2 comes before block 1, which only the request server has; a packet of another
session stands in between. -/
def lossyFeed : List Input :=
  [.packet ⟨⟨Vector.replicate 10 0x41, 2, 1⟩, [⟨[0]⟩]⟩,
   .packet ⟨⟨Vector.replicate 10 0x42, 9, 0⟩, []⟩,
   .retransmit [⟨1, 0x44 :: List.replicate 18 0⟩]]

def lossyConfig : MoldConfig :=
  { session := some (Vector.replicate 10 0x41), startSequence := 1, maxPendingMessages := 2
    pendingOverflow := .error }

theorem agrees_lossyFeed : ∀ i ∈ lossyFeed, i.Agrees lossyLog (Vector.replicate 10 0x41) := by
  intro i hi
  simp only [lossyFeed, List.mem_cons, List.not_mem_nil, or_false] at hi
  rcases hi with rfl | rfl | rfl
  · refine ⟨⟨List.replicate 10 0x41 ++ toBE 8 2 ++ toBE 2 1 ++ [0, 1, 0], by decide +kernel⟩, ?_⟩
    intro _ _ _
    refine ⟨fun i b hb => ?_, by decide⟩
    cases i with
    | zero => cases hb; rfl
    | succ i => cases hb
  · exact ⟨⟨List.replicate 10 0x42 ++ toBE 8 9 ++ toBE 2 0, by decide +kernel⟩,
      fun h => absurd h (by decide)⟩
  · intro f hf
    rw [List.mem_singleton.mp hf]
    exact ⟨by decide, by decide⟩

theorem prefix_safety_lossyFeed :
    (∀ i ∈ lossyFeed, i.Agrees lossyLog (Vector.replicate 10 0x41)) ∧
    deliveries ((new lossyConfig).run lossyFeed).outbox = segment (logOutcome lossyLog) 1 3 := by
  refine ⟨agrees_lossyFeed, ?_⟩
  obtain ⟨⟨n, -, hn, hdel⟩, -⟩ :=
    prefix_safety lossyLog lossyConfig _ rfl lossyFeed agrees_lossyFeed
  have hnext : ((new lossyConfig).run lossyFeed).nextExpected.toNat = 3 := by decide +kernel
  rw [hdel, ← hn, hnext]
  rfl

end ReceiverState

end Itch
