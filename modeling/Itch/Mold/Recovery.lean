import Itch.Mold.Polls

/-!
# What gap recovery watches, and what it yields

A hole is watched if a task is running whose range contains the cursor, or such a task has
failed and its error was returned.  The client asks once for a gap that surfaces while no task is
running and takes any answer to be the whole gap, so it forgets a hole when a task panics or comes
back with too few frames, when a gap surfaces while an older one is being asked for, and when the
buffer overflows.  `Careful` says of what a poll finds that none of this happens.

The invariant is about all the numbers that are lacking, not only the one at the cursor: once a
gap is filled, the cursor moves on to the next of them.

The last section is about the end of the session, after which nothing is yielded.
-/

namespace Itch

open Lib

namespace ReceiverState

variable {r : ReceiverState} {pkt : MoldPacket}

/-- A block is held back above the cursor. -/
def Hole (r : ReceiverState) : Prop :=
  ∃ seq ∈ r.pending, r.nextExpected < seq

/-- No gap is waiting to be yielded. -/
def NoGap (r : ReceiverState) : Prop :=
  ∀ event ∈ r.outbox, gap? event = none

theorem NoGap.queues {r' : ReceiverState} (h : r.NoGap) (hqueues : Queues r r' []) :
    r'.NoGap := by
  obtain ⟨new, hnew, hgaps⟩ := hqueues
  intro event hevent
  rw [hnew] at hevent
  rcases List.mem_append.mp hevent with hold | hlate
  · exact h event hold
  · exact List.filterMap_eq_nil_iff.mp hgaps event hlate

/-- A packet ahead of the cursor queues its gap before anything else. -/
theorem outbox_of_ahead (hahead : r.Ahead pkt) :
    ∃ later, (r.ingest pkt).outbox =
        r.outbox ++ .ok (.gap (r.cursor pkt) (pkt.header.sequence - 1)) :: later ∧
      ∀ event ∈ later, gap? event = none := by
  have hstash := Queues.foldl
    (fun r (entry : UInt64 × Bytes) => queues_stashPending r entry.1 entry.2)
    (numbered pkt.header.sequence pkt.blocks)
    ((r.opening pkt).push (.ok (.gap (r.cursor pkt) (pkt.header.sequence - 1))))
  rw [← ingest_eq_stash hahead] at hstash
  obtain ⟨later, houtbox, hgaps⟩ := hstash
  refine ⟨later, ?_, List.filterMap_eq_nil_iff.mp hgaps⟩
  rw [houtbox, push, outbox_opening, List.append_assoc, List.singleton_append]

/-- What a packet may be, with `free` for no task running: it meshes with what is held back, and
if it comes ahead it finds room and opens no gap of its own beside a task. -/
structure Settles (free : Prop) (r : ReceiverState) (pkt : MoldPacket) : Prop where
  meshes : r.Meshes pkt
  room : r.Ahead pkt → r.pending.size + pkt.blocks.length ≤ r.maxPending
  joins : r.Ahead pkt → free ∨ ∃ seq ∈ r.pending, pkt.header.sequence.toNat ≤ seq.toNat + 1

/-- A number lacks after a packet ahead of the cursor only if it did so before or is in the gap
that no task stands in the way of. -/
theorem Settles.lacks {free : Prop} {seq : UInt64} (h : Settles free r pkt) (hr : r.Orderly)
    (hahead : r.Ahead pkt) (hseq : (r.ingest pkt).Lacks seq.toNat) :
    r.Lacks seq.toNat ∨ free ∧ r.cursor pkt ≤ seq ∧ seq ≤ pkt.header.sequence - 1 := by
  obtain ⟨hle, hnot, hbelow⟩ := lacks_of_ahead hahead (h.meshes.width hahead) (h.room hahead) hseq
  have hnext := hle.trans' (hr.opening pkt).2
  rcases hbelow with hlow | hheld
  · rcases h.joins hahead with hfree | ⟨high, hhigh, hbehind⟩
    · exact .inr ⟨hfree, Word64.le_iff.mpr hle,
        (Word64.le_pred_iff hahead.lt).mpr (Word64.lt_iff.mpr hlow)⟩
    · -- the number is below a block held back, or would be held back itself
      refine .inl ⟨hnext, hnot, high, hhigh, ?_⟩
      refine Nat.lt_of_le_of_ne (by omega) fun heq => hnot ?_
      exact heq ▸ mem_held.mpr hhigh
  · exact .inl ⟨hnext, hnot, hheld⟩

end ReceiverState

open ReceiverState (Settles NoGap)

/-! ## A poll of the stream -/

theorem gap?_eq_none_iff {event : Except MoldError MoldEvent} :
    gap? event = none ↔
      ∀ first last, .ready (some event) ≠ StreamAnswer.gap first last := by
  constructor
  · rintro hnone first last ⟨⟩
    cases hnone
  · intro h
    cases hgap : gap? event with
    | none => rfl
    | some gap =>
        rw [eq_of_gap?_eq_some hgap] at h
        exact absurd rfl (h gap.1 gap.2)

/-- A gap that a poll returns starts at the cursor, and a number begins to lack only in such a
gap, with no task running. -/
structure Tends (free : Prop) (r : ReceiverState) (answer : StreamAnswer) (r' : ReceiverState) :
    Prop where
  noGap : r'.NoGap
  gap : ∀ first last, answer = .gap first last →
    first = r'.nextExpected ∧ last.toNat + 1 < 2 ^ 64
  lacks : ∀ seq : UInt64, r'.Lacks seq.toNat → r.Lacks seq.toNat ∨
    free ∧ ∃ first last, answer = .gap first last ∧ first ≤ seq ∧ seq ≤ last

/-- Taking an event that is no gap off the outbox. -/
theorem Tends.pop {free : Prop} {r r' : ReceiverState} {event : Except MoldError MoldEvent}
    {outbox : List (Except MoldError MoldEvent)} (hnoGap : r'.NoGap)
    (houtbox : r'.outbox = event :: outbox) (hlacks : ∀ k, r'.Lacks k → r.Lacks k) :
    Tends free r (.ready (some event)) { r' with outbox := outbox } := by
  unfold ReceiverState.NoGap at hnoGap
  rw [houtbox] at hnoGap
  have hevents := List.forall_mem_cons.mp hnoGap
  exact {
    noGap := hevents.2
    gap := fun first last hgap => absurd hgap (gap?_eq_none_iff.mp hevents.1 first last)
    lacks := fun seq hseq => .inl (hlacks _ hseq) }

theorem MoldStream.Polled.tends {free : Prop} {r r' : ReceiverState} {answer : StreamAnswer}
    {pkts : List (ReceiverState × MoldPacket)} (h : Polled r pkts answer r') (hr : r.Orderly)
    (hnoGap : r.NoGap) (hsettles : ∀ m ∈ pkts, Settles free m.1 m.2) : Tends free r answer r' := by
  induction h with
  | quiet hanswer =>
      exact ⟨hnoGap, fun first last hgap => absurd hgap (hanswer first last),
        fun _ hseq => .inl hseq⟩
  | waiting houtbox => exact .pop hnoGap houtbox fun _ hk => hk
  | @caught r pkt event outbox hpkt hempty houtbox =>
      have hsettle := hsettles (r, pkt) List.mem_cons_self
      by_cases hahead : r.Ahead pkt
      · -- the gap is the first event, so it is the one that is returned
        obtain ⟨later, hlater, hlaterGaps⟩ := ReceiverState.outbox_of_ahead hahead
        rw [hempty, List.nil_append, houtbox] at hlater
        obtain ⟨rfl, rfl⟩ := List.cons.inj hlater
        refine ⟨hlaterGaps, ?_, fun seq hseq => ?_⟩
        · rintro first last ⟨⟩
          refine ⟨(ReceiverState.ingest_of_ahead hahead).1.symm, ?_⟩
          have hlt := (Word64.le_pred_iff hahead.lt).mp (Word64.le_iff.mpr le_rfl)
          exact Nat.lt_of_le_of_lt (Word64.lt_iff.mp hlt) (UInt64.toNat_lt _)
        · rcases hsettle.lacks hr hahead hseq with hold | ⟨hfree, hrange⟩
          · exact .inl hold
          · exact .inr ⟨hfree, _, _, rfl, hrange⟩
      · exact .pop (hnoGap.queues (ReceiverState.ingest_of_not_ahead hahead).1) houtbox
          fun k => ReceiverState.lacks_of_ingest hr hpkt hsettle.meshes hahead
  | @passed r r' pkt answer later hpkt hempty _ ih =>
      have hsettle := hsettles (r, pkt) List.mem_cons_self
      have hahead : ¬ r.Ahead pkt := fun hahead => by
        obtain ⟨later, hlater, -⟩ := ReceiverState.outbox_of_ahead hahead
        rw [hempty] at hlater
        exact List.append_ne_nil_of_right_ne_nil _ (List.cons_ne_nil _ _) hlater.symm
      have hnext := ih (hr.ingest hpkt hsettle.meshes).1
        (hnoGap.queues (ReceiverState.ingest_of_not_ahead hahead).1)
        fun m hm => hsettles m (List.mem_cons_of_mem _ hm)
      refine ⟨hnext.noGap, hnext.gap, fun seq hseq => (hnext.lacks seq hseq).imp ?_ id⟩
      exact ReceiverState.lacks_of_ingest hr hpkt hsettle.meshes hahead

/-! ## The holes that are watched -/

namespace GapRecoveryClient

variable {cfg : GapRecoveryConfig} {c c' : GapRecoveryClient} {input : PollInput} {seq : UInt64}

/-- A task on the number is running, or one has failed and its error was returned. -/
def Watches (c : GapRecoveryClient) (seq : UInt64) : Prop :=
  ∃ first last, (c.active = some (first, last) ∨ (first, last) ∈ c.failed) ∧
    first ≤ seq ∧ seq ≤ last

/-- A poll that finds nothing which makes the client forget a hole. -/
structure Careful (cfg : GapRecoveryConfig) (c : GapRecoveryClient) (input : PollInput) :
    Prop where
  /-- The task has not panicked. -/
  returns : c.active ≠ none → input.task ≠ some .panicked
  /-- If the task is done, the response it has accepted has a frame for each number. -/
  filled : ∀ first last attempts i resp, c.active = some (first, last) →
    input.task = some (.finished attempts) → cfg.Accepts first last attempts i resp →
    resp.frames.length = last.toNat + 1 - first.toNat
  /-- The packets settle. -/
  settles : ∀ m ∈ c.pollPackets cfg input,
    Settles (c.active = none ∨ input.task ≠ none) m.1 m.2

/-- A careful poll takes one state to another. -/
def CarefulPoll (cfg : GapRecoveryConfig) (c c' : GapRecoveryClient) : Prop :=
  ∃ input, c.Careful cfg input ∧ (c.pollNext cfg input).2 = c'

/-- Every number that is lacking is watched. -/
structure Guarded (c : GapRecoveryClient) : Prop where
  orderly : c.stream.state.Orderly
  noGap : c.stream.state.NoGap
  active : ∀ first last, c.active = some (first, last) →
    first.toNat ≤ c.stream.state.nextExpected.toNat ∧ last.toNat + 1 < 2 ^ 64
  watched : ∀ seq : UInt64, c.stream.state.Lacks seq.toNat → c.Watches seq

theorem guarded_new (mold : MoldConfig) : (new (.new mold)).Guarded where
  orderly := .new mold
  noGap := fun _ hmem => absurd hmem List.not_mem_nil
  active := by rintro _ _ ⟨⟩
  watched := by
    rintro seq ⟨-, -, high, hhigh, -⟩
    exact absurd hhigh Std.ExtTreeMap.not_mem_empty

/-- Without a task, only what has failed is watched. -/
theorem Watches.mem_failed (h : c.Watches seq) (hfree : c.active = none) :
    ∃ first last, (first, last) ∈ c.failed ∧ first ≤ seq ∧ seq ≤ last := by
  obtain ⟨first, last, hin, hrange⟩ := h
  refine ⟨first, last, hin.resolve_left fun hactive => ?_, hrange⟩
  rw [hfree] at hactive
  cases hactive

/-! The end of a task -/

/-- A task that comes back with all of its frames takes the cursor past its range, so what is
still lacking is watched by another. -/
theorem Guarded.recovered {first last : UInt64} {resp : RequestResponse} {attempts : Nat → Attempt}
    {i : Nat} (h : c.Guarded) (hactive : c.active = some (first, last))
    (haccepts : cfg.Accepts first last attempts i resp)
    (hlen : resp.frames.length = last.toNat + 1 - first.toNat) :
    Guarded { c with active := none, stream := c.stream.ingestRetransmit resp.frames } := by
  obtain ⟨hfirst, hlast⟩ := h.active first last hactive
  obtain ⟨hnumbered, hfits⟩ := Attempt.response_eq_some haccepts.response
  have hbound := first.toNat_lt
  obtain ⟨hpast, hqueues, hlacks⟩ :=
    h.orderly.retransmit_past hfits hnumbered hfirst (by omega)
  refine ⟨h.orderly.ingestRetransmit _, h.noGap.queues hqueues, by rintro _ _ ⟨⟩, ?_⟩
  intro seq hseq
  obtain ⟨low, high, hin, hrange⟩ := h.watched seq (hlacks _ hseq)
  refine ⟨low, high, .inr (hin.resolve_left fun hrunning => ?_), hrange⟩
  obtain ⟨rfl, rfl⟩ := Prod.mk.inj (Option.some.inj (hactive.symm.trans hrunning))
  have hhigh := Word64.le_iff.mp hrange.2
  have hnext : (c.stream.state.ingestRetransmit resp.frames).nextExpected.toNat ≤ seq.toNat :=
    hseq.1
  omega

theorem Guarded.drained {err : Option MoldError} (h : c.Guarded) (hcareful : c.Careful cfg input)
    (hdrained : Drained cfg c input.task err c') : c'.Guarded := by
  cases hdrained with
  | running => exact h
  | panicked htask hactive => exact absurd htask (hcareful.returns hactive)
  | recovered hactive htask hgap =>
      obtain ⟨i, resp, haccepts, rfl⟩ := recoverGap_eq_ok_iff.mp hgap
      exact h.recovered hactive haccepts (hcareful.filled _ _ _ i resp hactive htask haccepts)
  | @failed first last attempts err hactive =>
      refine ⟨h.orderly, h.noGap, by rintro _ _ ⟨⟩, fun seq hseq => ?_⟩
      -- what the task was on is now among what has failed
      obtain ⟨low, high, hin, hrange⟩ := h.watched seq hseq
      refine ⟨low, high, .inr ?_, hrange⟩
      rcases hin with hrunning | hfailed
      · have heq : (first, last) = (low, high) := Option.some.inj (hactive.symm.trans hrunning)
        exact List.mem_append_right _ (heq ▸ List.mem_singleton_self _)
      · exact List.mem_append_left _ hfailed

/-- Once the task is settled, none is running if there was none or it was done. -/
theorem Drained.active_eq_none {task : Option TaskResult} {err : Option MoldError}
    (h : Drained cfg c task err c') (hfree : c.active = none ∨ task ≠ none) :
    c'.active = none := by
  cases h with
  | running hrunning =>
      rcases hrunning with htask | hactive
      · exact hfree.resolve_right (not_not.mpr htask)
      · exact hactive
  | panicked => rfl
  | recovered => rfl
  | failed => rfl

/-! A poll of the stream -/

theorem Guarded.pollStream {free : Prop} {items : List SocketItem} (h : c.Guarded)
    (hservers : cfg.requestServers ≠ []) (hfree : free → c.active = none)
    (hsettles : ∀ m ∈ c.stream.pollPackets items, Settles free m.1 m.2) :
    (c.pollStream cfg items).2.Guarded := by
  have hpolled := c.stream.polled_pollNext items
  obtain ⟨horderly, hle⟩ := hpolled.orderly h.orderly fun m hm => (hsettles m hm).meshes
  have htends := hpolled.tends h.orderly h.noGap hsettles
  have hactive : ∀ first last, c.active = some (first, last) →
      first.toNat ≤ (c.stream.pollNext items).2.state.nextExpected.toNat ∧
        last.toNat + 1 < 2 ^ 64 := by
    intro first last hsome
    obtain ⟨hfirst, hlast⟩ := h.active first last hsome
    exact ⟨hfirst.trans hle, hlast⟩
  unfold GapRecoveryClient.pollStream
  split
  next first last stream heq =>
    rw [heq] at horderly htends hactive
    obtain ⟨hfirst, hlast⟩ := htends.gap first last rfl
    unfold onGap
    split
    next hnew =>
      -- the gap is asked for, and nothing else is
      have hnone : c.active = none := by simpa [hservers] using hnew
      refine ⟨horderly, htends.noGap, ?_, fun seq hseq => ?_⟩
      · rintro _ _ ⟨⟩
        exact ⟨(congrArg UInt64.toNat hfirst).le, hlast⟩
      · rcases htends.lacks seq hseq with hold | ⟨-, low, high, hgap, hrange⟩
        · obtain ⟨low, high, hfailed, hrange⟩ := (h.watched seq hold).mem_failed hnone
          exact ⟨low, high, .inr hfailed, hrange⟩
        · cases hgap
          exact ⟨first, last, .inl rfl, hrange⟩
    next hbusy =>
      have hsome : c.active ≠ none := by simpa [hservers] using hbusy
      refine ⟨horderly, htends.noGap, hactive, fun seq hseq => ?_⟩
      rcases htends.lacks seq hseq with hold | ⟨hnone, -⟩
      · exact h.watched seq hold
      · exact absurd (hfree hnone) hsome
  next answer stream hanswer heq =>
    rw [heq] at horderly htends hactive
    refine ⟨horderly, htends.noGap, hactive, fun seq hseq => ?_⟩
    rcases htends.lacks seq hseq with hold | ⟨-, first, last, hgap, -⟩
    · exact h.watched seq hold
    · exact absurd hgap (hanswer first last)

/-! ## A run -/

theorem Guarded.pollNext (h : c.Guarded) (hservers : cfg.requestServers ≠ [])
    (hcareful : c.Careful cfg input) : (c.pollNext cfg input).2.Guarded := by
  have hsettles := hcareful.settles
  unfold pollPackets at hsettles
  unfold GapRecoveryClient.pollNext
  split
  next hdrain => exact h.drained hcareful (GapRecoveryClient.drained hdrain)
  next hdrain =>
    rw [hdrain] at hsettles
    have hdrained := GapRecoveryClient.drained hdrain
    exact (h.drained hcareful hdrained).pollStream hservers hdrained.active_eq_none hsettles

theorem guarded_of_run (hservers : cfg.requestServers ≠ []) {mold : MoldConfig}
    (hrun : Relation.ReflTransGen (CarefulPoll cfg) (new (.new mold)) c) : c.Guarded := by
  induction hrun with
  | refl => exact guarded_new mold
  | tail _ hstep ih =>
      obtain ⟨input, hcareful, rfl⟩ := hstep
      exact ih.pollNext hservers hcareful

/-- After any run of careful polls, whatever the last of them has returned, a hole is watched. -/
theorem hole_watched (cfg : GapRecoveryConfig) (hservers : cfg.requestServers ≠ [])
    (mold : MoldConfig) (c : GapRecoveryClient)
    (hrun : Relation.ReflTransGen (CarefulPoll cfg) (new (.new mold)) c) :
    c.stream.state.Hole → c.Watches c.stream.state.nextExpected := by
  rintro ⟨seq, hmem, -⟩
  have hguarded := guarded_of_run hservers hrun
  exact hguarded.watched _ (hguarded.orderly.lacks_of_hole hmem)

def oneServer : GapRecoveryConfig :=
  { requestServers := [{ ip := [127, 0, 0, 1], port := 9000 }], maxRetriesPerServer := 3 }

/-- A poll that finds these packets. -/
def arriving (pkts : List MoldPacket) : PollInput :=
  { task := none, items := pkts.map fun pkt => .datagram pkt.wire }

/-- A poll that finds the task done, and a server that answers from its cache. -/
def answeredFrom (frames : List CachedFrame) : PollInput :=
  let cache := frames.foldl RequestServer.RingBufferSeqStore.push (.withCapacity 8)
  { task := some (.finished fun _ => .answered fun request =>
      ((RequestServer.respond cache request).toOption).getD [])
    items := [] }

/-- The client after some polls. -/
def polls (cfg : GapRecoveryConfig) (c : GapRecoveryClient) (inputs : List PollInput) :
    GapRecoveryClient :=
  inputs.foldl (fun c input => (c.pollNext cfg input).2) c

theorem mem_pollPackets_arriving {pkt : MoldPacket} {m : ReceiverState × MoldPacket}
    (hpkt : MoldPacket.decode (pkt.wire.take recvBufferLen) = .ok pkt)
    (hm : m ∈ c.pollPackets cfg (arriving [pkt])) : m = (c.stream.state, pkt) := by
  have hread : m ∈ c.stream.pollPackets [.datagram pkt.wire] := hm
  unfold MoldStream.pollPackets at hread
  split at hread
  next =>
    rw [MoldStream.readPackets, hpkt] at hread
    dsimp only at hread
    rw [MoldStream.readPackets, ite_self] at hread
    exact List.mem_singleton.mp hread
  next => exact absurd hread List.not_mem_nil

theorem careful_arriving {pkt : MoldPacket}
    (hpkt : MoldPacket.decode (pkt.wire.take recvBufferLen) = .ok pkt)
    (hsettles : Settles (c.active = none) c.stream.state pkt) :
    c.Careful cfg (arriving [pkt]) where
  returns := by rintro - ⟨⟩
  filled := by rintro _ _ _ _ _ - ⟨⟩
  settles := by
    intro m hm
    rw [mem_pollPackets_arriving hpkt hm]
    exact ⟨hsettles.meshes, hsettles.room, fun hahead => (hsettles.joins hahead).imp .inl id⟩

/-- Message 4 comes first and then message 1.  Message 2 is watched. -/
theorem hole_watched_ahead :
    let c := (new (.new ReceiverState.fromOne)).polls oneServer
      [arriving [ReceiverState.deletes 4 1], arriving [ReceiverState.deletes 1 1]]
    c.stream.state.Hole ∧ c.stream.state.nextExpected = 2 ∧ c.Watches 2 := by
  intro c
  let first := (new (.new ReceiverState.fromOne)).polls oneServer
    [arriving [ReceiverState.deletes 4 1]]
  have hfour : CarefulPoll oneServer (new (.new ReceiverState.fromOne)) first := by
    refine ⟨_, careful_arriving (by decide +kernel) ⟨?_, ?_, fun _ => .inl rfl⟩, rfl⟩
    · exact (ReceiverState.Orderly.new _).meshes_of_single (by decide +kernel)
    · exact fun _ => by decide +kernel
  have horderly := (guarded_of_run (by decide) (.single hfour)).orderly
  have hone : CarefulPoll oneServer first c := by
    have hnot : ¬ first.stream.state.Ahead (ReceiverState.deletes 1 1) := fun hahead =>
      absurd hahead.lt (by decide +kernel)
    exact ⟨_, careful_arriving (by decide +kernel)
      ⟨horderly.meshes_of_single (by decide +kernel), fun hahead => absurd hahead hnot,
        fun hahead => absurd hahead hnot⟩, rfl⟩
  have hhole : c.stream.state.Hole := ⟨4, by decide +kernel, by decide +kernel⟩
  have hnext : c.stream.state.nextExpected = 2 := by decide +kernel
  have hwatched := hole_watched oneServer (by decide) ReceiverState.fromOne c
    (.tail (.single hfour) hone) hhole
  rw [hnext] at hwatched
  exact ⟨hhole, hnext, hwatched⟩

/-- Message 4 comes first, and the server has only message 1 of the gap.  Nothing is left
that would ask for messages 2 and 3. -/
theorem partial_recovery_forgets_hole :
    let c := (new (.new ReceiverState.fromOne)).polls oneServer
      [arriving [ReceiverState.deletes 4 1], answeredFrom [⟨1, ReceiverState.deleteBody⟩]]
    let c' := (c.pollNext oneServer (arriving [])).2
    (c.pollNext oneServer (arriving [])).1 = .pending ∧ c'.stream.state.Hole ∧
      c'.stream.state.nextExpected = 2 ∧ ¬ c'.Watches 2 := by
  intro c c'
  refine ⟨by decide +kernel, ⟨4, by decide +kernel, by decide +kernel⟩, by decide +kernel, ?_⟩
  rintro ⟨first, last, hin, -⟩
  have hactive : c'.active = none := by decide +kernel
  have hfailed : c'.failed = [] := by decide +kernel
  rw [hactive, hfailed] at hin
  exact hin.elim nofun List.not_mem_nil

end GapRecoveryClient

/-! ## After the end of the session -/

namespace MoldStream

variable {s s' : MoldStream} {items : List SocketItem} {n : UInt64}

theorem finished_of_popEvent (h : s.popEvent = some (.ok (.endOfSession n), s')) :
    s'.finished = true := by
  unfold popEvent at h
  split at h
  next => cases h
  next =>
    cases h
    exact Bool.or_true _

theorem finished_of_readLoop
    (h : s.readLoop items = (.ready (some (.ok (.endOfSession n))), s')) :
    s'.finished = true := by
  induction items generalizing s with
  | nil => cases h
  | cons item items ih =>
      cases item with
      | ioError => cases h
      | silence =>
          rw [readLoop] at h
          split at h
          next => exact ih h
          next => cases h
      | datagram bytes =>
          rw [readLoop] at h
          dsimp only at h
          split at h
          next => cases h
          next =>
            split at h
            next hpop =>
              cases h
              exact finished_of_popEvent hpop
            next => exact ih h

theorem finished_of_pollNext
    (h : s.pollNext items = (.ready (some (.ok (.endOfSession n))), s')) :
    s'.finished = true := by
  unfold pollNext at h
  split at h
  next => cases h
  next =>
    split at h
    next hpop =>
      cases h
      exact finished_of_popEvent hpop
    next => exact finished_of_readLoop h

end MoldStream

namespace GapRecoveryClient

variable {cfg : GapRecoveryConfig} {c c' : GapRecoveryClient} {input : PollInput} {n : UInt64}

theorem finished_of_endOfSession
    (h : c.pollNext cfg input = (.ready (some (.ok (.endOfSession n))), c')) :
    c'.stream.finished = true := by
  unfold pollNext at h
  split at h
  next => cases h
  next drained _ =>
    have hanswer : (drained.pollStream cfg input.items).1 =
        (drained.stream.pollNext input.items).1 := pollStream_fst drained input.items
    have hstream : (drained.pollStream cfg input.items).2.stream =
        (drained.stream.pollNext input.items).2 := stream_pollStream drained input.items
    rw [h] at hanswer hstream
    exact MoldStream.finished_of_pollNext (Prod.ext hanswer.symm hstream.symm)

theorem pollStream_of_finished (h : c.stream.finished = true) (items : List SocketItem) :
    c.pollStream cfg items = (.ready none, c) := by
  have hpoll : c.stream.pollNext items = (.ready none, c.stream) := if_pos h
  rw [pollStream, hpoll]

/-- The stream ends at the next poll, unless that has the error of a task to return. -/
theorem yields_of_finished (hdrain : c.drain cfg input.task = (none, c'))
    (h : c'.stream.finished = true) (later : List PollInput) :
    yields cfg c (input :: later) = [] := by
  have hpoll : c.pollNext cfg input = (.ready none, c') := by
    rw [pollNext, hdrain]
    exact pollStream_of_finished h input.items
  rw [yields, hpoll]

def isMessage : Except MoldError MoldEvent → Bool
  | .ok (.message _ _) => true
  | _ => false

/-- A task is running when the end of the session surfaces, and at a later poll it is found
to have returned frames.  The messages which these frames make deliverable are yielded
exactly if there are none. -/
theorem recovered_yielded_iff (cfg : GapRecoveryConfig) (c c' : GapRecoveryClient)
    (input : PollInput) (n : UInt64)
    (hend : c.pollNext cfg input = (.ready (some (.ok (.endOfSession n))), c'))
    (first last : UInt64) (hactive : c'.active = some (first, last))
    (quiet : List PollInput) (hquiet : ∀ poll ∈ quiet, poll.task = none)
    (done : PollInput) (attempts : Nat → Attempt) (hdone : done.task = some (.finished attempts))
    (recovered : RecoveryFrames) (hrecovered : recoverGap cfg first last attempts = .ok recovered)
    (later : List PollInput) :
    let after := c'.stream.ingestRetransmit recovered.frames
    let messages := (after.state.outbox.drop c'.stream.state.outbox.length).filter isMessage
    (∀ message ∈ messages, message ∈ yields cfg c' (quiet ++ done :: later)) ↔
      messages = [] := by
  intro after messages
  have hfinished := finished_of_endOfSession hend
  have hnone : yields cfg c' (quiet ++ done :: later) = [] := by
    cases quiet with
    | nil =>
        have hdrain := drain_of_recovered hactive hrecovered
        rw [← hdone] at hdrain
        exact yields_of_finished hdrain hfinished later
    | cons poll quiet =>
        have hdrain : c'.drain cfg poll.task = (none, c') := by
          rw [hquiet poll List.mem_cons_self]
          rfl
        exact yields_of_finished hdrain hfinished _
  rw [hnone, List.eq_nil_iff_forall_not_mem]
  constructor
  · exact fun hall message hmem => List.not_mem_nil (hall message hmem)
  · exact fun hnil message hmem => absurd hmem (hnil message)

/-- Messages 1 and 3 arrive, and a task asks for message 2. -/
def askingForTwo : GapRecoveryClient :=
  (new (.new ReceiverState.fromOne)).polls oneServer
    [arriving [ReceiverState.deletes 1 1], arriving [ReceiverState.deletes 3 1]]

/-- A poll that finds the end of the session. -/
def sessionEnd : PollInput :=
  arriving [MoldPacket.endOfSession (Vector.replicate 10 0x41) 4]

def frameTwo : CachedFrame := ⟨2, ReceiverState.deleteBody⟩

/-- The session ends before the task is done, and the server has message 2. -/
theorem recovered_yielded_iff_frameTwo :
    let c := (askingForTwo.pollNext oneServer sessionEnd).2
    let after := c.stream.ingestRetransmit [frameTwo]
    let messages := (after.state.outbox.drop c.stream.state.outbox.length).filter isMessage
    (∀ message ∈ messages, message ∈ yields oneServer c [arriving [], answeredFrom [frameTwo]]) ↔
      messages = [] := by
  intro c
  have hend : askingForTwo.pollNext oneServer sessionEnd = (.ready (some (.ok (.endOfSession 4))), c) :=
    Prod.ext (by decide +kernel) rfl
  have hrecovered : recoverGap oneServer 2 2 (fun _ => .answered fun request =>
      ((RequestServer.respond ([frameTwo].foldl RequestServer.RingBufferSeqStore.push
        (.withCapacity 8)) request).toOption).getD []) = .ok ⟨[frameTwo], false⟩ := by
    decide +kernel
  exact recovered_yielded_iff oneServer askingForTwo c sessionEnd 4 hend 2 2 (by decide +kernel)
    [arriving []] (by simp [arriving]) (answeredFrom [frameTwo]) _ rfl _ hrecovered []

/-- The frame makes messages 2 and 3 deliverable, and the stream ends without them. -/
theorem recovered_messages_swallowed :
    let ended := askingForTwo.pollNext oneServer sessionEnd
    let done := ended.2.pollNext oneServer (answeredFrom [frameTwo])
    ended.1 = .ready (some (.ok (.endOfSession 4))) ∧ ended.2.active = some (2, 2) ∧
      ended.2.stream.state.outbox = [] ∧ done.1 = .ready none ∧
      (done.2.stream.state.outbox.map isMessage) = [true, true] ∧
      yields oneServer ended.2 [answeredFrom [frameTwo]] = [] := by
  decide +kernel

end GapRecoveryClient

end Itch
