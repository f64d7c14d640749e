import Itch.Mold.Recovery

/-!
# How a recovery ends

A recovery that succeeds returns the frames of the first response it stops at, and nobody has
counted them.

A recovery that fails returns an error.  The client hands it on and forgets the task; the receiver
is not told, so it is past the gap only if the feed has taken it there in the meantime.
-/

namespace Itch

open Lib

/-- One frame for each number of the gap, in order. -/
def FillsGap (first last : UInt64) (frames : List CachedFrame) : Prop :=
  frames.map (fun f => f.sequence.toNat) = List.range' first.toNat (last.toNat + 1 - first.toNat)

/-- The client numbers the frames itself, so they fill the gap as soon as their number is
right. -/
theorem Attempt.fillsGap_iff {first last : UInt64} {attempt : Attempt} {resp : RequestResponse}
    (h : attempt.response first last = some resp) :
    FillsGap first last resp.frames ↔ resp.frames.length = last.toNat + 1 - first.toNat := by
  have hnumbered := (Attempt.response_eq_some h).1
  unfold FillsGap
  constructor
  · intro hfills
    have hlen := congrArg List.length hfills
    rwa [List.length_map, List.length_range'] at hlen
  · intro hlen
    have hlast := Word64.le_max last
    have hfirst := Word64.le_max first
    have hrange := hnumbered.map_eq_range' (by
      rw [List.length_map, hlen]
      omega)
    rwa [List.map_map, List.length_map, hlen] at hrange

/-- A recovery that succeeds, short of the end of the session, has filled its gap exactly if
the response it stops at, when that does not report the end of the session, has as many frames as
the gap. -/
theorem recovery_fills_gap_iff (cfg : GapRecoveryConfig) (first last : UInt64)
    (attempts : Nat → Attempt) :
    (∀ found, recoverGap cfg first last attempts = .ok found → found.eos = false →
      FillsGap first last found.frames) ↔
    (∀ i resp, cfg.Accepts first last attempts i resp → resp.status ≠ statusEndOfSession →
      resp.frames.length = last.toNat + 1 - first.toNat) := by
  constructor
  · intro h i resp haccepts hstatus
    exact (Attempt.fillsGap_iff haccepts.response).mp
      (h resp.taken (recoverGap_eq_ok_iff.mpr ⟨i, resp, haccepts, rfl⟩) (decide_eq_false hstatus))
  · rintro h found hok heos
    obtain ⟨i, resp, haccepts, rfl⟩ := recoverGap_eq_ok_iff.mp hok
    exact (Attempt.fillsGap_iff haccepts.response).mpr
      (h i resp haccepts (of_decide_eq_false heos))

/-- The first server answers from its cache. -/
def answering (frames : List CachedFrame) : Nat → Attempt := fun _ =>
  .answered fun request => ((RequestServer.respond
    (frames.foldl RequestServer.RingBufferSeqStore.push (.withCapacity 8)) request).toOption).getD []

/-- The server has message 1 of the gap from 1 to 3.  The recovery succeeds with it, and no
other attempt is made. -/
theorem partial_answer_succeeds :
    recoverGap GapRecoveryClient.oneServer 1 3 (answering [⟨1, ReceiverState.deleteBody⟩]) =
      .ok { frames := [⟨1, ReceiverState.deleteBody⟩], eos := false } ∧
    ¬ FillsGap 1 3 [⟨1, ReceiverState.deleteBody⟩] := by
  unfold FillsGap
  decide +kernel

/-! ## A recovery that fails -/

/-- The cursor is past the number, and no block is held back that it has reached. -/
def ReceiverState.Resynced (r : ReceiverState) (last : UInt64) : Prop :=
  last < r.nextExpected ∧ r.nextExpected ∉ r.pending

namespace GapRecoveryClient

/-- A run in which every packet meshes with what is held back comes to a poll that finds the
recovery of a gap failed.  The poll returns the error, and it leaves the receiver resynchronised
exactly if the receiver was past the gap before. -/
theorem giving_up_resyncs_iff (cfg : GapRecoveryConfig) (mold : MoldConfig)
    (c : GapRecoveryClient)
    (hrun : Relation.ReflTransGen (MeshingPoll cfg) (new (.new mold)) c)
    (input : PollInput) (first last : UInt64) (attempts : Nat → Attempt) (err : MoldError)
    (hactive : c.active = some (first, last)) (htask : input.task = some (.finished attempts))
    (hfailed : recoverGap cfg first last attempts = .error err) :
    (c.pollNext cfg input).1 = .ready (some (.error err)) ∧
    ((c.pollNext cfg input).2.stream.state.Resynced last ↔
      last < c.stream.state.nextExpected) := by
  have hpoll : c.pollNext cfg input = (.ready (some (.error err)),
      { c with active := none, failed := c.failed ++ [(first, last)] }) := by
    rw [pollNext, htask, drain_of_failed hactive hfailed]
  rw [hpoll]
  refine ⟨rfl, fun hresynced => hresynced.1, fun hpast => ⟨hpast, ?_⟩⟩
  exact (orderly_of_run hrun).nextExpected_notMem

-- A packet that overlaps what is held back leaves a block at the cursor: messages 3 and 4 are held
-- back, and a packet with messages 1 to 3 comes.
example :
    let c := (new (.new ReceiverState.fromOne)).polls oneServer
      [arriving [ReceiverState.deletes 3 2], arriving [ReceiverState.deletes 1 3]]
    c.stream.state.nextExpected = 4 ∧ (4 : UInt64) ∈ c.stream.state.pending := by
  decide +kernel

/-- A poll that finds the task done, with no server reached. -/
def unanswered : PollInput where
  task := some (.finished fun _ => .failed .io)
  items := []

/-- A poll that reads a packet of one block. -/
theorem meshingPoll_arriving {cfg : GapRecoveryConfig} {c : GapRecoveryClient} {pkt : MoldPacket}
    (horderly : c.stream.state.Orderly) (hlen : pkt.blocks.length = 1)
    (hpkt : MoldPacket.decode (pkt.wire.take recvBufferLen) = .ok pkt) :
    MeshingPoll cfg c (c.pollNext cfg (arriving [pkt])).2 := by
  refine ⟨_, fun m hm => ?_, rfl⟩
  rw [mem_pollPackets_arriving hpkt hm]
  exact horderly.meshes_of_single hlen

/-- Packets of one block, one in each poll. -/
theorem meshing_run_arriving {cfg : GapRecoveryConfig} {mold : MoldConfig} {c : GapRecoveryClient}
    {pkts : List MoldPacket}
    (hrun : Relation.ReflTransGen (MeshingPoll cfg) (new (.new mold)) c)
    (hpkts : ∀ pkt ∈ pkts, pkt.blocks.length = 1 ∧
      MoldPacket.decode (pkt.wire.take recvBufferLen) = .ok pkt) :
    Relation.ReflTransGen (MeshingPoll cfg) (new (.new mold))
      (c.polls cfg (pkts.map fun pkt => arriving [pkt])) := by
  induction pkts generalizing c with
  | nil => exact hrun
  | cons pkt pkts ih =>
      obtain ⟨⟨hlen, hpkt⟩, hrest⟩ := List.forall_mem_cons.mp hpkts
      exact ih (.tail hrun (meshingPoll_arriving (orderly_of_run hrun) hlen hpkt)) hrest

/-- Messages 1 and 3 arrive, and then message 2, while a task asks for it.  The task fails, and
the receiver is past the gap. -/
theorem giving_up_after_late_arrival :
    let c := (new (.new ReceiverState.fromOne)).polls oneServer
      ([ReceiverState.deletes 1 1, ReceiverState.deletes 3 1, ReceiverState.deletes 2 1].map
        fun pkt => arriving [pkt])
    (c.pollNext oneServer unanswered).1 = .ready (some (.error .io)) ∧
      (c.pollNext oneServer unanswered).2.stream.state.Resynced 2 := by
  intro c
  have hrun : Relation.ReflTransGen (MeshingPoll oneServer) (new (.new ReceiverState.fromOne)) c :=
    meshing_run_arriving .refl (by decide +kernel)
  have h := giving_up_resyncs_iff oneServer ReceiverState.fromOne c hrun unanswered 2 2
    (fun _ => .failed .io) .io (by decide +kernel) rfl (by decide +kernel)
  exact ⟨h.1, h.2.mpr (by decide +kernel)⟩

/-- Messages 1 and 3 have arrived, and the task that asks for message 2 fails.  Its error
surfaces with the cursor still at 2 and message 3 still held back. -/
theorem giving_up_keeps_gap :
    let c := (askingForTwo.pollNext oneServer unanswered).2
    (askingForTwo.pollNext oneServer unanswered).1 = .ready (some (.error .io)) ∧
      c.active = none ∧ c.stream.state.nextExpected = 2 ∧ (3 : UInt64) ∈ c.stream.state.pending ∧
      ¬ c.stream.state.Resynced 2 := by
  intro c
  refine ⟨by decide +kernel, by decide +kernel, by decide +kernel, by decide +kernel, ?_⟩
  rintro ⟨hlt, -⟩
  revert hlt
  decide +kernel

end GapRecoveryClient

end Itch
