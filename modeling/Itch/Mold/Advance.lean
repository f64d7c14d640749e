import Itch.Lib.Segment
import Itch.Lib.Word64
import Itch.Mold.Receiver

/-!
# The receiver only moves forward along the log

Fix a log of blocks indexed by sequence number.  `Advances log r r'` says that from `r`
to `r'` the receiver has queued the outcomes of exactly the log entries between the two
values of `next_expected`, in order, and that what it holds back is part of the log.
Each operation of the receiver advances it when its blocks agree with the log, and
advances compose.
-/

namespace Itch

open Lib

/-- What `deliver` queues for a block: the decoded message or the decode error. -/
def outcome (seq : UInt64) (body : Bytes) : Except MoldError MoldEvent :=
  match Message.decode body with
  | .ok message => .ok (.message seq message)
  | .error err => .error (.protocol err)

/-- The outcome of a log entry. -/
def logOutcome (log : Nat → Bytes) (n : Nat) : Except MoldError MoldEvent :=
  outcome (UInt64.ofNat n) (log n)

/-- Whether a queued result stands for a block: a message or its decode error. -/
def isDelivery : Except MoldError MoldEvent → Bool
  | .ok (.message ..) => true
  | .error (.protocol _) => true
  | _ => false

/-- The results that stand for blocks. -/
def deliveries (outbox : List (Except MoldError MoldEvent)) :
    List (Except MoldError MoldEvent) :=
  outbox.filter isDelivery

theorem isDelivery_outcome (seq : UInt64) (body : Bytes) : isDelivery (outcome seq body) := by
  unfold outcome
  split <;> rfl

namespace ReceiverState

variable {log : Nat → Bytes} {r r' r'' : ReceiverState}

/-- A block that agrees with the log, fits the cap and is not the last number of the
width. -/
structure OnLog (log : Nat → Bytes) (seq : UInt64) (body : Bytes) : Prop where
  eq : body = log seq.toNat
  fits : body.length ≤ maxBlockLen
  lt : seq.toNat + 1 < 2 ^ 64

/-- Everything held back is part of the log. -/
def HoldsLog (log : Nat → Bytes) (r : ReceiverState) : Prop :=
  ∀ seq body, r.pending[seq]? = some body → OnLog log seq body

/-- From `r` to `r'` the receiver has moved forward along the log. -/
structure Advances (log : Nat → Bytes) (r r' : ReceiverState) : Prop where
  le : r.nextExpected.toNat ≤ r'.nextExpected.toNat
  deliveries : deliveries r'.outbox = deliveries r.outbox ++
    segment (logOutcome log) r.nextExpected.toNat r'.nextExpected.toNat
  holds : HoldsLog log r'
  session : r'.session = r.session
  startSequence : r'.startSequence = r.startSequence
  maxPending : r'.maxPending = r.maxPending
  bootstrapped : r.bootstrapped → r'.bootstrapped

namespace Advances

theorem refl (h : HoldsLog log r) : Advances log r r where
  le := le_rfl
  deliveries := by simp
  holds := h
  session := rfl
  startSequence := rfl
  maxPending := rfl
  bootstrapped := id

theorem trans (h : Advances log r r') (h' : Advances log r' r'') : Advances log r r'' where
  le := h.le.trans h'.le
  deliveries := by
    rw [h'.deliveries, h.deliveries, List.append_assoc, segment_append h.le h'.le]
  holds := h'.holds
  session := h'.session.trans h.session
  startSequence := h'.startSequence.trans h.startSequence
  maxPending := h'.maxPending.trans h.maxPending
  bootstrapped := h'.bootstrapped ∘ h.bootstrapped

/-- A change that leaves the cursor and queues nothing for a block. -/
theorem of_quiet (hnext : r'.nextExpected = r.nextExpected)
    (hout : Itch.deliveries r'.outbox = Itch.deliveries r.outbox) (h : HoldsLog log r')
    (hs : r'.session = r.session) (hstart : r'.startSequence = r.startSequence)
    (hmax : r'.maxPending = r.maxPending) (hb : r.bootstrapped → r'.bootstrapped) :
    Advances log r r' where
  le := hnext ▸ le_rfl
  deliveries := by rw [hout, hnext, segment_self, List.append_nil]
  holds := h
  session := hs
  startSequence := hstart
  maxPending := hmax
  bootstrapped := hb

theorem push {event : Except MoldError MoldEvent} (h : HoldsLog log r)
    (hevent : isDelivery event = false) : Advances log r (r.push event) :=
  of_quiet rfl (by simp [ReceiverState.push, Itch.deliveries, hevent]) h rfl rfl rfl id

end Advances

/-! ## Delivering -/

theorem deliver_eq {seq : UInt64} {body : Bytes} (h : body.length ≤ maxBlockLen) :
    r.deliver seq body
      = { r with outbox := r.outbox ++ [outcome seq body], nextExpected := seq + 1 } := by
  unfold deliver outcome
  rw [if_neg (Nat.not_lt.mpr h)]
  cases Message.decode body with
  | ok message => rfl
  | error err => rfl

@[simp] theorem deliver_pending (seq : UInt64) (body : Bytes) :
    (r.deliver seq body).pending = r.pending := by
  unfold deliver
  split
  · rfl
  · split <;> rfl

theorem advances_deliver {body : Bytes} (h : HoldsLog log r)
    (hbody : OnLog log r.nextExpected body) :
    Advances log r (r.deliver r.nextExpected body) ∧
      (r.deliver r.nextExpected body).nextExpected.toNat = r.nextExpected.toNat + 1 := by
  rw [deliver_eq hbody.fits]
  have hnext : (r.nextExpected + 1).toNat = r.nextExpected.toNat + 1 :=
    Word64.toNat_succ hbody.lt
  refine ⟨⟨?_, ?_, h, rfl, rfl, rfl, id⟩, hnext⟩
  · dsimp only
    omega
  · dsimp only
    rw [hnext, segment_succ le_rfl, segment_self, List.nil_append, logOutcome,
      UInt64.ofNat_toNat, ← hbody.eq]
    simp [Itch.deliveries, isDelivery_outcome]

/-! ## The blocks of a packet -/

@[simp] theorem numbered_nil (firstSeq : UInt64) : numbered firstSeq [] = [] := rfl

@[simp] theorem numbered_cons (firstSeq : UInt64) (b : MessageBlock) (bs : List MessageBlock) :
    numbered firstSeq (b :: bs) = (firstSeq, b.data) :: numbered (firstSeq + 1) bs := by
  simp only [numbered, List.zipIdx_cons, List.map_cons, List.zipIdx_succ, List.map_map]
  refine congrArg₂ _ (by simp) (List.map_congr_left fun e _ => ?_)
  have hadd : UInt64.ofNat (e.2 + 1) = 1 + UInt64.ofNat e.2 := by
    rw [Nat.add_comm, UInt64.ofNat_add]
    rfl
  simp only [Function.comp_apply, hadd, UInt64.add_assoc]

/-- The blocks are the entries of the log from `firstSeq` on, and no number is near the
width. -/
structure Carries (log : Nat → Bytes) (firstSeq : UInt64) (blocks : List MessageBlock) :
    Prop where
  eq : ∀ i b, blocks[i]? = some b → b.data = log (firstSeq.toNat + i)
  fits : ∀ b ∈ blocks, b.data.length ≤ maxBlockLen
  lt : firstSeq.toNat + blocks.length < 2 ^ 64

namespace Carries

variable {firstSeq : UInt64} {b : MessageBlock} {bs : List MessageBlock}

theorem head (h : Carries log firstSeq (b :: bs)) : OnLog log firstSeq b.data where
  eq := h.eq 0 b rfl
  fits := h.fits b List.mem_cons_self
  lt := by
    have hlt := h.lt
    rw [List.length_cons] at hlt
    omega

theorem toNat_succ (h : Carries log firstSeq (b :: bs)) :
    (firstSeq + 1).toNat = firstSeq.toNat + 1 :=
  Word64.toNat_succ h.head.lt

theorem tail (h : Carries log firstSeq (b :: bs)) : Carries log (firstSeq + 1) bs where
  eq := by
    intro i b' hb'
    rw [h.toNat_succ, Nat.add_assoc, Nat.add_comm 1]
    exact h.eq (i + 1) b' hb'
  fits := fun b' hb' => h.fits b' (List.mem_cons_of_mem _ hb')
  lt := by
    have hlt := h.lt
    rw [List.length_cons] at hlt
    rw [h.toNat_succ]
    omega

end Carries

/-- Delivering the new blocks of a packet that starts at or before the cursor. -/
theorem advances_deliverNew {firstSeq : UInt64} {blocks : List MessageBlock}
    (h : HoldsLog log r) (hblocks : Carries log firstSeq blocks)
    (hle : firstSeq.toNat ≤ r.nextExpected.toNat) :
    Advances log r ((numbered firstSeq blocks).foldl deliverNew r) ∧
      ((numbered firstSeq blocks).foldl deliverNew r).nextExpected.toNat
        = max r.nextExpected.toNat (firstSeq.toNat + blocks.length) ∧
      ((numbered firstSeq blocks).foldl deliverNew r).pending = r.pending := by
  induction blocks generalizing r firstSeq with
  | nil => exact ⟨.refl h, by simpa using hle, rfl⟩
  | cons b bs ih =>
      rw [numbered_cons, List.foldl_cons, List.length_cons]
      have hsucc := hblocks.toNat_succ
      by_cases hlt : firstSeq < r.nextExpected
      · have hskip : r.deliverNew (firstSeq, b.data) = r := if_pos hlt
        rw [Word64.lt_iff] at hlt
        rw [hskip]
        obtain ⟨hadv, hnext, hpend⟩ := ih h hblocks.tail (by omega)
        exact ⟨hadv, by omega, hpend⟩
      · have hdel : r.deliverNew (firstSeq, b.data) = r.deliver firstSeq b.data := if_neg hlt
        rw [Word64.lt_iff] at hlt
        have heq : firstSeq = r.nextExpected := Word64.eq_iff.mpr (by omega)
        rw [hdel]
        rw [heq] at hblocks hsucc ⊢
        obtain ⟨hadv, hnext⟩ := advances_deliver h hblocks.head
        obtain ⟨hadv', hnext', hpend⟩ := ih hadv.holds hblocks.tail (by omega)
        exact ⟨hadv.trans hadv', by omega, by rw [hpend, deliver_pending]⟩

/-! ## Holding back -/

theorem HoldsLog.erase (h : HoldsLog log r) (seq : UInt64) :
    HoldsLog log { r with pending := r.pending.erase seq } := by
  intro k body hk
  rw [FinMap.get_erase] at hk
  split at hk
  next => cases hk
  next => exact h k body hk

theorem HoldsLog.insert {seq : UInt64} {data : Bytes} (h : HoldsLog log r)
    (hdata : OnLog log seq data) :
    HoldsLog log { r with pending := r.pending.insert seq data } := by
  intro k body hk
  rw [FinMap.get_insert] at hk
  split at hk
  next heq =>
    cases hk
    exact heq ▸ hdata
  next => exact h k body hk

/-- What `stash_pending` can do. -/
inductive Stashed (r : ReceiverState) (seq : UInt64) (data : Bytes) : ReceiverState → Prop where
  | held : seq ∈ r.pending → Stashed r seq data r
  | added : seq ∉ r.pending → r.pending.size < r.maxPending ∨ r.pending.size = 0 →
      Stashed r seq data { r with pending := r.pending.insert seq data }
  | evicted {oldSeq : UInt64} {body : Bytes} : seq ∉ r.pending →
      r.maxPending ≤ r.pending.size → r.pending[oldSeq]? = some body →
      Stashed r seq data
        { r with
          pending := (r.pending.erase oldSeq).insert seq data
          overflowDrops := r.overflowDrops + 1 }
  | refused : r.maxPending ≤ r.pending.size →
      Stashed r seq data
        { r.push (.error (.pendingBufferFull r.maxPending)) with
          overflowDrops := r.overflowDrops + 1 }

theorem stashed (r : ReceiverState) (seq : UInt64) (data : Bytes) :
    Stashed r seq data (r.stashPending seq data) := by
  unfold stashPending
  split
  next hmem => exact .held (Std.ExtTreeMap.contains_iff_mem.mp hmem)
  next hnew =>
    have hnew : seq ∉ r.pending := fun hmem => hnew (Std.ExtTreeMap.contains_iff_mem.mpr hmem)
    split
    next hfull =>
      split
      next =>
        split
        next hfirst => exact .evicted hnew hfull (FinMap.get_of_first? hfirst)
        next hempty => exact .added hnew (.inr (FinMap.size_of_first?_none hempty))
      next => exact .refused hfull
    next hroom => exact .added hnew (.inl (Nat.lt_of_not_le hroom))

section Stashed

variable {seq : UInt64} {data : Bytes}

theorem Stashed.frame (hs : Stashed r seq data r') :
    r'.nextExpected = r.nextExpected ∧ r'.maxPending = r.maxPending ∧
      r'.bootstrapped = r.bootstrapped := by
  cases hs <;> exact ⟨rfl, rfl, rfl⟩

theorem size_evict {oldSeq : UInt64} {body : Bytes} (hnew : seq ∉ r.pending)
    (hold : r.pending[oldSeq]? = some body) :
    ((r.pending.erase oldSeq).insert seq data).size = r.pending.size := by
  have hsize := FinMap.size_erase_of_get hold
  have hnew : seq ∉ r.pending.erase oldSeq := fun hmem => hnew (FinMap.mem_erase_iff.mp hmem).2
  rw [FinMap.size_insert_of_not_mem hnew, hsize]

theorem Stashed.advances (hs : Stashed r seq data r') (h : HoldsLog log r)
    (hdata : OnLog log seq data) : Advances log r r' := by
  cases hs with
  | held => exact .refl h
  | added => exact .of_quiet rfl rfl (h.insert hdata) rfl rfl rfl id
  | @evicted oldSeq => exact .of_quiet rfl rfl ((h.erase oldSeq).insert hdata) rfl rfl rfl id
  | refused => exact .of_quiet rfl (by simp [push, Itch.deliveries, isDelivery]) h rfl rfl rfl id

end Stashed

theorem advances_stash {firstSeq : UInt64} {blocks : List MessageBlock}
    (h : HoldsLog log r) (hblocks : Carries log firstSeq blocks) :
    Advances log r ((numbered firstSeq blocks).foldl
      (fun r entry => r.stashPending entry.1 entry.2) r) := by
  induction blocks generalizing r firstSeq with
  | nil => exact .refl h
  | cons b bs ih =>
      rw [numbered_cons, List.foldl_cons]
      have hadv := (stashed r firstSeq b.data).advances h hblocks.head
      exact hadv.trans (ih hadv.holds hblocks.tail)

/-! ## Flushing -/

/-- One turn of the loop: the entry at the cursor is taken out and delivered. -/
theorem advances_flushTurn {body : Bytes} (h : HoldsLog log r)
    (hget : r.pending[r.nextExpected]? = some body) :
    Advances log r (deliver { r with pending := r.pending.erase r.nextExpected }
        r.nextExpected body) ∧
      (deliver { r with pending := r.pending.erase r.nextExpected }
        r.nextExpected body).nextExpected.toNat = r.nextExpected.toNat + 1 := by
  have htake : Advances log r { r with pending := r.pending.erase r.nextExpected } :=
    .of_quiet rfl rfl (h.erase _) rfl rfl rfl id
  obtain ⟨hadv, hnext⟩ := advances_deliver htake.holds (h _ _ hget)
  exact ⟨htake.trans hadv, hnext⟩

theorem advances_flushLoop (fuel : Nat) (h : HoldsLog log r) :
    Advances log r (flushLoop fuel r) := by
  induction fuel generalizing r with
  | zero => exact .refl h
  | succ fuel ih =>
      unfold flushLoop
      split
      next seq body hfirst =>
        split
        next => exact .refl h
        next heq =>
          rw [not_not] at heq
          subst heq
          obtain ⟨hadv, -⟩ := advances_flushTurn h (FinMap.get_of_first? hfirst)
          exact hadv.trans (ih hadv.holds)
      next => exact .refl h

theorem advances_flushPending (h : HoldsLog log r) : Advances log r r.flushPending :=
  advances_flushLoop _ h

/-! ## Packets -/

/-- The three cases of a data packet whose numbers do not reach the width. -/
theorem ingestData_eq {pkt : MoldPacket} (hpkt : Carries log pkt.header.sequence pkt.blocks) :
    r.ingestData pkt =
      if pkt.header.sequence.toNat + pkt.blocks.length ≤ r.nextExpected.toNat then r
      else if r.nextExpected.toNat < pkt.header.sequence.toNat then
        (numbered pkt.header.sequence pkt.blocks).foldl
          (fun r entry => r.stashPending entry.1 entry.2)
          (r.push (.ok (.gap r.nextExpected (pkt.header.sequence - 1))))
      else ((numbered pkt.header.sequence pkt.blocks).foldl deliverNew r).flushPending := by
  unfold ingestData
  simp only [gt_iff_lt, Word64.le_iff, Word64.lt_iff, Word64.toNat_add hpkt.lt]

theorem advances_ingestData {pkt : MoldPacket} (h : HoldsLog log r)
    (hpkt : Carries log pkt.header.sequence pkt.blocks) :
    Advances log r (r.ingestData pkt) := by
  rw [ingestData_eq hpkt]
  split
  next => exact .refl h
  next =>
    split
    next =>
      have hgap : Advances log r
          (r.push (.ok (.gap r.nextExpected (pkt.header.sequence - 1)))) := .push h rfl
      exact hgap.trans (advances_stash hgap.holds hpkt)
    next hle =>
      obtain ⟨hadv, -, -⟩ := advances_deliverNew h hpkt (Nat.le_of_not_lt hle)
      exact hadv.trans (advances_flushPending hadv.holds)

/-- A packet whose data, if it has any, agrees with the log. -/
def PacketAgrees (log : Nat → Bytes) (pkt : MoldPacket) : Prop :=
  pkt.header.isHeartbeat = false → pkt.header.isEndOfSession = false →
    Carries log pkt.header.sequence pkt.blocks

theorem advances_ingestBootstrapped {pkt : MoldPacket} (h : HoldsLog log r)
    (hpkt : PacketAgrees log pkt) : Advances log r (r.ingestBootstrapped pkt) := by
  unfold ingestBootstrapped
  split
  next => exact .push h rfl
  next hheart =>
    split
    next =>
      have heos : Advances log r { r with eos := true } := .of_quiet rfl rfl h rfl rfl rfl id
      exact heos.trans (.push heos.holds rfl)
    next heos => exact advances_ingestData h (hpkt (by simpa using hheart) (by simpa using heos))

/-- Setting the sequence number changes nothing once it is fixed. -/
theorem advances_bootstrap (sequence : UInt64) (h : HoldsLog log r)
    (hfix : r.bootstrapped ∨ r.startSequence ≠ 0) : Advances log r (r.bootstrap sequence) := by
  unfold bootstrap
  split
  next => exact .refl h
  next hb =>
    rw [if_neg (hfix.resolve_left hb)]
    exact .of_quiet rfl rfl h rfl rfl rfl fun _ => rfl

@[simp] theorem bootstrapped_bootstrap (sequence : UInt64) :
    (r.bootstrap sequence).bootstrapped := by
  unfold bootstrap
  split
  next h => exact h
  next => split <;> rfl

end ReceiverState

end Itch
