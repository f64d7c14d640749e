import Itch.Lib.Run
import Itch.Mold.GapReports

/-!
# The arithmetic of the receiver, checked

Every function of the receiver that adds or subtracts sequence numbers, once more as a debug
build runs it: an operation that leaves the width has no result.  The checked functions agree
with the wrapping ones as long as no data packet reaches the end of the width, and stop at the
first one that does.  Nothing in `MoldPacket::decode` keeps such a packet away.
-/

namespace Itch

open Lib

namespace ReceiverState

variable {r : ReceiverState} {pkt : MoldPacket}

/-! ## The checked functions -/

def deliverChecked (r : ReceiverState) (seq : UInt64) (body : Bytes) : Option ReceiverState :=
  if body.length > maxBlockLen then
    some (r.push (.error (.blockTooLarge body.length maxBlockLen)))
  else do
    let next ← Word64.checkedAdd seq 1
    match Message.decode body with
    | .ok message => some { r.push (.ok (.message seq message)) with nextExpected := next }
    | .error err => some { r.push (.error (.protocol err)) with nextExpected := next }

def flushLoopChecked : Nat → ReceiverState → Option ReceiverState
  | 0, r => some r
  | fuel + 1, r =>
      match FinMap.first? r.pending with
      | some (seq, body) =>
          if seq ≠ r.nextExpected then some r
          else do
            let r ← deliverChecked { r with pending := r.pending.erase seq } seq body
            flushLoopChecked fuel r
      | none => some r

def flushPendingChecked (r : ReceiverState) : Option ReceiverState :=
  flushLoopChecked r.pending.size r

/-- A turn of the loop over the blocks of a packet ahead. -/
def stashBlockChecked (firstSeq : UInt64) (r : ReceiverState) (entry : MessageBlock × Nat) :
    Option ReceiverState := do
  let seq ← Word64.checkedAdd firstSeq entry.2
  some (r.stashPending seq entry.1.data)

/-- A turn of the loop over the blocks of a packet at the cursor. -/
def deliverBlockChecked (firstSeq : UInt64) (r : ReceiverState) (entry : MessageBlock × Nat) :
    Option ReceiverState := do
  let seq ← Word64.checkedAdd firstSeq entry.2
  if seq < r.nextExpected then some r else r.deliverChecked seq entry.1.data

def ingestDataChecked (r : ReceiverState) (pkt : MoldPacket) : Option ReceiverState := do
  let firstSeq := pkt.header.sequence
  let afterLast ← Word64.checkedAdd firstSeq pkt.blocks.length
  if afterLast ≤ r.nextExpected then some r
  else if firstSeq > r.nextExpected then
    let last ← Word64.checkedSub firstSeq 1
    pkt.blocks.zipIdx.foldlM (stashBlockChecked firstSeq)
      (r.push (.ok (.gap r.nextExpected last)))
  else
    let r ← pkt.blocks.zipIdx.foldlM (deliverBlockChecked firstSeq) r
    r.flushPendingChecked

def ingestBootstrappedChecked (r : ReceiverState) (pkt : MoldPacket) : Option ReceiverState :=
  if pkt.header.isHeartbeat then some (r.push (.ok (.heartbeat pkt.header.sequence)))
  else if pkt.header.isEndOfSession then
    some ({ r with eos := true }.push (.ok (.endOfSession pkt.header.sequence)))
  else r.ingestDataChecked pkt

def ingestSessionChecked (r : ReceiverState) (pkt : MoldPacket) : Option ReceiverState :=
  (r.bootstrap pkt.header.sequence).ingestBootstrappedChecked pkt

def ingestChecked (r : ReceiverState) (pkt : MoldPacket) : Option ReceiverState :=
  match r.session with
  | some expected =>
      if expected ≠ pkt.header.session then
        some (r.push (.error (.sessionMismatch expected pkt.header.session)))
      else r.ingestSessionChecked pkt
  | none => { r with session := some pkt.header.session }.ingestSessionChecked pkt

/-! ## They agree with the wrapping functions -/

theorem deliverChecked_eq {seq : UInt64} (h : seq.toNat + 1 < 2 ^ 64) (r : ReceiverState)
    (body : Bytes) : r.deliverChecked seq body = some (r.deliver seq body) := by
  unfold deliverChecked deliver
  rw [Word64.checkedAdd_of_lt h]
  split
  next => rfl
  next =>
    dsimp only [Option.bind_eq_bind, Option.bind_some]
    cases Message.decode body with
    | ok message => rfl
    | error err => rfl

theorem flushLoopChecked_eq (fuel : Nat) (h : Word64.max ∉ r.pending) :
    flushLoopChecked fuel r = some (flushLoop fuel r) := by
  induction fuel generalizing r with
  | zero => rfl
  | succ fuel ih =>
      rw [flushLoopChecked, flushLoop]
      cases hfirst : FinMap.first? r.pending with
      | none => rfl
      | some entry =>
          obtain ⟨seq, body⟩ := entry
          dsimp only
          split
          next => rfl
          next =>
            have hne : seq ≠ Word64.max := by
              rintro rfl
              exact h (FinMap.mem_of_get (FinMap.get_of_first? hfirst))
            rw [deliverChecked_eq (Word64.succ_lt_of_ne_max hne)]
            refine ih fun hmem => h ?_
            rw [deliver_pending] at hmem
            exact (FinMap.mem_erase_iff.mp hmem).2

variable {firstSeq : UInt64} {blocks : List MessageBlock}

theorem stashBlocksChecked_eq (h : firstSeq.toNat + blocks.length < 2 ^ 64) (r : ReceiverState) :
    blocks.zipIdx.foldlM (stashBlockChecked firstSeq) r
      = some ((numbered firstSeq blocks).foldl (fun r entry => r.stashPending entry.1 entry.2)
          r) := by
  rw [numbered, List.foldl_map]
  refine foldlM_eq_some_foldl fun r entry hentry => ?_
  have hindex : entry.2 < blocks.length := (List.mem_zipIdx' hentry).1
  rw [stashBlockChecked, Word64.checkedAdd_of_lt (by omega)]
  rfl

theorem deliverBlocksChecked_eq (h : firstSeq.toNat + blocks.length < 2 ^ 64)
    (r : ReceiverState) :
    blocks.zipIdx.foldlM (deliverBlockChecked firstSeq) r
      = some ((numbered firstSeq blocks).foldl deliverNew r) := by
  rw [numbered, List.foldl_map]
  refine foldlM_eq_some_foldl fun r entry hentry => ?_
  have hindex : entry.2 < blocks.length := (List.mem_zipIdx' hentry).1
  have hlt : firstSeq.toNat + entry.2 < 2 ^ 64 := by omega
  rw [deliverBlockChecked, Word64.checkedAdd_of_lt hlt, Option.bind_eq_bind, Option.bind_some,
    deliverChecked_eq (by rw [Word64.toNat_add hlt]; omega), deliverNew]
  split
  next => rfl
  next => rfl

theorem ingestDataChecked_eq (hpending : Word64.max ∉ r.pending)
    (h : pkt.header.sequence.toNat + pkt.blocks.length < 2 ^ 64) :
    r.ingestDataChecked pkt = some (r.ingestData pkt) := by
  unfold ingestDataChecked ingestData
  dsimp only
  rw [Word64.checkedAdd_of_lt h, Option.bind_eq_bind, Option.bind_some]
  split
  next => rfl
  next =>
    split
    next hahead =>
      rw [Word64.checkedSub_one hahead]
      exact stashBlocksChecked_eq h _
    next =>
      rw [deliverBlocksChecked_eq h]
      refine flushLoopChecked_eq _ ?_
      rwa [pending_deliverNew]

theorem ingestDataChecked_eq_none
    (h : ¬ pkt.header.sequence.toNat + pkt.blocks.length < 2 ^ 64) :
    r.ingestDataChecked pkt = none := by
  unfold ingestDataChecked
  dsimp only
  rw [Word64.checkedAdd_of_not_lt h]
  rfl

/-! ## A packet -/

/-- The packet is looked at for its blocks. -/
def TakesData (r : ReceiverState) (pkt : MoldPacket) : Prop :=
  (r.session = none ∨ r.session = some pkt.header.session) ∧
    pkt.header.isHeartbeat = false ∧ pkt.header.isEndOfSession = false

instance : Decidable (r.TakesData pkt) :=
  inferInstanceAs (Decidable (_ ∧ _))

/-- A data packet ends below the width. -/
def FitsWidth (r : ReceiverState) (pkt : MoldPacket) : Prop :=
  r.TakesData pkt → pkt.header.sequence.toNat + pkt.blocks.length < 2 ^ 64

instance : Decidable (r.FitsWidth pkt) :=
  inferInstanceAs (Decidable (_ → _))

theorem pending_bootstrap (r : ReceiverState) (pkt : MoldPacket) :
    (r.bootstrap pkt.header.sequence).pending = r.pending :=
  pending_opening r pkt

theorem ingestBootstrappedChecked_eq (hpending : Word64.max ∉ r.pending)
    (h : pkt.header.isHeartbeat = false → pkt.header.isEndOfSession = false →
      pkt.header.sequence.toNat + pkt.blocks.length < 2 ^ 64) :
    r.ingestBootstrappedChecked pkt = some (r.ingestBootstrapped pkt) := by
  unfold ingestBootstrappedChecked ingestBootstrapped
  split
  next => rfl
  next hheartbeat =>
    split
    next => rfl
    next hend =>
      exact ingestDataChecked_eq hpending
        (h (Bool.eq_false_iff.mpr hheartbeat) (Bool.eq_false_iff.mpr hend))

theorem ingestChecked_eq (hpending : Word64.max ∉ r.pending) (h : r.FitsWidth pkt) :
    r.ingestChecked pkt = some (r.ingest pkt) := by
  have hsession (r' : ReceiverState) (heq : r'.pending = r.pending)
      (hok : r.session = none ∨ r.session = some pkt.header.session) :
      r'.ingestSessionChecked pkt = some (r'.ingestSession pkt) := by
    refine ingestBootstrappedChecked_eq ?_ fun hheartbeat hend => h ⟨hok, hheartbeat, hend⟩
    rwa [pending_bootstrap, heq]
  unfold ingestChecked ingest
  cases hlocked : r.session with
  | none => exact hsession _ rfl (.inl hlocked)
  | some expected =>
      dsimp only
      split
      next => rfl
      next heq =>
        rw [not_not] at heq
        exact hsession r rfl (.inr (heq ▸ hlocked))

theorem ingestChecked_eq_none (h : ¬ r.FitsWidth pkt) : r.ingestChecked pkt = none := by
  obtain ⟨⟨hok, hheartbeat, hend⟩, hlt⟩ := Classical.not_imp.mp h
  have hsession (r' : ReceiverState) : r'.ingestSessionChecked pkt = none := by
    rw [ingestSessionChecked, ingestBootstrappedChecked, if_neg (Bool.eq_false_iff.mp hheartbeat),
      if_neg (Bool.eq_false_iff.mp hend), ingestDataChecked_eq_none hlt]
  unfold ingestChecked
  rcases hok with hnone | hsome
  · rw [hnone]
    exact hsession _
  · rw [hsome]
    dsimp only
    rw [if_neg (not_not.mpr rfl)]
    exact hsession r

/-! ## What is held back stays below the width -/

theorem Stashed.pending {r' : ReceiverState} {seq seq' : UInt64} {data : Bytes}
    (hs : Stashed r seq data r') (h : seq' ∈ r'.pending) : seq' = seq ∨ seq' ∈ r.pending := by
  cases hs with
  | held => exact .inr h
  | added => exact (FinMap.mem_insert_iff.mp h).imp_left Eq.symm
  | evicted =>
      exact (FinMap.mem_insert_iff.mp h).imp Eq.symm fun hmem => (FinMap.mem_erase_iff.mp hmem).2
  | refused => exact .inr h

theorem pending_stash (entries : List (UInt64 × Bytes)) {seq : UInt64}
    (h : seq ∈ (entries.foldl (fun r entry => r.stashPending entry.1 entry.2) r).pending) :
    seq ∈ entries.map Prod.fst ∨ seq ∈ r.pending := by
  induction entries generalizing r with
  | nil => exact .inr h
  | cons entry entries ih =>
      rw [List.map_cons, List.mem_cons]
      rcases ih h with hrest | hmem
      · exact .inl (.inr hrest)
      · exact ((stashed r entry.1 entry.2).pending hmem).imp_left .inl

theorem max_notMem_numbered (h : firstSeq.toNat + blocks.length < 2 ^ 64) :
    Word64.max ∉ (numbered firstSeq blocks).map Prod.fst := by
  intro hmem
  rw [numbered, List.map_map, List.mem_map] at hmem
  obtain ⟨entry, hentry, heq⟩ := hmem
  have hindex : entry.2 < blocks.length := (List.mem_zipIdx' hentry).1
  have hnat := Word64.eq_iff.mp heq
  rw [Function.comp_apply, Word64.toNat_add (by omega), Word64.toNat_max] at hnat
  omega

theorem max_notMem_ingest (hpending : Word64.max ∉ r.pending) (h : r.FitsWidth pkt) :
    Word64.max ∉ (r.ingest pkt).pending := by
  intro hmem
  by_cases hahead : r.Ahead pkt
  · rw [ingest_eq_stash hahead] at hmem
    rcases pending_stash _ hmem with hnew | hold
    · exact max_notMem_numbered (h ⟨hahead.session, hahead.heartbeat, hahead.endOfSession⟩) hnew
    · exact hpending (pending_opening r pkt ▸ hold)
  · exact hpending ((ingest_of_not_ahead hahead).2 _ hmem)

/-! ## A run -/

/-- The checked receiver takes a feed to its end exactly if none of the data packets it looks
at reaches the end of the width. -/
theorem ingestChecked_run_iff (cfg : MoldConfig) (pkts : List MoldPacket) :
    (pkts.foldlM ingestChecked (new cfg)).isSome ↔ Along ingest FitsWidth (new cfg) pkts := by
  have hnew : Word64.max ∉ (new cfg).pending := Std.ExtTreeMap.not_mem_empty
  refine isSome_foldlM_iff_along (I := fun r => Word64.max ∉ r.pending) hnew ?_ ?_
  · intro r pkt hr hfits
    exact ⟨ingestChecked_eq hr hfits, max_notMem_ingest hr hfits⟩
  · intro r pkt _ hfits
    exact ingestChecked_eq_none hfits

/-- A packet that holds the largest sequence number is accepted from the wire, and the sum of
its number and its count has no result. -/
theorem largest_sequence_overflows :
    MoldPacket.decode (deletes Word64.max 1).wire = .ok (deletes Word64.max 1) ∧
      (new fromOne).ingestChecked (deletes Word64.max 1) = none :=
  ⟨by decide +kernel, ingestChecked_eq_none (by decide +kernel)⟩

end ReceiverState

end Itch
