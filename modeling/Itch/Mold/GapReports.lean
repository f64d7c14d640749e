import Itch.Mold.Completeness
import Itch.Mold.PacketCodec

/-!
# Which gaps the receiver reports

A gap is reported for a data packet that comes ahead of the cursor, and for nothing else.
`Queues r r' gaps` says which gaps the receiver has queued between two states; the calls of
the state machine compose.  So a number is covered by a report exactly if some data packet
has passed over it: heartbeats and end-of-session packets, which also say how far the
publisher is, report no gap.
-/

namespace Itch

open Lib

/-- The range of a gap event. -/
def gap? : Except MoldError MoldEvent → Option (UInt64 × UInt64)
  | .ok (.gap first last) => some (first, last)
  | _ => none

theorem eq_of_gap?_eq_some {event : Except MoldError MoldEvent} {gap : UInt64 × UInt64}
    (h : gap? event = some gap) : event = .ok (.gap gap.1 gap.2) := by
  cases event with
  | error err => cases h
  | ok event =>
      cases event with
      | gap first last =>
          cases h
          rfl
      | _ => cases h

namespace ReceiverState

variable {r r' r'' : ReceiverState} {gaps gaps' : List (UInt64 × UInt64)}

/-- From `r` to `r'` the receiver has queued these gaps, among other events. -/
def Queues (r r' : ReceiverState) (gaps : List (UInt64 × UInt64)) : Prop :=
  ∃ new, r'.outbox = r.outbox ++ new ∧ new.filterMap gap? = gaps

namespace Queues

theorem of_eq (h : r'.outbox = r.outbox) : Queues r r' [] :=
  ⟨[], by rw [h, List.append_nil], rfl⟩

theorem trans (h : Queues r r' gaps) (h' : Queues r' r'' gaps') :
    Queues r r'' (gaps ++ gaps') := by
  obtain ⟨new, hnew, rfl⟩ := h
  obtain ⟨new', hnew', rfl⟩ := h'
  refine ⟨new ++ new', ?_, List.filterMap_append⟩
  rw [hnew', hnew, List.append_assoc]

theorem push (r : ReceiverState) (event : Except MoldError MoldEvent) :
    Queues r (r.push event) (gap? event).toList := by
  refine ⟨[event], rfl, ?_⟩
  rw [List.filterMap_cons]
  cases gap? event with
  | none => rfl
  | some gap => rfl

/-- A loop whose turns report no gap reports none. -/
theorem foldl {α : Type} {f : ReceiverState → α → ReceiverState}
    (hf : ∀ r a, Queues r (f r a) []) (l : List α) (r : ReceiverState) :
    Queues r (l.foldl f r) [] := by
  induction l generalizing r with
  | nil => exact of_eq rfl
  | cons a l ih => exact (hf r a).trans (ih (f r a))

end Queues

/-! ## The calls of the state machine -/

theorem queues_deliver (r : ReceiverState) (seq : UInt64) (body : Bytes) :
    Queues r (r.deliver seq body) [] := by
  unfold deliver
  split
  next => exact Queues.push r _
  next =>
    split
    next => exact Queues.push r _
    next => exact Queues.push r _

theorem queues_deliverNew (r : ReceiverState) (entry : UInt64 × Bytes) :
    Queues r (r.deliverNew entry) [] := by
  unfold deliverNew
  split
  next => exact .of_eq rfl
  next => exact queues_deliver r _ _

theorem queues_stashPending (r : ReceiverState) (seq : UInt64) (data : Bytes) :
    Queues r (r.stashPending seq data) [] := by
  have hs := stashed r seq data
  generalize r.stashPending seq data = r' at hs ⊢
  cases hs with
  | held => exact .of_eq rfl
  | added => exact .of_eq rfl
  | evicted => exact .of_eq rfl
  | refused => exact Queues.push r _

theorem nextExpected_stash (entries : List (UInt64 × Bytes)) (r : ReceiverState) :
    (entries.foldl (fun r entry => r.stashPending entry.1 entry.2) r).nextExpected
      = r.nextExpected := by
  induction entries generalizing r with
  | nil => rfl
  | cons entry entries ih =>
      rw [List.foldl_cons, ih, (stashed r entry.1 entry.2).frame.1]

theorem queues_flushLoop (fuel : Nat) (r : ReceiverState) : Queues r (flushLoop fuel r) [] := by
  induction fuel generalizing r with
  | zero => exact .of_eq rfl
  | succ fuel ih =>
      rw [flushLoop]
      split
      next seq body _ =>
        split
        next => exact .of_eq rfl
        next =>
          have hturn := queues_deliver { r with pending := r.pending.erase seq } seq body
          exact Queues.trans hturn (ih _)
      next => exact .of_eq rfl

/-- A flush holds back nothing new. -/
theorem pending_flushLoop (fuel : Nat) (r : ReceiverState) {seq : UInt64}
    (h : seq ∈ (flushLoop fuel r).pending) : seq ∈ r.pending := by
  induction fuel generalizing r with
  | zero => exact h
  | succ fuel ih =>
      rw [flushLoop] at h
      split at h
      next =>
        split at h
        next => exact h
        next =>
          have hmem := ih _ h
          rw [deliver_pending] at hmem
          exact (FinMap.mem_erase_iff.mp hmem).2
      next => exact h

theorem pending_deliverNew (entries : List (UInt64 × Bytes)) (r : ReceiverState) :
    (entries.foldl deliverNew r).pending = r.pending := by
  induction entries generalizing r with
  | nil => rfl
  | cons entry entries ih =>
      rw [List.foldl_cons, ih, deliverNew]
      split
      next => rfl
      next => exact deliver_pending _ _

/-! ## A packet -/

variable {pkt : MoldPacket}

/-- The state in which a packet of the session is looked at. -/
def opening (r : ReceiverState) (pkt : MoldPacket) : ReceiverState :=
  { r.bootstrap pkt.header.sequence with session := some pkt.header.session }

/-- The number a packet is compared with. -/
def cursor (r : ReceiverState) (pkt : MoldPacket) : UInt64 :=
  (r.opening pkt).nextExpected

/-- A data packet of the session that comes ahead of the cursor. -/
structure Ahead (r : ReceiverState) (pkt : MoldPacket) : Prop where
  session : r.session = none ∨ r.session = some pkt.header.session
  heartbeat : pkt.header.isHeartbeat = false
  endOfSession : pkt.header.isEndOfSession = false
  late : ¬ pkt.header.sequence + UInt64.ofNat pkt.blocks.length ≤ r.cursor pkt
  lt : r.cursor pkt < pkt.header.sequence

/-- A data packet comes from above a number that has not been delivered. -/
def PassesOver (r : ReceiverState) (pkt : MoldPacket) (seq : UInt64) : Prop :=
  r.Ahead pkt ∧ r.cursor pkt ≤ seq ∧ seq < pkt.header.sequence

theorem bootstrap_cases (r : ReceiverState) (sequence : UInt64) :
    r.bootstrap sequence = r ∨
      r.bootstrap sequence = { r with nextExpected := sequence, bootstrapped := true } ∨
      r.bootstrap sequence = { r with bootstrapped := true } := by
  unfold bootstrap
  split
  next => exact .inl rfl
  next =>
    split
    next => exact .inr (.inl rfl)
    next => exact .inr (.inr rfl)

theorem outbox_opening (r : ReceiverState) (pkt : MoldPacket) :
    (r.opening pkt).outbox = r.outbox := by
  unfold opening
  rcases bootstrap_cases r pkt.header.sequence with heq | heq | heq
  · rw [heq]
  · rw [heq]
  · rw [heq]

theorem pending_opening (r : ReceiverState) (pkt : MoldPacket) :
    (r.opening pkt).pending = r.pending := by
  unfold opening
  rcases bootstrap_cases r pkt.header.sequence with heq | heq | heq
  · rw [heq]
  · rw [heq]
  · rw [heq]

/-- A packet that passes the session check, whether or not it sets the session. -/
theorem ingest_of_session (h : r.session = none ∨ r.session = some pkt.header.session) :
    r.ingest pkt = (r.opening pkt).ingestBootstrapped pkt := by
  have hopened : ({ r with session := some pkt.header.session } : ReceiverState).bootstrap
      pkt.header.sequence = r.opening pkt := by
    unfold opening bootstrap
    dsimp only
    split
    next => rfl
    next =>
      split
      next => rfl
      next => rfl
  rw [← hopened, ingest]
  rcases h with hnone | hsome
  · rw [hnone]
    rfl
  · have hself : ({ r with session := some pkt.header.session } : ReceiverState) = r := by
      rw [← hsome]
    rw [hsome]
    dsimp only
    rw [if_neg (not_not.mpr rfl), hself, ingestSession]

theorem ingest_of_other_session
    (h : ¬ (r.session = none ∨ r.session = some pkt.header.session)) :
    ∃ err, r.ingest pkt = r.push (.error err) := by
  obtain ⟨hnone, hother⟩ := not_or.mp h
  obtain ⟨expected, hexpected⟩ := Option.ne_none_iff_exists'.mp hnone
  have hne : expected ≠ pkt.header.session := fun heq => hother (heq ▸ hexpected)
  refine ⟨.sessionMismatch expected pkt.header.session, ?_⟩
  rw [ingest, hexpected]
  exact if_pos hne

/-- What a packet ahead of the cursor does. -/
theorem ingest_eq_stash (h : r.Ahead pkt) :
    r.ingest pkt = (numbered pkt.header.sequence pkt.blocks).foldl
      (fun r entry => r.stashPending entry.1 entry.2)
      ((r.opening pkt).push (.ok (.gap (r.cursor pkt) (pkt.header.sequence - 1)))) := by
  have hlt : (r.opening pkt).nextExpected < pkt.header.sequence := h.lt
  rw [ingest_of_session h.session, ingestBootstrapped, if_neg (Bool.eq_false_iff.mp h.heartbeat),
    if_neg (Bool.eq_false_iff.mp h.endOfSession)]
  unfold ingestData
  dsimp only
  rw [if_neg (show ¬ _ ≤ (r.opening pkt).nextExpected from h.late), if_pos hlt]
  rfl

/-- What `ingest` can do with a packet that is not ahead of the cursor. -/
inductive Ingested (r : ReceiverState) (pkt : MoldPacket) : ReceiverState → Prop where
  | foreign (err : MoldError) : Ingested r pkt (r.push (.error err))
  | heartbeat : Ingested r pkt ((r.opening pkt).push (.ok (.heartbeat pkt.header.sequence)))
  | endOfSession :
      Ingested r pkt
        ({ r.opening pkt with eos := true }.push (.ok (.endOfSession pkt.header.sequence)))
  | late : Ingested r pkt (r.opening pkt)
  | current : ¬ pkt.header.sequence + UInt64.ofNat pkt.blocks.length ≤ r.cursor pkt →
      ¬ r.cursor pkt < pkt.header.sequence →
      Ingested r pkt
        ((numbered pkt.header.sequence pkt.blocks).foldl deliverNew (r.opening pkt)).flushPending

theorem ingested (h : ¬ r.Ahead pkt) : Ingested r pkt (r.ingest pkt) := by
  by_cases hsession : r.session = none ∨ r.session = some pkt.header.session
  · rw [ingest_of_session hsession, ingestBootstrapped]
    split
    next => exact .heartbeat
    next hheartbeat =>
      split
      next => exact .endOfSession
      next hend =>
        unfold ingestData
        dsimp only
        split
        next => exact .late
        next hlate =>
          have hnot : ¬ r.cursor pkt < pkt.header.sequence := fun hlt =>
            h ⟨hsession, Bool.eq_false_iff.mpr hheartbeat, Bool.eq_false_iff.mpr hend, hlate, hlt⟩
          rw [if_neg (show ¬ (r.opening pkt).nextExpected < pkt.header.sequence from hnot)]
          exact .current hlate hnot
  · obtain ⟨err, heq⟩ := ingest_of_other_session hsession
    rw [heq]
    exact .foreign err

/-- A packet ahead of the cursor is reported, and the cursor stays. -/
theorem ingest_of_ahead (h : r.Ahead pkt) :
    (r.ingest pkt).nextExpected = r.cursor pkt ∧
      Queues r (r.ingest pkt) [(r.cursor pkt, pkt.header.sequence - 1)] := by
  have hopened : Queues r (r.opening pkt) [] := .of_eq (outbox_opening r pkt)
  have hgap := Queues.push (r.opening pkt)
    (.ok (.gap (r.cursor pkt) (pkt.header.sequence - 1)))
  rw [ingest_eq_stash h]
  refine ⟨nextExpected_stash _ _, hopened.trans (hgap.trans (Queues.foldl ?_ _ _))⟩
  exact fun r (entry : UInt64 × Bytes) => queues_stashPending r entry.1 entry.2

/-- Any other packet is not, and nothing new is held back. -/
theorem ingest_of_not_ahead (h : ¬ r.Ahead pkt) :
    Queues r (r.ingest pkt) [] ∧ ∀ seq ∈ (r.ingest pkt).pending, seq ∈ r.pending := by
  have hopened : Queues r (r.opening pkt) [] := .of_eq (outbox_opening r pkt)
  have hi := ingested h
  rw [← pending_opening r pkt]
  generalize r.ingest pkt = r' at hi ⊢
  cases hi with
  | foreign err => exact ⟨Queues.push r _, fun seq hseq => (pending_opening r pkt).symm ▸ hseq⟩
  | heartbeat => exact ⟨hopened.trans (Queues.push _ _), fun _ hseq => hseq⟩
  | endOfSession =>
      exact ⟨hopened.trans (Queues.push { r.opening pkt with eos := true } _), fun _ hseq => hseq⟩
  | late => exact ⟨hopened, fun _ hseq => hseq⟩
  | current =>
      refine ⟨hopened.trans ((Queues.foldl queues_deliverNew _ _).trans (queues_flushLoop _ _)),
        fun seq hseq => ?_⟩
      have hmem := pending_flushLoop _ _ hseq
      rwa [pending_deliverNew] at hmem

/-! ## A run -/

/-- A report covers the number. -/
def Covers (outbox : List (Except MoldError MoldEvent)) (seq : UInt64) : Prop :=
  ∃ first last, .ok (.gap first last) ∈ outbox ∧ first ≤ seq ∧ seq ≤ last

theorem not_covers_nil {seq : UInt64} : ¬ Covers [] seq := by
  rintro ⟨first, last, hmem, -⟩
  exact absurd hmem List.not_mem_nil

theorem covers_iff_filterMap {outbox : List (Except MoldError MoldEvent)} {seq : UInt64} :
    Covers outbox seq ↔ ∃ gap ∈ outbox.filterMap gap?, gap.1 ≤ seq ∧ seq ≤ gap.2 := by
  constructor
  · rintro ⟨first, last, hmem, hrange⟩
    exact ⟨(first, last), List.mem_filterMap.mpr ⟨_, hmem, rfl⟩, hrange⟩
  · rintro ⟨⟨first, last⟩, hmem, hrange⟩
    obtain ⟨event, hevent, hgap⟩ := List.mem_filterMap.mp hmem
    rw [eq_of_gap?_eq_some hgap] at hevent
    exact ⟨first, last, hevent, hrange⟩

theorem Queues.covers_iff (h : Queues r r' gaps) {seq : UInt64} :
    Covers r'.outbox seq ↔
      Covers r.outbox seq ∨ ∃ gap ∈ gaps, gap.1 ≤ seq ∧ seq ≤ gap.2 := by
  obtain ⟨new, hnew, rfl⟩ := h
  rw [covers_iff_filterMap, covers_iff_filterMap, hnew, List.filterMap_append]
  simp only [List.mem_append, or_and_right, exists_or]

/-- One packet makes a report that covers a number exactly if it passes over it. -/
theorem covers_ingest_iff {seq : UInt64} :
    Covers (r.ingest pkt).outbox seq ↔ Covers r.outbox seq ∨ r.PassesOver pkt seq := by
  by_cases hahead : r.Ahead pkt
  · rw [(ingest_of_ahead hahead).2.covers_iff]
    simp [PassesOver, hahead, Word64.le_pred_iff hahead.lt]
  · rw [(ingest_of_not_ahead hahead).1.covers_iff]
    simp [PassesOver, hahead]

/-- A number is covered by the reports of a run exactly if a packet passed over it. -/
theorem covers_run_iff (pkts : List MoldPacket) {seq : UInt64} :
    Covers (pkts.foldl ingest r).outbox seq ↔ Covers r.outbox seq ∨
      ∃ before pkt after, pkts = before ++ pkt :: after ∧
        (before.foldl ingest r).PassesOver pkt seq := by
  induction pkts generalizing r with
  | nil => simp
  | cons first pkts ih =>
      rw [List.foldl_cons, ih, covers_ingest_iff, or_assoc]
      refine or_congr_right ?_
      constructor
      · rintro (hfirst | ⟨before, pkt, after, rfl, hpkt⟩)
        · exact ⟨[], first, pkts, rfl, hfirst⟩
        · exact ⟨first :: before, pkt, after, rfl, hpkt⟩
      · rintro ⟨before, pkt, after, heq, hpkt⟩
        cases before with
        | nil =>
            obtain ⟨rfl, rfl⟩ := List.cons.inj heq
            exact .inl hpkt
        | cons head before =>
            obtain ⟨rfl, rfl⟩ := List.cons.inj heq
            exact .inr ⟨before, pkt, after, rfl, hpkt⟩

/-- When a heartbeat or an end of session announces that the publisher is at `n`, a number
below `n` that is missing is covered by a report exactly if an earlier data packet passed
over it. -/
theorem tail_covered_iff (cfg : MoldConfig) (pkts : List MoldPacket) (last : MoldPacket)
    (n : UInt64)
    (hlast : ((pkts ++ [last]).foldl ingest (new cfg)).outbox =
        (pkts.foldl ingest (new cfg)).outbox ++ [.ok (.heartbeat n)] ∨
      ((pkts ++ [last]).foldl ingest (new cfg)).outbox =
        (pkts.foldl ingest (new cfg)).outbox ++ [.ok (.endOfSession n)]) :
    let r := (pkts ++ [last]).foldl ingest (new cfg)
    ∀ seq, r.nextExpected ≤ seq → seq < n → seq ∉ r.pending →
      (Covers r.outbox seq ↔ ∃ before pkt after, pkts = before ++ pkt :: after ∧
        (before.foldl ingest (new cfg)).PassesOver pkt seq) := by
  intro r seq _ _ _
  have hquiet : Queues (pkts.foldl ingest (new cfg)) r [] := by
    rcases hlast with hheartbeat | hend
    · exact ⟨_, hheartbeat, rfl⟩
    · exact ⟨_, hend, rfl⟩
  rw [hquiet.covers_iff, covers_run_iff]
  have hnew : ¬ Covers (new cfg).outbox seq := not_covers_nil
  simp [hnew]

/-- Message 3 comes ahead of message 1, and then the session ends at 5. -/
theorem tail_covered_iff_ahead :
    let pkts := [deletes 3 1]
    let last := MoldPacket.endOfSession (Vector.replicate 10 0x41) 5
    let r := (pkts ++ [last]).foldl ingest (new fromOne)
    (r.outbox = (pkts.foldl ingest (new fromOne)).outbox ++ [.ok (.heartbeat 5)] ∨
      r.outbox = (pkts.foldl ingest (new fromOne)).outbox ++ [.ok (.endOfSession 5)]) ∧
    ∀ seq, r.nextExpected ≤ seq → seq < 5 → seq ∉ r.pending →
      (Covers r.outbox seq ↔ ∃ before pkt after, pkts = before ++ pkt :: after ∧
        (before.foldl ingest (new fromOne)).PassesOver pkt seq) := by
  intro pkts last r
  have hlast : r.outbox = (pkts.foldl ingest (new fromOne)).outbox ++ [.ok (.endOfSession 5)] :=
    rfl
  exact ⟨.inr hlast, tail_covered_iff fromOne pkts last 5 (.inr hlast)⟩

/-- Message 1 arrives, message 2 is lost and the session ends at 3: no gap is reported. -/
theorem tail_not_reported :
    let r := [deletes 1 1, MoldPacket.endOfSession (Vector.replicate 10 0x41) 3].foldl ingest
      (new fromOne)
    .ok (.endOfSession 3) ∈ r.outbox ∧ r.nextExpected = 2 ∧ 2 ∉ r.pending ∧
      ¬ Covers r.outbox 2 := by
  intro r
  have hgaps : r.outbox.filterMap gap? = [] := by decide +kernel
  refine ⟨by decide +kernel, by decide +kernel, by decide +kernel, ?_⟩
  rw [covers_iff_filterMap, hgaps]
  rintro ⟨gap, hgap, -⟩
  exact absurd hgap List.not_mem_nil

end ReceiverState

end Itch
