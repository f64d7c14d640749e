import Itch.Lib.FirstMissing
import Itch.Mold.Advance
import Itch.Protocol.RoundTrip

/-!
# When the receiver delivers everything

The packets received so far cover a set of sequence numbers.  A receiver that keeps up
stands at the first number that is missing from the set and holds back exactly the
covered numbers above it (`KeepsUp`).  This breaks when a packet that fills the hole also
carries numbers that are held back: `flush_pending` stops at the smallest pending number,
which now lies below the cursor, so nothing that is pending is delivered or dropped any
more (`Stuck`).
-/

namespace Itch

open Lib

/-- The sequence numbers of a packet. -/
def MoldPacket.span (pkt : MoldPacket) : Set Nat :=
  Set.Ico pkt.header.sequence.toNat (pkt.header.sequence.toNat + pkt.blocks.length)

/-- The sequence numbers of a list of packets. -/
def covered (pkts : List MoldPacket) : Set Nat :=
  { k | ∃ pkt ∈ pkts, k ∈ pkt.span }

/-- Whenever a packet carries the first number missing from what came before it, nothing
it carries from there on came before it. -/
def FillsCleanly (s : Nat) : Set Nat → List MoldPacket → Prop
  | _, [] => True
  | seen, pkt :: pkts =>
      (∀ f, IsFirstMissing seen s f → f ∈ pkt.span → ∀ k ∈ pkt.span, f ≤ k → k ∉ seen) ∧
      FillsCleanly s (seen ∪ pkt.span) pkts

namespace ReceiverState

variable {log : Nat → Bytes} {r : ReceiverState}

/-- The numbers held back. -/
def held (r : ReceiverState) : Set Nat :=
  { k | ∃ seq, seq ∈ r.pending ∧ seq.toNat = k }

theorem mem_held {seq : UInt64} : seq.toNat ∈ r.held ↔ seq ∈ r.pending := by
  constructor
  · rintro ⟨seq', hseq', heq⟩
    rwa [← Word64.eq_iff.mpr heq]
  · intro h
    exact ⟨seq, h, rfl⟩

/-- A held number lies below the cursor. -/
def Stuck (r : ReceiverState) : Prop :=
  ∃ k ∈ r.held, k < r.nextExpected.toNat

/-! ## Flushing -/

/-- The loop does not start while a held number lies below the cursor. -/
theorem flushPending_of_stuck (h : Stuck r) : r.flushPending = r := by
  obtain ⟨-, ⟨seq, hseq, rfl⟩, hlt⟩ := h
  unfold flushPending
  cases r.pending.size with
  | zero => rfl
  | succ fuel =>
      unfold flushLoop
      split
      next first body hfirst =>
        have hle := Word64.toNat_first?_le hfirst hseq
        refine if_pos fun heq => ?_
        rw [heq] at hle
        omega
      next => rfl

theorem held_flushTurn {seq : UInt64} {body : Bytes} :
    held (deliver { r with pending := r.pending.erase seq } seq body)
      = { k ∈ r.held | k ≠ seq.toNat } := by
  ext k
  constructor
  · rintro ⟨seq', hseq', rfl⟩
    rw [deliver_pending] at hseq'
    obtain ⟨hne, hmem⟩ := FinMap.mem_erase_iff.mp hseq'
    exact ⟨mem_held.mpr hmem, fun heq => hne (Word64.eq_iff.mpr heq.symm)⟩
  · rintro ⟨⟨seq', hseq', rfl⟩, hne⟩
    refine mem_held.mpr ?_
    rw [deliver_pending]
    exact FinMap.mem_erase_iff.mpr ⟨fun heq => hne (heq ▸ rfl), hseq'⟩

theorem isFirstMissing_of_held_gt (h : ∀ k ∈ r.held, r.nextExpected.toNat < k) :
    IsFirstMissing r.held r.nextExpected.toNat r.nextExpected.toNat ∧
      r.held = { k ∈ r.held | r.nextExpected.toNat < k } := by
  refine ⟨⟨le_rfl, fun hmem => Nat.lt_irrefl _ (h _ hmem), by omega⟩, ?_⟩
  ext k
  exact ⟨fun hk => ⟨hk, h k hk⟩, fun hk => hk.1⟩

/-- The loop delivers up to the first number that is not held. -/
theorem flushLoop_spec {fuel : Nat} (h : HoldsLog log r) (hfuel : r.pending.size ≤ fuel)
    (hlow : ∀ k ∈ r.held, r.nextExpected.toNat ≤ k) :
    IsFirstMissing r.held r.nextExpected.toNat (flushLoop fuel r).nextExpected.toNat ∧
      (flushLoop fuel r).held
        = { k ∈ r.held | (flushLoop fuel r).nextExpected.toNat < k } := by
  induction fuel generalizing r with
  | zero =>
      refine isFirstMissing_of_held_gt fun k hk => ?_
      obtain ⟨seq, hseq, rfl⟩ := hk
      obtain ⟨v, hv⟩ := FinMap.mem_iff_get.mp hseq
      have hsize := FinMap.size_erase_of_get hv
      omega
  | succ fuel ih =>
      unfold flushLoop
      split
      next seq body hfirst =>
        have hget := FinMap.get_of_first? hfirst
        split
        next hne =>
          refine isFirstMissing_of_held_gt fun k hk => ?_
          have hle := hlow seq.toNat (mem_held.mpr (FinMap.mem_of_get hget))
          obtain ⟨seq', hseq', rfl⟩ := hk
          have hle' := Word64.toNat_first?_le hfirst hseq'
          have hne' : seq.toNat ≠ r.nextExpected.toNat := fun heq => hne (Word64.eq_iff.mpr heq)
          omega
        next heq =>
          rw [not_not] at heq
          subst heq
          obtain ⟨hadv, hnext⟩ := advances_flushTurn h hget
          have hheld : held (deliver { r with pending := r.pending.erase r.nextExpected }
              r.nextExpected body) = { k ∈ r.held | k ≠ r.nextExpected.toNat } := held_flushTurn
          have hsize := FinMap.size_erase_of_get hget
          obtain ⟨hmiss, hrest⟩ := ih hadv.holds (by rw [deliver_pending]; dsimp only; omega) (by
            rw [hheld, hnext]
            rintro k ⟨hk, hne⟩
            have := hlow k hk
            omega)
          rw [hheld, hnext] at hmiss
          rw [hheld] at hrest
          have hle := hmiss.le
          refine ⟨⟨by omega, fun hmem => hmiss.not_mem ⟨hmem, by omega⟩, ?_⟩, ?_⟩
          · intro k hk hlt
            rcases Nat.eq_or_lt_of_le hk with rfl | hk
            · exact mem_held.mpr (FinMap.mem_of_get hget)
            · exact (hmiss.mem k hk hlt).1
          · rw [hrest]
            ext k
            exact ⟨fun ⟨⟨hk, _⟩, hlt⟩ => ⟨hk, hlt⟩, fun ⟨hk, hlt⟩ => ⟨⟨hk, by omega⟩, hlt⟩⟩
      next hnone =>
        refine isFirstMissing_of_held_gt fun k hk => ?_
        obtain ⟨seq, hseq, rfl⟩ := hk
        exact absurd hseq (FinMap.not_mem_of_first?_none hnone)

/-! ## Holding back -/

theorem Stashed.maxPending_le {seq : UInt64} {data : Bytes} (hs : Stashed r seq data r')
    (h : r.maxPending ≤ r.pending.size) : r.maxPending ≤ r'.pending.size := by
  cases hs with
  | held => exact h
  | added => exact h.trans Std.ExtTreeMap.size_le_size_insert
  | evicted hnew _ hold => exact h.trans (size_evict hnew hold).ge
  | refused => exact h

theorem maxPending_le_stash (entries : List (UInt64 × Bytes))
    (h : r.maxPending ≤ r.pending.size) :
    r.maxPending
      ≤ (entries.foldl (fun r entry => r.stashPending entry.1 entry.2) r).pending.size := by
  induction entries generalizing r with
  | nil => exact h
  | cons e es ih =>
      have hs := stashed r e.1 e.2
      have hmax := hs.frame.2.1
      rw [List.foldl_cons, ← hmax]
      exact ih (hmax ▸ hs.maxPending_le h)

/-- A block that finds room joins what is held, and nothing else changes. -/
theorem Stashed.held_eq {seq : UInt64} {data : Bytes} (hs : Stashed r seq data r')
    (h : r'.pending.size < r.maxPending) :
    r'.held = r.held ∪ {seq.toNat} ∧ r'.nextExpected = r.nextExpected := by
  refine ⟨?_, hs.frame.1⟩
  have hroom : ¬ r.maxPending ≤ r.pending.size := fun hfull =>
    Nat.not_lt.mpr (hs.maxPending_le hfull) h
  cases hs with
  | held hmem => exact (Set.union_eq_left.mpr (Set.singleton_subset_iff.mpr (mem_held.mpr hmem))).symm
  | added =>
      ext k
      constructor
      · rintro ⟨seq', hseq', rfl⟩
        rcases FinMap.mem_insert_iff.mp hseq' with rfl | hmem
        · exact .inr rfl
        · exact .inl (mem_held.mpr hmem)
      · rintro (⟨seq', hseq', rfl⟩ | rfl)
        · exact mem_held.mpr (FinMap.mem_insert_iff.mpr (.inr hseq'))
        · exact mem_held.mpr (FinMap.mem_insert_iff.mpr (.inl rfl))
  | evicted _ hfull => exact absurd hfull hroom
  | refused hfull => exact absurd hfull hroom

/-- The blocks of a packet that find room. -/
theorem held_stash {firstSeq : UInt64} {blocks : List MessageBlock}
    (h : HoldsLog log r) (hblocks : Carries log firstSeq blocks)
    (hroom : ((numbered firstSeq blocks).foldl
      (fun r entry => r.stashPending entry.1 entry.2) r).pending.size < r.maxPending) :
    ((numbered firstSeq blocks).foldl (fun r entry => r.stashPending entry.1 entry.2) r).held
        = r.held ∪ Set.Ico firstSeq.toNat (firstSeq.toNat + blocks.length) ∧
      ((numbered firstSeq blocks).foldl
        (fun r entry => r.stashPending entry.1 entry.2) r).nextExpected = r.nextExpected := by
  induction blocks generalizing r firstSeq with
  | nil => simp
  | cons b bs ih =>
      rw [numbered_cons, List.foldl_cons] at hroom ⊢
      have hs := stashed r firstSeq b.data
      have hadv := hs.advances h hblocks.head
      have hmax := hadv.maxPending
      obtain ⟨hheld, hnext⟩ := ih hadv.holds hblocks.tail (by rwa [hmax])
      have hsmall : (r.stashPending firstSeq b.data).pending.size < r.maxPending := by
        by_contra hfull
        have hgrow := maxPending_le_stash (numbered (firstSeq + 1) bs)
          (show (r.stashPending firstSeq b.data).maxPending ≤ _ by omega)
        rw [hmax] at hgrow
        exact Nat.not_lt.mpr hgrow hroom
      obtain ⟨hheld', hnext'⟩ := hs.held_eq hsmall
      refine ⟨?_, hnext.trans hnext'⟩
      rw [hheld, hheld', hblocks.toNat_succ, Set.union_assoc, List.length_cons]
      congr 1
      ext k
      simp only [Set.mem_union, Set.mem_singleton_iff, Set.mem_Ico]
      omega

/-! ## Packets -/

/-- The receiver stands at the first number missing from what it has seen, and holds back
what it has seen above it. -/
structure KeepsUp (s : Nat) (seen : Set Nat) (r : ReceiverState) : Prop where
  first : IsFirstMissing seen s r.nextExpected.toNat
  held : r.held = { k ∈ seen | r.nextExpected.toNat < k }

section Packet

variable {s : Nat} {seen : Set Nat} {pkt : MoldPacket}

/-- A packet ahead of the cursor is held back. -/
theorem ingestData_ahead (hlog : HoldsLog log r)
    (hpkt : Carries log pkt.header.sequence pkt.blocks)
    (hroom : (r.ingestData pkt).pending.size < r.maxPending)
    (hlt : r.nextExpected.toNat < pkt.header.sequence.toNat) :
    (r.ingestData pkt).held = r.held ∪ pkt.span ∧
      (r.ingestData pkt).nextExpected = r.nextExpected := by
  rw [ingestData_eq hpkt, if_neg (by omega), if_pos hlt] at hroom ⊢
  exact held_stash (r := r.push _) hlog hpkt hroom

/-- A packet that carries the number at the cursor is delivered to its end, and then the
held blocks are flushed. -/
theorem ingestData_at (hlog : HoldsLog log r)
    (hpkt : Carries log pkt.header.sequence pkt.blocks)
    (hmem : r.nextExpected.toNat ∈ pkt.span) :
    ∃ r', Advances log r r' ∧ r'.held = r.held ∧
      r'.nextExpected.toNat = pkt.header.sequence.toNat + pkt.blocks.length ∧
      r.ingestData pkt = r'.flushPending := by
  obtain ⟨hle, hlt⟩ := hmem
  rw [ingestData_eq hpkt, if_neg (Nat.not_le.mpr hlt), if_neg (Nat.not_lt.mpr hle)]
  obtain ⟨hadv, hnext, hpend⟩ := advances_deliverNew hlog hpkt hle
  refine ⟨_, hadv, ?_, by omega, rfl⟩
  unfold held
  rw [hpend]

theorem ingestData_late (hpkt : Carries log pkt.header.sequence pkt.blocks)
    (hle : pkt.header.sequence.toNat + pkt.blocks.length ≤ r.nextExpected.toNat) :
    r.ingestData pkt = r := by
  rw [ingestData_eq hpkt, if_pos hle]

/-- A packet that fills the hole cleanly, or does not fill it, keeps the receiver up. -/
theorem KeepsUp.ingestData (h : KeepsUp s seen r) (hlog : HoldsLog log r)
    (hpkt : Carries log pkt.header.sequence pkt.blocks) (hs : s ≤ pkt.header.sequence.toNat)
    (hroom : (r.ingestData pkt).pending.size < r.maxPending)
    (hclean : r.nextExpected.toNat ∈ pkt.span →
      ∀ k ∈ pkt.span, r.nextExpected.toNat ≤ k → k ∉ seen) :
    KeepsUp s (seen ∪ pkt.span) (r.ingestData pkt) := by
  by_cases hle : pkt.header.sequence.toNat + pkt.blocks.length ≤ r.nextExpected.toNat
  · have hsub : pkt.span ⊆ seen := fun k hk =>
      h.first.mem k (hs.trans hk.1) (Nat.lt_of_lt_of_le hk.2 hle)
    rw [ingestData_late hpkt hle, Set.union_eq_left.mpr hsub]
    exact h
  by_cases hlt : r.nextExpected.toNat < pkt.header.sequence.toNat
  · obtain ⟨hheld, hnext⟩ := ingestData_ahead hlog hpkt hroom hlt
    refine ⟨hnext ▸ h.first.union fun hmem => Nat.not_le.mpr hlt hmem.1, ?_⟩
    rw [hheld, hnext, h.held]
    ext k
    constructor
    · rintro (⟨hk, hgt⟩ | hk)
      · exact ⟨.inl hk, hgt⟩
      · exact ⟨.inr hk, Nat.lt_of_lt_of_le hlt hk.1⟩
    · rintro ⟨hk | hk, hgt⟩
      · exact .inl ⟨hk, hgt⟩
      · exact .inr hk
  · have hmem : r.nextExpected.toNat ∈ pkt.span := ⟨by omega, by omega⟩
    obtain ⟨r', hadv, hheld, hnext, heq⟩ := ingestData_at hlog hpkt hmem
    have hend : r.nextExpected.toNat < r'.nextExpected.toNat := hnext ▸ hmem.2
    have hheld' : r'.held = { k ∈ seen | r.nextExpected.toNat < k } := hheld.trans h.held
    -- what is held lies past the end of the packet, so the loop starts from there
    obtain ⟨hmiss, hrest⟩ := flushLoop_spec hadv.holds le_rfl (by
      rw [hheld']
      rintro k ⟨hk, hgt⟩
      by_contra hin
      exact hclean hmem k ⟨by omega, by omega⟩ hgt.le hk)
    have hmiss' : IsFirstMissing seen r'.nextExpected.toNat
        r'.flushPending.nextExpected.toNat := by
      refine hmiss.congr fun k hk => ?_
      rw [hheld']
      exact ⟨And.left, fun hk' => ⟨hk', Nat.lt_of_lt_of_le hend hk⟩⟩
    rw [heq]
    refine ⟨h.first.union_Ico hmem (hnext ▸ hmiss'), ?_⟩
    have hpast := hmiss'.le
    change r'.flushPending.held = _ at hrest
    rw [hrest, hheld']
    ext k
    constructor
    · rintro ⟨⟨hk, -⟩, hgt⟩
      exact ⟨.inl hk, hgt⟩
    · rintro ⟨hk | hk, hgt⟩
      · have hgt' : r'.flushPending.nextExpected.toNat < k := hgt
        exact ⟨⟨hk, by omega⟩, hgt⟩
      · have hgt' : r'.flushPending.nextExpected.toNat < k := hgt
        exact absurd hk.2 (by omega)

/-- A packet that fills the hole and carries a held number leaves the receiver stuck. -/
theorem KeepsUp.stuck (h : KeepsUp s seen r) (hlog : HoldsLog log r)
    (hpkt : Carries log pkt.header.sequence pkt.blocks)
    (hmem : r.nextExpected.toNat ∈ pkt.span) {k : Nat} (hk : k ∈ pkt.span)
    (hle : r.nextExpected.toNat ≤ k) (hseen : k ∈ seen) : Stuck (r.ingestData pkt) := by
  obtain ⟨r', hadv, hheld, hnext, heq⟩ := ingestData_at hlog hpkt hmem
  have hne : r.nextExpected.toNat ≠ k := fun heq => h.first.not_mem (heq ▸ hseen)
  have hstuck : Stuck r' := by
    refine ⟨k, ?_, hnext ▸ hk.2⟩
    rw [hheld, h.held]
    exact ⟨hseen, Nat.lt_of_le_of_ne hle hne⟩
  rw [heq, flushPending_of_stuck hstuck]
  exact hstuck

/-- A stuck receiver stays stuck. -/
theorem Stuck.ingestData (h : Stuck r) (hlog : HoldsLog log r)
    (hpkt : Carries log pkt.header.sequence pkt.blocks)
    (hroom : (r.ingestData pkt).pending.size < r.maxPending) : Stuck (r.ingestData pkt) := by
  obtain ⟨k, hk, hlow⟩ := h
  by_cases hle : pkt.header.sequence.toNat + pkt.blocks.length ≤ r.nextExpected.toNat
  · rw [ingestData_late hpkt hle]
    exact ⟨k, hk, hlow⟩
  by_cases hlt : r.nextExpected.toNat < pkt.header.sequence.toNat
  · obtain ⟨hheld, hnext⟩ := ingestData_ahead hlog hpkt hroom hlt
    exact ⟨k, hheld ▸ .inl hk, hnext ▸ hlow⟩
  · obtain ⟨r', hadv, hheld, hnext, heq⟩ := ingestData_at hlog hpkt ⟨by omega, by omega⟩
    have hstuck : Stuck r' := ⟨k, hheld ▸ hk, hlow.trans_le hadv.le⟩
    rw [heq, flushPending_of_stuck hstuck]
    exact hstuck

end Packet

/-! ## Runs -/

/-- The receiver once it has seen a packet of the session. -/
def opened (session : Vector UInt8 10) (r : ReceiverState) : ReceiverState :=
  { r with session := some session, bootstrapped := true }

/-- The blocks of a packet are a part of the log numbered from `s`, of at least one entry. -/
def IsSlice (session : Vector UInt8 10) (s : UInt64) (log : List Bytes) (pkt : MoldPacket) :
    Prop :=
  ∃ offset count, 0 < count ∧ offset + count ≤ log.length ∧
    MoldPacket.newData session (s + UInt64.ofNat offset)
      (((log.drop offset).take count).map MessageBlock.mk) = .ok pkt

/-- The entry of the log under a sequence number. -/
def logFrom (s : UInt64) (log : List Bytes) (n : Nat) : Bytes :=
  log.getD (n - s.toNat) []

/-- The cap on the pending buffer is never reached. -/
def NeverFull (r : ReceiverState) (pkts : List MoldPacket) : Prop :=
  ∀ before, before <+: pkts → (before.foldl ingest r).pending.size < r.maxPending

/-- What holds between two packets of the session, whatever they are. -/
structure Synced (log : Nat → Bytes) (session : Vector UInt8 10) (s : UInt64)
    (r : ReceiverState) : Prop where
  session : r.session = none ∨ r.session = some session
  startSequence : r.startSequence ≠ 0
  holds : HoldsLog log r
  le : s.toNat ≤ r.nextExpected.toNat
  deliveries : deliveries r.outbox = segment (logOutcome log) s.toNat r.nextExpected.toNat

section Run

variable {session : Vector UInt8 10} {s : UInt64} {entries : List Bytes} {seen : Set Nat}
  {pkt : MoldPacket} {pkts : List MoldPacket}

/-- What a slice of the log carries. -/
structure SliceFacts (session : Vector UInt8 10) (s : UInt64) (entries : List Bytes)
    (pkt : MoldPacket) : Prop where
  session : pkt.header.session = session
  not_heartbeat : pkt.header.isHeartbeat = false
  not_eos : pkt.header.isEndOfSession = false
  le : s.toNat ≤ pkt.header.sequence.toNat
  span_lt : ∀ k ∈ pkt.span, k < s.toNat + entries.length
  carries : Carries (logFrom s entries) pkt.header.sequence pkt.blocks

theorem IsSlice.facts (h : IsSlice session s entries pkt)
    (hlt : s.toNat + entries.length < 2 ^ 64)
    (hfit : ∀ b ∈ entries, b.length ≤ maxBlockLen) : SliceFacts session s entries pkt := by
  obtain ⟨offset, count, hcount, hle, hnew⟩ := h
  obtain ⟨hsession, hseq, hblocks, hmsg, heos⟩ := MoldPacket.newData_eq_ok hnew
  have hlen : pkt.blocks.length = count := by
    rw [hblocks, List.length_map, List.length_take, List.length_drop]
    omega
  have hfirst : pkt.header.sequence.toNat = s.toNat + offset := by
    rw [hseq, Word64.toNat_add (by omega)]
  refine ⟨hsession, ?_, heos, by omega, ?_, ⟨?_, ?_, by omega⟩⟩
  · rw [MoldPacketHeader.isHeartbeat, beq_eq_false_iff_ne]
    intro hzero
    rw [hzero, ← hblocks, hlen] at hmsg
    exact Nat.ne_of_gt hcount hmsg.symm
  · rintro k ⟨-, hk⟩
    omega
  · intro i b hb
    rw [hblocks, List.getElem?_map, Option.map_eq_some_iff] at hb
    obtain ⟨data, hdata, rfl⟩ := hb
    rw [List.getElem?_take] at hdata
    split at hdata
    next hi =>
      rw [List.getElem?_drop] at hdata
      have hidx : s.toNat + offset + i - s.toNat = offset + i := by omega
      rw [hfirst, logFrom, hidx, List.getD_eq_getElem?_getD, hdata, Option.getD_some]
    next => cases hdata
  · intro b hb
    rw [hblocks, List.mem_map] at hb
    obtain ⟨data, hdata, rfl⟩ := hb
    exact hfit data (List.mem_of_mem_drop (List.mem_of_mem_take hdata))

/-- A packet of the feed: a slice of the log or a heartbeat. -/
inductive FeedFacts (session : Vector UInt8 10) (s : UInt64) (entries : List Bytes)
    (pkt : MoldPacket) : Prop where
  | slice : SliceFacts session s entries pkt → FeedFacts session s entries pkt
  | heartbeat : pkt.header.session = session → pkt.header.isHeartbeat = true →
      pkt.blocks = [] → FeedFacts session s entries pkt

theorem FeedFacts.span_lt (h : FeedFacts session s entries pkt) :
    ∀ k ∈ pkt.span, k < s.toNat + entries.length := by
  cases h with
  | slice h => exact h.span_lt
  | heartbeat _ _ hblocks =>
      rintro k ⟨hle, hlt⟩
      rw [hblocks] at hlt
      exact absurd hlt (Nat.not_lt.mpr hle)

/-- A packet of the session is ingested by the receiver that has locked onto it. -/
theorem Synced.ingest_eq {log : Nat → Bytes} (h : Synced log session s r)
    (hsession : pkt.header.session = session) :
    r.ingest pkt = (r.opened session).ingestBootstrapped pkt := by
  have hlocked : r.ingest pkt = { r with session := some session }.ingestSession pkt := by
    rcases h.session with hnone | hsome
    · rw [ingest, hnone, hsession]
    · have hself : { r with session := some session } = r := by rw [← hsome]
      rw [ingest, hsome, hself]
      exact if_neg (not_not.mpr hsession.symm)
  rw [hlocked, ingestSession, bootstrap]
  simp only [h.startSequence, if_false]
  split
  next hboot => rw [opened, ← hboot]
  next => rfl

theorem Synced.ingest_slice {log : Nat → Bytes} (h : Synced log session s r)
    (hpkt : SliceFacts session s entries pkt) :
    r.ingest pkt = (r.opened session).ingestData pkt := by
  rw [h.ingest_eq hpkt.session, ingestBootstrapped]
  simp only [hpkt.not_heartbeat, hpkt.not_eos, if_false, Bool.false_eq_true]

/-- A heartbeat only queues its event. -/
theorem Synced.ingest_heartbeat {log : Nat → Bytes} (h : Synced log session s r)
    (hsession : pkt.header.session = session) (hpkt : pkt.header.isHeartbeat = true) :
    r.ingest pkt = (r.opened session).push (.ok (.heartbeat pkt.header.sequence)) := by
  rw [h.ingest_eq hsession, ingestBootstrapped, if_pos hpkt]

theorem Synced.advances (h : Synced (logFrom s entries) session s r)
    (hpkt : FeedFacts session s entries pkt) :
    Advances (logFrom s entries) (r.opened session) (r.ingest pkt) := by
  cases hpkt with
  | slice hpkt =>
      rw [h.ingest_slice hpkt]
      exact advances_ingestData (r := r.opened session) h.holds hpkt.carries
  | heartbeat hsession hheartbeat _ =>
      rw [h.ingest_heartbeat hsession hheartbeat]
      exact Advances.push (r := r.opened session) h.holds rfl

theorem Synced.ingest (h : Synced (logFrom s entries) session s r)
    (hpkt : FeedFacts session s entries pkt) :
    Synced (logFrom s entries) session s (r.ingest pkt) := by
  have hadv := h.advances hpkt
  refine ⟨.inr hadv.session, hadv.startSequence ▸ h.startSequence, hadv.holds,
    h.le.trans hadv.le, ?_⟩
  rw [hadv.deliveries]
  exact (congrArg (· ++ _) h.deliveries).trans (segment_append h.le hadv.le)

theorem NeverFull.head (h : NeverFull r (pkt :: pkts)) :
    (r.ingest pkt).pending.size < r.maxPending :=
  h [pkt] (List.cons_prefix_cons.mpr ⟨rfl, List.nil_prefix⟩)

theorem NeverFull.tail (h : NeverFull r (pkt :: pkts))
    (hmax : (r.ingest pkt).maxPending = r.maxPending) : NeverFull (r.ingest pkt) pkts := by
  intro before hbefore
  rw [hmax]
  exact h (pkt :: before) (List.cons_prefix_cons.mpr ⟨rfl, hbefore⟩)

theorem Synced.run (h : Synced (logFrom s entries) session s r)
    (hpkts : ∀ pkt ∈ pkts, FeedFacts session s entries pkt) :
    Synced (logFrom s entries) session s (pkts.foldl ReceiverState.ingest r) := by
  induction pkts generalizing r with
  | nil => exact h
  | cons pkt pkts ih =>
      obtain ⟨hpkt, hrest⟩ := List.forall_mem_cons.mp hpkts
      exact ih (h.ingest hpkt) hrest

theorem Stuck.ingest (h : Stuck r) (hsync : Synced (logFrom s entries) session s r)
    (hpkt : FeedFacts session s entries pkt)
    (hroom : (r.ingest pkt).pending.size < r.maxPending) : Stuck (r.ingest pkt) := by
  cases hpkt with
  | slice hpkt =>
      rw [hsync.ingest_slice hpkt] at hroom ⊢
      exact Stuck.ingestData (r := r.opened session) h hsync.holds hpkt.carries hroom
  | heartbeat hsession hheartbeat _ =>
      rw [hsync.ingest_heartbeat hsession hheartbeat]
      exact h

theorem Stuck.run (h : Stuck r) (hsync : Synced (logFrom s entries) session s r)
    (hpkts : ∀ pkt ∈ pkts, FeedFacts session s entries pkt) (hroom : NeverFull r pkts) :
    Stuck (pkts.foldl ReceiverState.ingest r) := by
  induction pkts generalizing r with
  | nil => exact h
  | cons pkt pkts ih =>
      obtain ⟨hpkt, hrest⟩ := List.forall_mem_cons.mp hpkts
      exact ih (h.ingest hsync hpkt hroom.head) (hsync.ingest hpkt) hrest
        (hroom.tail (hsync.advances hpkt).maxPending)

theorem KeepsUp.opened {n : Nat} (h : KeepsUp n seen r) : KeepsUp n seen (r.opened session) :=
  ⟨h.first, h.held⟩

theorem KeepsUp.ingest (h : KeepsUp s.toNat seen r)
    (hsync : Synced (logFrom s entries) session s r) (hpkt : FeedFacts session s entries pkt)
    (hroom : (r.ingest pkt).pending.size < r.maxPending)
    (hclean : r.nextExpected.toNat ∈ pkt.span →
      ∀ k ∈ pkt.span, r.nextExpected.toNat ≤ k → k ∉ seen) :
    KeepsUp s.toNat (seen ∪ pkt.span) (r.ingest pkt) := by
  cases hpkt with
  | slice hpkt =>
      rw [hsync.ingest_slice hpkt] at hroom ⊢
      exact h.opened.ingestData hsync.holds hpkt.carries hpkt.le hroom hclean
  | heartbeat hsession hheartbeat hblocks =>
      have hspan : pkt.span = ∅ := by
        rw [MoldPacket.span, hblocks, List.length_nil, Nat.add_zero, Set.Ico_self]
      rw [hsync.ingest_heartbeat hsession hheartbeat, hspan, Set.union_empty]
      exact ⟨h.first, h.held⟩

theorem mem_covered_cons {k : Nat} :
    k ∈ covered (pkt :: pkts) ↔ k ∈ pkt.span ∨ k ∈ covered pkts := by
  simp [covered]

/-- The receiver keeps up over packets that fill the holes cleanly, and gets stuck
otherwise. -/
theorem KeepsUp.run (h : KeepsUp s.toNat seen r)
    (hsync : Synced (logFrom s entries) session s r)
    (hpkts : ∀ pkt ∈ pkts, FeedFacts session s entries pkt) (hroom : NeverFull r pkts) :
    (FillsCleanly s.toNat seen pkts →
      KeepsUp s.toNat (seen ∪ covered pkts) (pkts.foldl ReceiverState.ingest r)) ∧
    (¬ FillsCleanly s.toNat seen pkts → Stuck (pkts.foldl ReceiverState.ingest r)) := by
  induction pkts generalizing r seen with
  | nil =>
      refine ⟨fun _ => ?_, fun hnot => absurd trivial hnot⟩
      have hnone : covered [] = ∅ := by simp [covered]
      rw [hnone, Set.union_empty]
      exact h
  | cons pkt pkts ih =>
      obtain ⟨hpkt, hrest⟩ := List.forall_mem_cons.mp hpkts
      have hsync' := hsync.ingest hpkt
      have hroom' := hroom.tail (hsync.advances hpkt).maxPending
      rw [List.foldl_cons]
      by_cases hclean : ∀ f, IsFirstMissing seen s.toNat f → f ∈ pkt.span →
          ∀ k ∈ pkt.span, f ≤ k → k ∉ seen
      · have hup := h.ingest hsync hpkt hroom.head (hclean _ h.first)
        obtain ⟨hgood, hbad⟩ := ih hup hsync' hrest hroom'
        constructor
        · rintro ⟨-, htail⟩
          have hcov : seen ∪ covered (pkt :: pkts) = seen ∪ pkt.span ∪ covered pkts := by
            ext k
            simp only [Set.mem_union, mem_covered_cons, or_assoc]
          rw [hcov]
          exact hgood htail
        · intro hnot
          exact hbad fun htail => hnot ⟨hclean, htail⟩
      · refine ⟨fun hall => absurd hall.1 hclean, fun _ => ?_⟩
        push Not at hclean
        obtain ⟨f, hf, hmem, k, hk, hle, hseen⟩ := hclean
        obtain rfl := hf.unique h.first
        refine Stuck.run ?_ hsync' hrest hroom'
        cases hpkt with
        | slice hpkt =>
            rw [hsync.ingest_slice hpkt]
            exact h.opened.stuck hsync.holds hpkt.carries hmem hk hle hseen
        | heartbeat _ _ hblocks =>
            rw [MoldPacket.span, hblocks] at hmem
            exact absurd hmem.2 (Nat.not_lt.mpr hmem.1)

/-- Every entry of the log numbered from `s` has been delivered as a message, once and in
order, and nothing is held back. -/
structure Complete (s : UInt64) (entries : List Bytes) (r : ReceiverState) : Prop where
  delivered : ∃ messages : List Message,
    List.Forall₂ (fun body message => Message.decode body = .ok message) entries messages ∧
    deliveries r.outbox = messages.zipIdx.map fun (message, i) =>
      .ok (.message (s + UInt64.ofNat i) message)
  nextExpected : r.nextExpected = s + UInt64.ofNat entries.length
  pending : r.pending = ∅

theorem segment_logFrom :
    segment (logOutcome (logFrom s entries)) s.toNat (s.toNat + entries.length)
      = entries.zipIdx.map fun (body, i) => outcome (s + UInt64.ofNat i) body := by
  refine List.ext_getElem (by simp) fun i hi hi' => ?_
  have hlt : i < entries.length := by simpa using hi'
  have hidx : s.toNat + i - s.toNat = i := by omega
  rw [getElem_segment, logOutcome, logFrom, hidx, UInt64.ofNat_add, UInt64.ofNat_toNat,
    List.getD_eq_getElem?_getD, List.getElem?_eq_getElem hlt, Option.getD_some]
  simp only [List.getElem_map, List.getElem_zipIdx, Nat.zero_add]

/-- The outcomes of decodable entries are messages. -/
theorem outcomes_of_decode (hdec : ∀ b ∈ entries, ∃ m, Message.decode b = .ok m) (n : Nat) :
    ∃ messages : List Message,
      List.Forall₂ (fun body message => Message.decode body = .ok message) entries messages ∧
      (entries.zipIdx n).map (fun (body, i) => outcome (s + UInt64.ofNat i) body)
        = (messages.zipIdx n).map fun (message, i) =>
            .ok (.message (s + UInt64.ofNat i) message) := by
  induction entries generalizing n with
  | nil => exact ⟨[], .nil, rfl⟩
  | cons body entries ih =>
      obtain ⟨hhead, htail⟩ := List.forall_mem_cons.mp hdec
      obtain ⟨message, hmessage⟩ := hhead
      obtain ⟨messages, hall, heq⟩ := ih htail (n + 1)
      refine ⟨message :: messages, .cons hmessage hall, ?_⟩
      have hfirst : outcome (s + UInt64.ofNat n) body
          = .ok (.message (s + UInt64.ofNat n) message) := by
        rw [outcome, hmessage]
      rw [List.zipIdx_cons, List.zipIdx_cons, List.map_cons, List.map_cons, heq]
      exact congrArg (· :: _) hfirst

end Run

/-- A byte string is an encoded message: what `encode` writes to a buffer of the length of
the message. -/
def IsEncoded (body : Bytes) : Prop :=
  ∃ m : Message, m.encode (List.replicate m.encodedLen 0) = .ok (m.encodedLen, body)

theorem IsEncoded.eq_wireImage {body : Bytes} (h : IsEncoded body) :
    ∃ m : Message, body = m.wireImage := by
  obtain ⟨m, hm⟩ := h
  rw [m.encode_fresh, Except.ok.injEq, Prod.mk.injEq] at hm
  exact ⟨m, hm.2.symm⟩

theorem IsEncoded.decode {body : Bytes} (h : IsEncoded body) :
    ∃ m, Message.decode body = .ok m := by
  obtain ⟨m, rfl⟩ := h.eq_wireImage
  exact ⟨m.onWire, m.decode_wireImage⟩

theorem IsEncoded.length_le {body : Bytes} (h : IsEncoded body) : body.length ≤ maxBlockLen := by
  obtain ⟨m, rfl⟩ := h.eq_wireImage
  rw [Message.wireImage_length]
  exact m.encodedLen_le.trans (by decide)

theorem held_eq_empty_iff : r.held = ∅ ↔ r.pending = ∅ := by
  rw [Set.eq_empty_iff_forall_notMem]
  constructor
  · intro h
    refine Std.ExtTreeMap.ext_getElem? fun {seq} => ?_
    rw [FinMap.get_of_not_mem fun hmem => h _ (mem_held.mpr hmem)]
    simp
  · rintro h - ⟨seq, hseq, -⟩
    rw [h] at hseq
    simp at hseq

section Fresh

variable {s : UInt64} {entries : List Bytes} {session : Vector UInt8 10} {cfg : MoldConfig}
  {pkts : List MoldPacket}

theorem Synced.new (hs : s ≠ 0) (hsession : cfg.session = none ∨ cfg.session = some session)
    (hstart : cfg.startSequence = s) : Synced (logFrom s entries) session s (new cfg) := by
  have hne : cfg.startSequence ≠ 0 := hstart ▸ hs
  refine ⟨hsession, hne, ?_, hstart ▸ le_rfl, ?_⟩
  · intro seq body hseq
    simp [ReceiverState.new] at hseq
  · simp [ReceiverState.new, hstart, Itch.deliveries]

theorem KeepsUp.new (hstart : cfg.startSequence = s) : KeepsUp s.toNat ∅ (new cfg) := by
  have hnone : (ReceiverState.new cfg).held = ∅ := held_eq_empty_iff.mpr rfl
  refine ⟨⟨hstart ▸ le_rfl, Set.notMem_empty _, fun k hk hk' => ?_⟩, by simp [hnone]⟩
  exact absurd (hstart ▸ hk') (Nat.not_lt.mpr hk)

/-- Packets of the feed that cover the log and fill the holes cleanly deliver all of it. -/
theorem complete_of_fillsCleanly (hs : s ≠ 0) (hentries : ∀ b ∈ entries, IsEncoded b)
    (hlt : s.toNat + entries.length < 2 ^ 64)
    (hsession : cfg.session = none ∨ cfg.session = some session)
    (hstart : cfg.startSequence = s) (hpkts : ∀ pkt ∈ pkts, FeedFacts session s entries pkt)
    (hcover : ∀ k, s.toNat ≤ k → k < s.toNat + entries.length → k ∈ covered pkts)
    (hroom : NeverFull (new cfg) pkts) (hclean : FillsCleanly s.toNat ∅ pkts) :
    Complete s entries (pkts.foldl ingest (new cfg)) := by
  have hsync : Synced (logFrom s entries) session s (new cfg) := .new hs hsession hstart
  have hend := hsync.run hpkts
  obtain ⟨hfirst, hheld⟩ := ((KeepsUp.new hstart).run hsync hpkts hroom).1 hclean
  rw [Set.empty_union] at hfirst hheld
  have hbound : ∀ k ∈ covered pkts, k < s.toNat + entries.length := by
    rintro k ⟨pkt, hpkt, hk⟩
    exact (hpkts pkt hpkt).span_lt k hk
  have hnext := hfirst.unique (.of_filled (Nat.le_add_right _ _) hcover hbound)
  refine ⟨?_, ?_, ?_⟩
  · rw [hend.deliveries, hnext, segment_logFrom]
    exact outcomes_of_decode (fun b hb => (hentries b hb).decode) 0
  · rw [Word64.eq_iff, hnext, Word64.toNat_add hlt]
  · rw [← held_eq_empty_iff, hheld, hnext, Set.eq_empty_iff_forall_notMem]
    rintro k ⟨hk, hgt⟩
    exact absurd (hbound k hk) (Nat.not_lt.mpr hgt.le)

end Fresh

/-- **Completeness.**  Over packets that together cover the log, the receiver has
delivered the whole log exactly when every packet that fills the hole fills it cleanly. -/
theorem complete_iff_fillsCleanly (s : UInt64) (hs : s ≠ 0) (entries : List Bytes)
    (hentries : ∀ b ∈ entries, IsEncoded b) (hlt : s.toNat + entries.length < 2 ^ 64)
    (session : Vector UInt8 10) (cfg : MoldConfig)
    (hsession : cfg.session = none ∨ cfg.session = some session)
    (hstart : cfg.startSequence = s) (pkts : List MoldPacket)
    (hpkts : ∀ pkt ∈ pkts, IsSlice session s entries pkt)
    (hcover : ∀ k, s.toNat ≤ k → k < s.toNat + entries.length → k ∈ covered pkts)
    (hroom : NeverFull (new cfg) pkts) :
    Complete s entries (pkts.foldl ingest (new cfg)) ↔ FillsCleanly s.toNat ∅ pkts := by
  have hfacts : ∀ pkt ∈ pkts, FeedFacts session s entries pkt := fun pkt hpkt =>
    .slice ((hpkts pkt hpkt).facts hlt fun b hb => (hentries b hb).length_le)
  constructor
  · intro hcomplete
    by_contra hnot
    have hsync : Synced (logFrom s entries) session s (new cfg) := .new hs hsession hstart
    obtain ⟨k, hk, -⟩ := ((KeepsUp.new hstart).run hsync hfacts hroom).2 hnot
    rw [held_eq_empty_iff.mpr hcomplete.pending] at hk
    exact hk
  · exact complete_of_fillsCleanly hs hentries hlt hsession hstart hfacts hcover hroom

/-! ## A stuck feed -/

/-- An encoded delete. -/
def deleteBody : Bytes :=
  0x44 :: List.replicate 18 0

/-- A packet of `count` deletes from `sequence` on. -/
def deletes (sequence : UInt64) (count : Nat) : MoldPacket :=
  { header := ⟨Vector.replicate 10 0x41, sequence, UInt16.ofNat count⟩
    blocks := List.replicate count ⟨deleteBody⟩ }

def fromOne : MoldConfig :=
  { session := some (Vector.replicate 10 0x41), startSequence := 1, maxPendingMessages := 8
    pendingOverflow := .dropOldest }

theorem isEncoded_deleteBody : IsEncoded deleteBody :=
  ⟨.orderDelete { header := ⟨0, 0, 0⟩, orderRef := 0 }, by decide +kernel⟩

theorem isEncoded_deletes : ∀ b ∈ List.replicate 4 deleteBody, IsEncoded b := by
  intro b hb
  rw [List.eq_of_mem_replicate hb]
  exact isEncoded_deleteBody

/-- Blocks 3 and 4 come first, and then a packet of blocks 1 and 2 fills the hole. -/
theorem complete_iff_fillsCleanly_deletes :
    NeverFull (new fromOne) [deletes 3 2, deletes 1 2] ∧
    Complete 1 (List.replicate 4 deleteBody)
      ([deletes 3 2, deletes 1 2].foldl ingest (new fromOne)) := by
  have hroom : NeverFull (new fromOne) [deletes 3 2, deletes 1 2] := by
    intro before hbefore
    revert before
    simp only [← List.mem_inits]
    decide +kernel
  refine ⟨hroom, ?_⟩
  refine (complete_iff_fillsCleanly 1 (by decide) _ isEncoded_deletes (by decide)
    (Vector.replicate 10 0x41) fromOne (.inr rfl) rfl _ ?_ ?_ hroom).mpr ?_
  · intro pkt hpkt
    simp only [List.mem_cons, List.not_mem_nil, or_false] at hpkt
    rcases hpkt with rfl | rfl
    · exact ⟨2, 2, by decide, by decide, by decide +kernel⟩
    · exact ⟨0, 2, by decide, by decide, by decide +kernel⟩
  · intro k hk hk'
    have hlt : k < 5 := hk'
    rw [mem_covered_cons, mem_covered_cons]
    by_cases h : k < 3
    · exact .inr (.inl ⟨hk, h⟩)
    · exact .inl ⟨Nat.le_of_not_lt h, hlt⟩
  · refine ⟨fun _ _ _ _ _ _ => id, fun _ _ _ k hk _ hseen => ?_, trivial⟩
    have hlt : k < 3 := hk.2
    rcases hseen with hseen | hseen
    · exact hseen
    · exact absurd hseen.1 (Nat.not_le.mpr hlt)

/-- Blocks 3 and 4 come first, and then a packet of blocks 1 to 3 fills the hole.  The
packets cover the log, but blocks 3 and 4 stay in the buffer and block 4 is never
delivered. -/
theorem overlap_gets_stuck :
    (∀ b ∈ List.replicate 4 deleteBody, IsEncoded b) ∧
    (∀ pkt ∈ [deletes 3 2, deletes 1 3],
      IsSlice (Vector.replicate 10 0x41) 1 (List.replicate 4 deleteBody) pkt) ∧
    (∀ k, 1 ≤ k → k < 1 + 4 → k ∈ covered [deletes 3 2, deletes 1 3]) ∧
    NeverFull (new fromOne) [deletes 3 2, deletes 1 3] ∧
    ([deletes 3 2, deletes 1 3].foldl ingest (new fromOne)).nextExpected = 4 ∧
    ([deletes 3 2, deletes 1 3].foldl ingest (new fromOne)).pending.keys = [3, 4] ∧
    ¬ Complete 1 (List.replicate 4 deleteBody)
      ([deletes 3 2, deletes 1 3].foldl ingest (new fromOne)) := by
  have hnext : ([deletes 3 2, deletes 1 3].foldl ingest (new fromOne)).nextExpected = 4 := by
    decide +kernel
  refine ⟨isEncoded_deletes, ?_, ?_, ?_, hnext, by decide +kernel, ?_⟩
  · intro pkt hpkt
    simp only [List.mem_cons, List.not_mem_nil, or_false] at hpkt
    rcases hpkt with rfl | rfl
    · exact ⟨2, 2, by decide, by decide, by decide +kernel⟩
    · exact ⟨0, 3, by decide, by decide, by decide +kernel⟩
  · intro k hk hk'
    rw [mem_covered_cons, mem_covered_cons]
    by_cases h : k < 4
    · exact .inr (.inl ⟨hk, h⟩)
    · exact .inl ⟨(by decide : 3 ≤ 4).trans (Nat.le_of_not_lt h), hk'⟩
  · intro before hbefore
    revert before
    simp only [← List.mem_inits]
    decide +kernel
  · intro hcomplete
    have hend := hcomplete.nextExpected
    rw [hnext] at hend
    exact absurd hend (by decide)

end ReceiverState

end Itch
