import Itch.Mold.Checked

/-!
# What the pending buffer loses

The buffer of blocks that came too early is bounded, and a block it loses is counted.
What can happen to a block is listed by `Stashed`, and what can happen to a packet by
`Ingested`.

The count and the cursor are words, so over an unbounded feed both come around.  The losses
are accounted for as long as the feed holds fewer blocks than there are words, up to the most
blocks a packet can hold: the invariant `Accounts` compares both with the number of blocks
seen.  It needs no assumption on the sequence numbers, although a block with the largest one
can be held back: the cursor is then far away from it.
-/

namespace Itch

open Lib

/-- A packet that reaches the receiver: decoded from a datagram, or made from a frame of a
retransmission. -/
def MoldPacket.Received (pkt : MoldPacket) : Prop :=
  (∃ datagram, decode datagram = .ok pkt) ∨
    ∃ (session : Vector UInt8 10) (f : CachedFrame), f.packet session = .ok pkt

theorem MoldPacket.Received.fits {pkt : MoldPacket} (h : pkt.Received) : pkt.BlocksFit := by
  rcases h with ⟨datagram, hdecode⟩ | ⟨session, f, hpacket⟩
  · exact decode_fit hdecode
  · obtain ⟨block, hblock, hdata⟩ := bind_eq_ok.mp hpacket
    obtain ⟨-, -, hblocks, -⟩ := newData_eq_ok hdata
    obtain ⟨hbody, hfits⟩ := MessageBlock.new_eq_ok hblock
    intro b hb
    rw [hblocks, List.mem_singleton] at hb
    rwa [hb, hbody]

theorem MoldPacket.Received.length_lt {pkt : MoldPacket} (h : pkt.Received) :
    pkt.blocks.length < 2 ^ 16 := by
  rcases h with ⟨datagram, hdecode⟩ | ⟨session, f, hpacket⟩
  · cases (decode_eq_ok.mp hdecode).1 with
    | data session sequence hlen => exact Nat.lt_of_le_of_lt hlen (by decide)
    | heartbeat => exact Nat.zero_lt_succ _
    | endOfSession => exact Nat.zero_lt_succ _
  · obtain ⟨block, -, hdata⟩ := bind_eq_ok.mp hpacket
    obtain ⟨-, -, hblocks, -⟩ := newData_eq_ok hdata
    rw [hblocks, List.length_singleton]
    exact Nat.one_lt_two_pow (by decide)

namespace ReceiverState

variable {r r' : ReceiverState} {pkt : MoldPacket} {seq : UInt64} {data : Bytes}

/-! ## What delivering leaves alone -/

theorem deliver_frame (r : ReceiverState) (seq : UInt64) (body : Bytes) :
    ∃ next outbox, r.deliver seq body = { r with nextExpected := next, outbox := outbox } := by
  unfold deliver
  split
  next => exact ⟨_, _, rfl⟩
  next =>
    split
    next => exact ⟨_, _, rfl⟩
    next => exact ⟨_, _, rfl⟩

theorem deliverNew_frame (entries : List (UInt64 × Bytes)) (r : ReceiverState) :
    ∃ next outbox,
      entries.foldl deliverNew r = { r with nextExpected := next, outbox := outbox } := by
  induction entries generalizing r with
  | nil => exact ⟨_, _, rfl⟩
  | cons entry entries ih =>
      have hturn : ∃ next outbox,
          r.deliverNew entry = { r with nextExpected := next, outbox := outbox } := by
        unfold deliverNew
        split
        next => exact ⟨_, _, rfl⟩
        next => exact deliver_frame r _ _
      obtain ⟨next, outbox, heq⟩ := hturn
      obtain ⟨next', outbox', heq'⟩ := ih (r.deliverNew entry)
      rw [List.foldl_cons, heq', heq]
      exact ⟨_, _, rfl⟩

theorem flushLoop_frame (fuel : Nat) (r : ReceiverState) :
    ∃ next outbox pending, pending.size ≤ r.pending.size ∧
      flushLoop fuel r =
        { r with nextExpected := next, outbox := outbox, pending := pending } := by
  induction fuel generalizing r with
  | zero => exact ⟨_, _, _, le_rfl, rfl⟩
  | succ fuel ih =>
      rw [flushLoop]
      split
      next seq body _ =>
        split
        next => exact ⟨_, _, _, le_rfl, rfl⟩
        next =>
          obtain ⟨next, outbox, heq⟩ :=
            deliver_frame { r with pending := r.pending.erase seq } seq body
          rw [heq]
          obtain ⟨next', outbox', pending, hsize, heq'⟩ := ih
            { r with pending := r.pending.erase seq, nextExpected := next, outbox := outbox }
          rw [heq']
          exact ⟨_, _, _, hsize.trans Std.ExtTreeMap.size_erase_le, rfl⟩
      next => exact ⟨_, _, _, le_rfl, rfl⟩

/-! ## The buffer is bounded -/

/-- The buffer keeps to its cap; with a cap of zero it still holds the last block. -/
def Bounded (cap : Nat) (r : ReceiverState) : Prop :=
  r.maxPending = cap ∧ r.pending.size ≤ max 1 cap

variable {cap : Nat}

theorem Bounded.opening (h : r.Bounded cap) : (r.opening pkt).Bounded cap := by
  unfold ReceiverState.opening
  rcases bootstrap_cases r pkt.header.sequence with heq | heq | heq
  all_goals
    rw [heq]
    exact h

theorem Stashed.bounded (hs : Stashed r seq data r') (h : r.Bounded cap) : r'.Bounded cap := by
  obtain ⟨hmax, hsize⟩ := h
  cases hs with
  | held => exact ⟨hmax, hsize⟩
  | added hnew hroom =>
      refine ⟨hmax, ?_⟩
      dsimp only
      rw [FinMap.size_insert_of_not_mem hnew]
      omega
  | evicted hnew _ hold => exact ⟨hmax, (size_evict hnew hold).le.trans hsize⟩
  | refused => exact ⟨hmax, hsize⟩

theorem Bounded.stash (entries : List (UInt64 × Bytes)) (h : r.Bounded cap) :
    (entries.foldl (fun r entry => r.stashPending entry.1 entry.2) r).Bounded cap := by
  induction entries generalizing r with
  | nil => exact h
  | cons entry entries ih => exact ih ((stashed r entry.1 entry.2).bounded h)

theorem Bounded.ingest (h : r.Bounded cap) (pkt : MoldPacket) : (r.ingest pkt).Bounded cap := by
  have hopening : (r.opening pkt).Bounded cap := h.opening
  by_cases hahead : r.Ahead pkt
  · rw [ingest_eq_stash hahead]
    exact Bounded.stash _ hopening
  have hi := ingested hahead
  generalize r.ingest pkt = r' at hi ⊢
  cases hi with
  | foreign => exact h
  | heartbeat | endOfSession | late => exact hopening
  | current =>
      obtain ⟨next, outbox, heq⟩ :=
        deliverNew_frame (numbered pkt.header.sequence pkt.blocks) (r.opening pkt)
      rw [heq, flushPending]
      obtain ⟨next', outbox', pending, hsize, heq'⟩ := flushLoop_frame
        (r.opening pkt).pending.size
        { r.opening pkt with nextExpected := next, outbox := outbox }
      rw [heq']
      exact ⟨hopening.1, hsize.trans hopening.2⟩

theorem bounded_run (pkts : List MoldPacket) (h : r.Bounded cap) :
    (pkts.foldl ingest r).Bounded cap := by
  induction pkts generalizing r with
  | nil => exact h
  | cons pkt pkts ih => exact ih (h.ingest pkt)

/-! ## Its losses are counted -/

/-- Delivered, or held back. -/
def Settled (r : ReceiverState) (seq : UInt64) : Prop :=
  seq < r.nextExpected ∨ seq ∈ r.pending

instance : Decidable (r.Settled seq) :=
  inferInstanceAs (Decidable (_ ∨ _))

/-- The numbers that are neither delivered nor held back. -/
def missing (seen : Finset UInt64) (r : ReceiverState) : Finset UInt64 :=
  seen.filter fun seq => ¬ r.Settled seq

variable {seen seen' : Finset UInt64}

theorem card_missing_le
    (h : ∀ seq ∈ seen', ¬ r'.Settled seq → seq ∈ seen ∧ ¬ r.Settled seq) :
    (missing seen' r').card ≤ (missing seen r).card := by
  refine Finset.card_le_card fun seq hseq => ?_
  obtain ⟨hseen, hnot⟩ := Finset.mem_filter.mp hseq
  exact Finset.mem_filter.mpr (h seq hseen hnot)

/-- At most one more number is missing. -/
theorem card_missing_le_succ (lost : UInt64)
    (h : ∀ seq ∈ seen', ¬ r'.Settled seq → seq = lost ∨ seq ∈ seen ∧ ¬ r.Settled seq) :
    (missing seen' r').card ≤ (missing seen r).card + 1 := by
  refine (Finset.card_le_card fun seq hseq => ?_).trans (Finset.card_insert_le lost _)
  obtain ⟨hseen, hnot⟩ := Finset.mem_filter.mp hseq
  exact Finset.mem_insert.mpr ((h seq hseen hnot).imp_right Finset.mem_filter.mpr)

/-- After `total` blocks the losses among `seen` are counted, and neither the count nor the
cursor has come around. -/
structure Accounts (total : Nat) (seen : Finset UInt64) (r : ReceiverState) : Prop where
  missing_le : (missing seen r).card ≤ r.overflowDrops.toNat
  drops_le : r.overflowDrops.toNat ≤ total
  size_le : r.pending.size ≤ total
  /-- While the largest number is held back the cursor stays away from it. -/
  top : Word64.max ∈ r.pending → r.nextExpected.toNat + r.pending.size ≤ total + 2 ^ 16
  fits : ∀ (seq : UInt64) (body : Bytes), r.pending[seq]? = some body → body.length ≤ maxBlockLen
  fresh : r.bootstrapped = false → r.nextExpected = r.startSequence ∧ r.pending = ∅

namespace Accounts

variable {total total' : Nat}

theorem mono (h : Accounts total seen r) (htotal : total ≤ total') : Accounts total' seen r where
  missing_le := h.missing_le
  drops_le := h.drops_le.trans htotal
  size_le := h.size_le.trans htotal
  top := fun hmax => (h.top hmax).trans (Nat.add_le_add_right htotal _)
  fits := h.fits
  fresh := h.fresh

theorem of_subset (h : Accounts total seen' r) (hseen : seen ⊆ seen') : Accounts total seen r :=
  { h with missing_le := (card_missing_le fun _ hmem hnot => ⟨hseen hmem, hnot⟩).trans h.missing_le }

theorem quiet {outbox : List (Except MoldError MoldEvent)} {eos : Bool}
    (h : Accounts total seen r) : Accounts total seen { r with outbox := outbox, eos := eos } :=
  { h with }

/-- The first packet may move the cursor, from zero on. -/
theorem opening (h : Accounts total seen r) (pkt : MoldPacket) :
    Accounts total seen (r.opening pkt) := by
  unfold ReceiverState.opening bootstrap
  split
  next hboot => exact { h with fresh := fun hfresh => absurd (hboot.symm.trans hfresh) nofun }
  next hboot =>
    obtain ⟨hnext, hempty⟩ := h.fresh (Bool.eq_false_iff.mpr hboot)
    have hnone : ∀ seq, seq ∉ r.pending := fun seq hmem =>
      Std.ExtTreeMap.not_mem_empty (hempty ▸ hmem)
    split
    next hzero =>
      refine { h with missing_le := ?_, top := fun hmax => absurd hmax (hnone _)
                      fresh := nofun }
      refine (card_missing_le fun seq hmem hnot => ⟨hmem, ?_⟩).trans h.missing_le
      rintro (hlt | hheld)
      · rw [hnext, hzero] at hlt
        exact absurd (Word64.lt_iff.mp hlt) (Nat.not_lt_zero _)
      · exact hnone seq hheld
    next => exact { h with fresh := nofun }

/-- A block joins what is left of the buffer. -/
theorem joined {kept : FinMap UInt64 Bytes} {drops : UInt64} (h : Accounts total seen r)
    (hboot : r.bootstrapped = true) (hfits : data.length ≤ maxBlockLen)
    (htop : seq = Word64.max → r.nextExpected.toNat < 2 ^ 16)
    (hkept : ∀ (k : UInt64) (body : Bytes), kept[k]? = some body → r.pending[k]? = some body)
    (hsize : (kept.insert seq data).size ≤ r.pending.size + 1) (hdrops : drops.toNat ≤ total + 1)
    (hmissing : (missing (insert seq seen)
      { r with pending := kept.insert seq data, overflowDrops := drops }).card ≤ drops.toNat) :
    Accounts (total + 1) (insert seq seen)
      { r with pending := kept.insert seq data, overflowDrops := drops } where
  missing_le := hmissing
  drops_le := hdrops
  size_le := hsize.trans (Nat.add_le_add_right h.size_le 1)
  top := by
    intro hmax
    have hle := h.size_le
    rcases FinMap.mem_insert_iff.mp hmax with hseq | hmem
    · have hnext := htop hseq
      dsimp only
      omega
    · obtain ⟨body, hbody⟩ := FinMap.mem_iff_get.mp hmem
      have hnext := h.top (FinMap.mem_of_get (hkept _ body hbody))
      dsimp only
      omega
  fits := by
    intro k body hbody
    rw [FinMap.get_insert] at hbody
    split at hbody
    next =>
      cases hbody
      exact hfits
    next => exact h.fits k body (hkept k body hbody)
  fresh := fun hfresh => absurd (hboot.symm.trans hfresh) nofun

/-- A block held back, evicted or refused. -/
theorem stashed (h : Accounts total seen r) (hboot : r.bootstrapped = true)
    (hs : Stashed r seq data r') (hfits : data.length ≤ maxBlockLen)
    (htop : seq = Word64.max → r.nextExpected.toNat < 2 ^ 16) (hroom : total + 1 < 2 ^ 64) :
    Accounts (total + 1) (insert seq seen) r' := by
  have hdrops := h.drops_le
  have hmissing := h.missing_le
  have hsucc : (r.overflowDrops + 1).toNat = r.overflowDrops.toNat + 1 :=
    Word64.toNat_succ (by omega)
  cases hs with
  | held hmem =>
      refine { h.mono (Nat.le_succ total) with missing_le := ?_ }
      refine (card_missing_le fun s hs hnot => ⟨?_, hnot⟩).trans hmissing
      rcases Finset.mem_insert.mp hs with rfl | hs
      · exact absurd (.inr hmem) hnot
      · exact hs
  | added hnew =>
      refine h.joined hboot hfits htop (fun _ _ => id) (FinMap.size_insert_of_not_mem hnew).le
        (hdrops.trans (Nat.le_succ total)) ?_
      refine (card_missing_le fun s hs hnot => ?_).trans hmissing
      obtain ⟨hge, hout⟩ := not_or.mp hnot
      obtain ⟨hne, hout⟩ := not_or.mp (mt FinMap.mem_insert_iff.mpr hout)
      exact ⟨(Finset.mem_insert.mp hs).resolve_left (Ne.symm hne), not_or.mpr ⟨hge, hout⟩⟩
  | @evicted oldSeq body hnew _ hold =>
      refine h.joined hboot hfits htop ?_ ((size_evict hnew hold).le.trans (Nat.le_succ _)) ?_ ?_
      · intro k body hbody
        rw [FinMap.get_erase] at hbody
        split at hbody
        next => cases hbody
        next => exact hbody
      · omega
      · -- the number evicted is the one that may be missing now
        rw [hsucc]
        refine (card_missing_le_succ oldSeq fun s hs hnot => ?_).trans
          (Nat.add_le_add_right hmissing 1)
        obtain ⟨hge, hout⟩ := not_or.mp hnot
        obtain ⟨hne, hout⟩ := not_or.mp (mt FinMap.mem_insert_iff.mpr hout)
        by_cases heq : s = oldSeq
        · exact .inl heq
        · refine .inr ⟨(Finset.mem_insert.mp hs).resolve_left (Ne.symm hne), not_or.mpr ⟨hge, ?_⟩⟩
          exact fun hmem => hout (FinMap.mem_erase_iff.mpr ⟨Ne.symm heq, hmem⟩)
  | refused =>
      refine { h.mono (Nat.le_succ total) with missing_le := ?_, drops_le := ?_ }
      · rw [hsucc]
        refine (card_missing_le_succ seq fun s hs hnot => ?_).trans
          (Nat.add_le_add_right hmissing 1)
        exact (Finset.mem_insert.mp hs).imp_right fun hs => ⟨hs, hnot⟩
      · rw [hsucc]
        omega

/-- The blocks of a packet ahead. -/
theorem stash (entries : List (UInt64 × Bytes)) (h : Accounts total seen r)
    (hboot : r.bootstrapped = true)
    (hfits : ∀ entry ∈ entries, entry.2.length ≤ maxBlockLen)
    (htop : ∀ entry ∈ entries, entry.1 = Word64.max → r.nextExpected.toNat < 2 ^ 16)
    (hroom : total + entries.length < 2 ^ 64) :
    Accounts (total + entries.length) (seen ∪ (entries.map Prod.fst).toFinset)
      (entries.foldl (fun r entry => r.stashPending entry.1 entry.2) r) := by
  induction entries generalizing total seen r with
  | nil => simpa using h
  | cons entry entries ih =>
      rw [List.length_cons] at hroom
      have hs := ReceiverState.stashed r entry.1 entry.2
      have hturn := h.stashed hboot hs
        (hfits entry List.mem_cons_self) (htop entry List.mem_cons_self) (by omega)
      have hrest := ih hturn (hs.frame.2.2.trans hboot)
        (fun e he => hfits e (List.mem_cons_of_mem entry he))
        (by
          rw [hs.frame.1]
          exact fun e he => htop e (List.mem_cons_of_mem entry he))
        (by omega)
      rw [List.map_cons, List.toFinset_cons, Finset.union_insert, ← Finset.insert_union,
        List.length_cons, Nat.add_comm entries.length, ← Nat.add_assoc]
      exact hrest

/-- The cursor moves over blocks that are delivered. -/
theorem forward {next : UInt64} {outbox : List (Except MoldError MoldEvent)} {n : Nat}
    (h : Accounts total seen r) (hboot : r.bootstrapped = true)
    (hle : r.nextExpected.toNat ≤ next.toNat) (hnext : next.toNat ≤ r.nextExpected.toNat + n) :
    Accounts (total + n) seen { r with nextExpected := next, outbox := outbox } where
  missing_le := by
    refine (card_missing_le fun s hs hnot => ⟨hs, ?_⟩).trans h.missing_le
    rintro (hlt | hmem)
    · exact hnot (.inl (Word64.lt_iff.mpr ((Word64.lt_iff.mp hlt).trans_le hle)))
    · exact hnot (.inr hmem)
  drops_le := h.drops_le.trans (Nat.le_add_right total n)
  size_le := h.size_le.trans (Nat.le_add_right total n)
  top := by
    intro hmax
    have htop := h.top hmax
    dsimp only
    omega
  fits := h.fits
  fresh := fun hfresh => absurd (hboot.symm.trans hfresh) nofun

/-- A turn of the flush. -/
theorem flushTurn {body : Bytes} {outbox : List (Except MoldError MoldEvent)}
    (h : Accounts total seen r) (hboot : r.bootstrapped = true)
    (hbody : r.pending[r.nextExpected]? = some body) (hroom : total + 2 ^ 16 < 2 ^ 64) :
    Accounts total seen
      { r with
        pending := r.pending.erase r.nextExpected
        nextExpected := r.nextExpected + 1
        outbox := outbox } := by
  have hsize := FinMap.size_erase_of_get hbody
  -- the cursor has not reached the largest number
  have hlt : r.nextExpected.toNat + 1 < 2 ^ 64 := by
    refine Word64.succ_lt_of_ne_max fun heq => ?_
    have htop := h.top (heq ▸ FinMap.mem_of_get hbody)
    rw [heq, Word64.toNat_max] at htop
    omega
  have hnext := Word64.toNat_succ hlt
  refine ⟨?_, h.drops_le, ?_, ?_, ?_, fun hfresh => absurd (hboot.symm.trans hfresh) nofun⟩
  · refine (card_missing_le fun s hs hnot => ⟨hs, ?_⟩).trans h.missing_le
    obtain ⟨hge, hout⟩ := not_or.mp hnot
    rw [Word64.lt_iff, hnext] at hge
    rintro (hlt | hmem)
    · exact hge (Nat.lt_succ_of_lt (Word64.lt_iff.mp hlt))
    · refine hout (FinMap.mem_erase_iff.mpr ⟨?_, hmem⟩)
      rintro rfl
      exact hge (Nat.lt_succ_self _)
  · have hle := h.size_le
    dsimp only
    omega
  · intro hmax
    have htop := h.top (FinMap.mem_erase_iff.mp hmax).2
    dsimp only
    omega
  · intro k body hk
    rw [FinMap.get_erase] at hk
    split at hk
    next => cases hk
    next => exact h.fits k body hk

theorem flushLoop (fuel : Nat) (h : Accounts total seen r) (hboot : r.bootstrapped = true)
    (hroom : total + 2 ^ 16 < 2 ^ 64) : Accounts total seen (flushLoop fuel r) := by
  induction fuel generalizing r with
  | zero => exact h
  | succ fuel ih =>
      rw [ReceiverState.flushLoop]
      split
      next seq body hfirst =>
        split
        next => exact h
        next heq =>
          rw [not_not] at heq
          subst heq
          have hbody := FinMap.get_of_first? hfirst
          rw [deliver_eq (h.fits _ body hbody)]
          exact ih (h.flushTurn hboot hbody hroom) hboot
      next => exact h

end Accounts

/-- The blocks of a packet at the cursor. -/
theorem deliverNew_blocks {firstSeq : UInt64} {blocks : List MessageBlock}
    (hfits : ∀ b ∈ blocks, b.data.length ≤ maxBlockLen)
    (hlt : firstSeq.toNat + blocks.length < 2 ^ 64)
    (hle : firstSeq.toNat ≤ r.nextExpected.toNat) :
    ((numbered firstSeq blocks).foldl deliverNew r).nextExpected.toNat
      = max r.nextExpected.toNat (firstSeq.toNat + blocks.length) := by
  induction blocks generalizing firstSeq r with
  | nil =>
      rw [numbered_nil, List.foldl_nil, List.length_nil]
      omega
  | cons b blocks ih =>
      rw [List.length_cons] at hlt
      have hsucc : (firstSeq + 1).toNat = firstSeq.toNat + 1 := Word64.toNat_succ (by omega)
      rw [numbered_cons, List.foldl_cons, deliverNew, List.length_cons]
      dsimp only
      have hrest := fun b' hb' => hfits b' (List.mem_cons_of_mem b hb')
      split
      next hold =>
        rw [Word64.lt_iff] at hold
        rw [ih hrest (by omega) (by omega)]
        omega
      next hnew =>
        rw [Word64.lt_iff] at hnew
        rw [deliver_eq (hfits b List.mem_cons_self), ih hrest (by omega) (by dsimp only; omega)]
        dsimp only
        omega

/-- A packet that is delivered ends below the width: one that comes around ends too low to be
delivered. -/
theorem width_of_current (hlen : pkt.blocks.length < 2 ^ 16)
    (hlate : ¬ pkt.header.sequence + UInt64.ofNat pkt.blocks.length ≤ r.cursor pkt)
    (hnot : ¬ r.cursor pkt < pkt.header.sequence) :
    pkt.header.sequence.toNat + pkt.blocks.length < 2 ^ 64 := by
  have hseq := pkt.header.sequence.toNat_lt
  rw [Word64.le_iff, UInt64.toNat_add, Word64.toNat_ofNat (by omega)] at hlate
  rw [Word64.lt_iff] at hnot
  omega

/-- A packet ahead that holds the largest number comes around, so the cursor is low. -/
theorem cursor_lt_of_max (hlen : pkt.blocks.length < 2 ^ 16) (hahead : r.Ahead pkt)
    (hmax : Word64.max ∈ (numbered pkt.header.sequence pkt.blocks).map Prod.fst) :
    (r.cursor pkt).toNat < 2 ^ 16 := by
  have hseq := pkt.header.sequence.toNat_lt
  have hlate := hahead.late
  have hover : ¬ pkt.header.sequence.toNat + pkt.blocks.length < 2 ^ 64 := fun hlt =>
    max_notMem_numbered hlt hmax
  rw [Word64.le_iff, UInt64.toNat_add, Word64.toNat_ofNat (by omega)] at hlate
  omega

instance : Decidable (r.Ahead pkt) :=
  decidable_of_iff ((r.session = none ∨ r.session = some pkt.header.session) ∧
      pkt.header.isHeartbeat = false ∧ pkt.header.isEndOfSession = false ∧
      ¬ pkt.header.sequence + UInt64.ofNat pkt.blocks.length ≤ r.cursor pkt ∧
      r.cursor pkt < pkt.header.sequence)
    ⟨fun ⟨h₁, h₂, h₃, h₄, h₅⟩ => ⟨h₁, h₂, h₃, h₄, h₅⟩,
      fun ⟨h₁, h₂, h₃, h₄, h₅⟩ => ⟨h₁, h₂, h₃, h₄, h₅⟩⟩

/-- The numbers beyond the cursor in a packet that comes ahead of it. -/
def beyond (r : ReceiverState) (pkt : MoldPacket) : Finset UInt64 :=
  if r.Ahead pkt then
    ((numbered pkt.header.sequence pkt.blocks).map Prod.fst).toFinset.filter (r.cursor pkt < ·)
  else ∅

theorem bootstrapped_opening (r : ReceiverState) (pkt : MoldPacket) :
    (r.opening pkt).bootstrapped = true := by
  unfold opening bootstrap
  split
  next hboot => exact hboot
  next =>
    split
    next => rfl
    next => rfl

theorem length_numbered (firstSeq : UInt64) (blocks : List MessageBlock) :
    (numbered firstSeq blocks).length = blocks.length := by
  rw [numbered, List.length_map, List.length_zipIdx]

theorem fits_numbered {firstSeq : UInt64} (h : pkt.BlocksFit) :
    ∀ entry ∈ numbered firstSeq pkt.blocks, entry.2.length ≤ maxBlockLen := by
  intro entry hentry
  obtain ⟨⟨b, i⟩, hb, rfl⟩ := List.mem_map.mp hentry
  exact h b (List.fst_mem_of_mem_zipIdx hb)

theorem beyond_subset (r : ReceiverState) (pkt : MoldPacket) :
    r.beyond pkt ⊆ ((numbered pkt.header.sequence pkt.blocks).map Prod.fst).toFinset := by
  unfold beyond
  split
  next => exact Finset.filter_subset _ _
  next => exact Finset.empty_subset _

theorem Accounts.ingested {total : Nat} (h : Accounts total seen r) (hpkt : pkt.Received)
    (hroom : total + pkt.blocks.length + 2 ^ 16 < 2 ^ 64) :
    Accounts (total + pkt.blocks.length) (seen ∪ r.beyond pkt) (r.ingest pkt) := by
  have hopening := h.opening pkt
  have hboot := bootstrapped_opening r pkt
  have hle : total ≤ total + pkt.blocks.length := Nat.le_add_right total _
  by_cases hahead : r.Ahead pkt
  · rw [ingest_eq_stash hahead]
    have hgap : Accounts total seen ((r.opening pkt).push
        (.ok (.gap (r.cursor pkt) (pkt.header.sequence - 1)))) := hopening.quiet
    have hstash := hgap.stash (numbered pkt.header.sequence pkt.blocks) hboot
      (fits_numbered hpkt.fits)
      (fun entry hentry heq => cursor_lt_of_max hpkt.length_lt hahead
        (heq ▸ List.mem_map_of_mem hentry))
      (by rw [length_numbered]; omega)
    rw [length_numbered] at hstash
    exact hstash.of_subset (Finset.union_subset_union_right (beyond_subset r pkt))
  · have hnone : r.beyond pkt = ∅ := if_neg hahead
    rw [hnone, Finset.union_empty]
    have hi := ReceiverState.ingested hahead
    generalize r.ingest pkt = r' at hi ⊢
    cases hi with
    | foreign => exact h.quiet.mono hle
    | heartbeat | endOfSession => exact hopening.quiet.mono hle
    | late => exact hopening.mono hle
    | current hlate hnot =>
        have hcursor : pkt.header.sequence.toNat ≤ (r.opening pkt).nextExpected.toNat :=
          Nat.le_of_not_lt (mt Word64.lt_iff.mpr hnot)
        have hnext := deliverNew_blocks hpkt.fits
          (width_of_current hpkt.length_lt hlate hnot) hcursor
        obtain ⟨next, outbox, heq⟩ :=
          deliverNew_frame (numbered pkt.header.sequence pkt.blocks) (r.opening pkt)
        rw [heq] at hnext ⊢
        dsimp only at hnext
        exact (hopening.forward hboot (by omega) (by omega)).flushLoop _ hboot hroom

/-! ## A run -/

/-- The numbers that were beyond the cursor in a packet that came ahead of it. -/
def seenBeyond : ReceiverState → List MoldPacket → Finset UInt64
  | _, [] => ∅
  | r, pkt :: pkts => r.beyond pkt ∪ seenBeyond (r.ingest pkt) pkts

/-- The blocks of a feed. -/
def blockCount (pkts : List MoldPacket) : Nat :=
  (pkts.map fun pkt => pkt.blocks.length).sum

theorem Accounts.run {total : Nat} {pkts : List MoldPacket} (h : Accounts total seen r)
    (hpkts : ∀ pkt ∈ pkts, pkt.Received) (hroom : total + blockCount pkts + 2 ^ 16 < 2 ^ 64) :
    Accounts (total + blockCount pkts) (seen ∪ seenBeyond r pkts) (pkts.foldl ingest r) := by
  induction pkts generalizing total seen r with
  | nil => simpa [blockCount, seenBeyond] using h
  | cons pkt pkts ih =>
      have hcount : blockCount (pkt :: pkts) = pkt.blocks.length + blockCount pkts := by
        simp [blockCount]
      rw [hcount, ← Nat.add_assoc] at hroom ⊢
      rw [seenBeyond, ← Finset.union_assoc]
      exact ih (h.ingested (hpkts pkt List.mem_cons_self) (by omega))
        (fun p hp => hpkts p (List.mem_cons_of_mem pkt hp)) hroom

theorem Accounts.new (cfg : MoldConfig) : Accounts 0 ∅ (new cfg) where
  missing_le := Nat.zero_le _
  drops_le := le_rfl
  size_le := le_rfl
  top := fun hmax => absurd hmax Std.ExtTreeMap.not_mem_empty
  fits := fun _ _ hbody => absurd (FinMap.mem_of_get hbody) Std.ExtTreeMap.not_mem_empty
  fresh := fun _ => ⟨rfl, rfl⟩

/-- The buffer never holds more than its cap allows, and as long as the feed holds fewer blocks
than the counters can count, the numbers that were once beyond the cursor and are neither
delivered nor held back are at most the drops. -/
theorem pending_bounded_and_accounted (cfg : MoldConfig) (pkts : List MoldPacket)
    (hpkts : ∀ pkt ∈ pkts, pkt.Received) :
    let r := pkts.foldl ingest (new cfg)
    r.pending.size ≤ max 1 cfg.maxPendingMessages ∧
      (blockCount pkts + 2 ^ 16 < 2 ^ 64 →
        (missing (seenBeyond (new cfg) pkts) r).card ≤ r.overflowDrops.toNat) := by
  intro r
  have hnew : (new cfg).Bounded cfg.maxPendingMessages := ⟨rfl, Nat.zero_le _⟩
  refine ⟨(bounded_run pkts hnew).2, fun hroom => ?_⟩
  have hrun := (Accounts.new cfg).run hpkts (by rwa [Nat.zero_add])
  rw [Finset.empty_union] at hrun
  exact hrun.missing_le

/-- Message 3 comes ahead of message 1 and is held back. -/
theorem pending_bounded_and_accounted_ahead :
    (∀ pkt ∈ [deletes 3 1], pkt.Received) ∧
    let r := [deletes 3 1].foldl ingest (new fromOne)
    r.pending.size ≤ max 1 8 ∧ (blockCount [deletes 3 1] + 2 ^ 16 < 2 ^ 64 →
      (missing (seenBeyond (new fromOne) [deletes 3 1]) r).card ≤ r.overflowDrops.toNat) := by
  have hpkts : ∀ pkt ∈ [deletes 3 1], pkt.Received := by
    intro pkt hpkt
    rw [List.mem_singleton.mp hpkt]
    exact .inl ⟨(deletes 3 1).wire, by decide +kernel⟩
  exact ⟨hpkts, pending_bounded_and_accounted fromOne _ hpkts⟩

/-! ## The count comes around -/

/-- A receiver that refuses every block that comes too early. -/
def noRoom : MoldConfig :=
  { fromOne with maxPendingMessages := 0, pendingOverflow := .error }

/-- The receiver waits for message 1 and holds nothing. -/
structure Refuses (r : ReceiverState) : Prop where
  session : r.session = some (Vector.replicate 10 0x41)
  nextExpected : r.nextExpected = 1
  startSequence : r.startSequence = 1
  pending : r.pending = ∅
  maxPending : r.maxPending = 0
  pendingOverflow : r.pendingOverflow = .error

theorem Refuses.opening (h : r.Refuses) :
    (r.opening (deletes 3 1)).Refuses ∧
      (r.opening (deletes 3 1)).overflowDrops = r.overflowDrops := by
  unfold ReceiverState.opening bootstrap
  split
  next => exact ⟨{ h with session := rfl }, rfl⟩
  next =>
    rw [if_neg (by rw [h.startSequence]; decide)]
    exact ⟨{ h with session := rfl }, rfl⟩

theorem Refuses.stashPending (h : r.Refuses) :
    (r.stashPending seq data).Refuses ∧
      (r.stashPending seq data).overflowDrops = r.overflowDrops + 1 := by
  have hnew : ¬ r.pending.contains seq = true := by
    rw [h.pending, Std.ExtTreeMap.contains_empty]
    exact Bool.false_ne_true
  unfold ReceiverState.stashPending
  rw [if_neg hnew, if_pos (by rw [h.maxPending]; exact Nat.zero_le _), h.pendingOverflow]
  exact ⟨{ h with }, rfl⟩

theorem Refuses.ahead (h : r.Refuses) : r.Ahead (deletes 3 1) ∧ r.cursor (deletes 3 1) = 1 := by
  have hcursor : r.cursor (deletes 3 1) = 1 := h.opening.1.nextExpected
  refine ⟨⟨.inr h.session, rfl, rfl, ?_, ?_⟩, hcursor⟩
  · rw [hcursor]
    decide
  · rw [hcursor]
    decide

theorem Refuses.ingest (h : r.Refuses) :
    (r.ingest (deletes 3 1)).Refuses ∧
      (r.ingest (deletes 3 1)).overflowDrops = r.overflowDrops + 1 := by
  obtain ⟨hopening, hdrops⟩ := h.opening
  have hgap : ((r.opening (deletes 3 1)).push
      (.ok (.gap (r.cursor (deletes 3 1)) (3 - 1)))).Refuses := { hopening with }
  rw [ingest_eq_stash h.ahead.1, ← hdrops]
  exact hgap.stashPending

theorem Refuses.run (n : Nat) (h : r.Refuses) :
    ((List.replicate n (deletes 3 1)).foldl ReceiverState.ingest r).Refuses ∧
      ((List.replicate n (deletes 3 1)).foldl ReceiverState.ingest r).overflowDrops
        = r.overflowDrops + UInt64.ofNat n := by
  induction n generalizing r with
  | zero => exact ⟨h, (UInt64.add_zero _).symm⟩
  | succ n ih =>
      obtain ⟨hnext, hdrops⟩ := h.ingest
      obtain ⟨hrun, hcount⟩ := ih hnext
      refine ⟨hrun, ?_⟩
      rw [List.replicate_succ, List.foldl_cons, hcount, hdrops, Nat.add_comm n 1,
        UInt64.ofNat_add, UInt64.add_assoc]
      rfl

theorem Refuses.three_missing (n : Nat) (h : r.Refuses) :
    3 ∈ missing (seenBeyond r (List.replicate (n + 1) (deletes 3 1)))
      ((List.replicate (n + 1) (deletes 3 1)).foldl ReceiverState.ingest r) := by
  obtain ⟨hrun, -⟩ := h.run (n + 1)
  refine Finset.mem_filter.mpr ⟨?_, ?_⟩
  · rw [List.replicate_succ, seenBeyond]
    refine Finset.mem_union_left _ ?_
    rw [beyond, if_pos h.ahead.1, h.ahead.2]
    decide
  · rintro (hlt | hmem)
    · rw [hrun.nextExpected] at hlt
      exact absurd hlt (by decide)
    · rw [hrun.pending] at hmem
      exact Std.ExtTreeMap.not_mem_empty hmem

/-- After as many refusals as there are words the count is back at zero, and message 3 is
missing. -/
theorem drop_count_comes_around :
    ∃ pkts : List MoldPacket, (∀ pkt ∈ pkts, pkt.Received) ∧
      let r := pkts.foldl ingest (new noRoom)
      r.overflowDrops.toNat < (missing (seenBeyond (new noRoom) pkts) r).card := by
  have hnew : (new noRoom).Refuses := ⟨rfl, rfl, rfl, rfl, rfl, rfl⟩
  obtain ⟨n, hn⟩ : ∃ n, n + 1 = 2 ^ 64 := ⟨2 ^ 64 - 1, by decide⟩
  have hzero : UInt64.ofNat (n + 1) = 0 := by
    rw [hn]
    decide
  refine ⟨List.replicate (n + 1) (deletes 3 1), ?_, ?_⟩
  · intro pkt hpkt
    rw [List.eq_of_mem_replicate hpkt]
    exact .inl ⟨(deletes 3 1).wire, by decide +kernel⟩
  · intro r
    rw [(hnew.run (n + 1)).2, hzero]
    exact Finset.card_pos.mpr ⟨3, hnew.three_missing n⟩

end ReceiverState

end Itch
