import Itch.Mold.Overflow

/-!
# A receiver that holds back nothing it has reached

Blocks are flushed from the front of the buffer, so a block that the cursor has passed stays in
front of it and nothing behind it is flushed any more.  `Orderly` says that no block is of that
kind.  Only one thing breaks it: a packet that reaches the cursor and runs into what is held back
(`Meshes` says that a packet does not).  A packet of one block never does.

A number is lacking if it lies below something held back and was neither delivered nor held back
itself.  A packet that reaches the cursor only takes lacking numbers away (`lacks_of_ingest`), and
so does one that comes ahead and starts no higher than right behind a held block
(`lacks_of_ahead`).
-/

namespace Itch

open Lib

namespace ReceiverState

variable {r r' : ReceiverState} {pkt : MoldPacket} {seq : UInt64} {k : Nat}

/-- Every block held back is above the cursor and can be delivered. -/
structure Orderly (r : ReceiverState) : Prop where
  above : ∀ seq ∈ r.pending, r.nextExpected < seq
  fits : ∀ (seq : UInt64) (body : Bytes), r.pending[seq]? = some body → body.length ≤ maxBlockLen
  width : ∀ seq ∈ r.pending, seq.toNat + 1 < 2 ^ 64
  fresh : r.bootstrapped = false → r.nextExpected = r.startSequence ∧ r.pending = ∅

/-- A data packet of the session that comes ahead of the cursor does not come around, and one
that does not come ahead ends below every block that is held back. -/
structure Meshes (r : ReceiverState) (pkt : MoldPacket) : Prop where
  width : r.Ahead pkt → pkt.header.sequence.toNat + pkt.blocks.length < 2 ^ 64
  apart : r.session = none ∨ r.session = some pkt.header.session →
    pkt.header.sequence ≤ r.cursor pkt →
    ∀ seq ∈ r.pending, pkt.header.sequence.toNat + pkt.blocks.length ≤ seq.toNat

/-- A number below something held back that was neither delivered nor held back. -/
def Lacks (r : ReceiverState) (k : Nat) : Prop :=
  r.nextExpected.toNat ≤ k ∧ k ∉ r.held ∧ ∃ seq ∈ r.pending, k < seq.toNat

namespace Orderly

theorem new (cfg : MoldConfig) : (new cfg).Orderly where
  above := fun _ hmem => absurd hmem Std.ExtTreeMap.not_mem_empty
  fits := fun _ _ hbody => absurd (FinMap.mem_of_get hbody) Std.ExtTreeMap.not_mem_empty
  width := fun _ hmem => absurd hmem Std.ExtTreeMap.not_mem_empty
  fresh := fun _ => ⟨rfl, rfl⟩

theorem quiet {outbox : List (Except MoldError MoldEvent)} {eos : Bool} (h : r.Orderly) :
    Orderly { r with outbox := outbox, eos := eos } :=
  { h with }

theorem nextExpected_notMem (h : r.Orderly) : r.nextExpected ∉ r.pending := fun hmem =>
  absurd (Word64.lt_iff.mp (h.above _ hmem)) (Nat.lt_irrefl _)

/-- What is held back is a log of its own. -/
theorem exists_log (h : r.Orderly) : ∃ log, HoldsLog log r := by
  refine ⟨fun n => (r.pending[UInt64.ofNat n]?).getD [], fun seq body hbody => ?_⟩
  refine ⟨?_, h.fits seq body hbody, h.width seq (FinMap.mem_of_get hbody)⟩
  rw [UInt64.ofNat_toNat, hbody, Option.getD_some]

/-- Where a packet finds the cursor. -/
theorem opening (h : r.Orderly) (pkt : MoldPacket) :
    (r.opening pkt).Orderly ∧ r.nextExpected.toNat ≤ (r.cursor pkt).toNat := by
  unfold cursor ReceiverState.opening bootstrap
  split
  next hboot =>
    exact ⟨{ h with fresh := fun hfresh => absurd (hboot.symm.trans hfresh) (by decide) }, le_rfl⟩
  next hboot =>
    obtain ⟨hnext, hempty⟩ := h.fresh (Bool.eq_false_iff.mpr hboot)
    have hnone : ∀ seq, seq ∉ r.pending := fun seq hmem =>
      Std.ExtTreeMap.not_mem_empty (hempty ▸ hmem)
    split
    next hzero =>
      refine ⟨{ h with above := fun seq hmem => absurd hmem (hnone seq), fresh := ?_ }, ?_⟩
      · intro hfresh
        cases hfresh
      · rw [hnext, hzero]
        exact Nat.zero_le _
    next =>
      refine ⟨{ h with fresh := ?_ }, le_rfl⟩
      intro hfresh
      cases hfresh

/-! ## Packets that come ahead -/

theorem joined {kept : FinMap UInt64 Bytes} {data : Bytes} {drops : UInt64} (h : r.Orderly)
    (hboot : r.bootstrapped = true) (hlt : r.nextExpected < seq) (hwidth : seq.toNat + 1 < 2 ^ 64)
    (hfits : data.length ≤ maxBlockLen)
    (hkept : ∀ (k : UInt64) (body : Bytes), kept[k]? = some body → r.pending[k]? = some body) :
    Orderly { r with pending := kept.insert seq data, overflowDrops := drops } := by
  have hmem : ∀ k ∈ kept, k ∈ r.pending := fun k hk => by
    obtain ⟨body, hbody⟩ := FinMap.mem_iff_get.mp hk
    exact FinMap.mem_of_get (hkept k body hbody)
  refine ⟨fun k hk => ?_, fun k body hk => ?_, fun k hk => ?_,
    fun hfresh => absurd (hboot.symm.trans hfresh) (by decide)⟩
  · rcases FinMap.mem_insert_iff.mp hk with rfl | hold
    · exact hlt
    · exact h.above k (hmem k hold)
  · rw [FinMap.get_insert] at hk
    split at hk
    next =>
      cases hk
      exact hfits
    next => exact h.fits k body (hkept k body hk)
  · rcases FinMap.mem_insert_iff.mp hk with rfl | hold
    · exact hwidth
    · exact h.width k (hmem k hold)

theorem stashed {data : Bytes} (h : r.Orderly) (hboot : r.bootstrapped = true)
    (hlt : r.nextExpected < seq) (hwidth : seq.toNat + 1 < 2 ^ 64)
    (hfits : data.length ≤ maxBlockLen) (hs : Stashed r seq data r') : r'.Orderly := by
  cases hs with
  | held => exact h
  | added => exact h.joined hboot hlt hwidth hfits fun _ _ hk => hk
  | evicted =>
      refine h.joined hboot hlt hwidth hfits fun k body hk => ?_
      rw [FinMap.get_erase] at hk
      split at hk
      next => cases hk
      next => exact hk
  | refused => exact { h with }

theorem stash {entries : List (UInt64 × Bytes)} (h : r.Orderly) (hboot : r.bootstrapped = true)
    (hentries : ∀ e ∈ entries,
      r.nextExpected < e.1 ∧ e.1.toNat + 1 < 2 ^ 64 ∧ e.2.length ≤ maxBlockLen) :
    (entries.foldl (fun r entry => r.stashPending entry.1 entry.2) r).Orderly := by
  induction entries generalizing r with
  | nil => exact h
  | cons entry entries ih =>
      have hs := ReceiverState.stashed r entry.1 entry.2
      obtain ⟨hnext, -, hboot'⟩ := hs.frame
      obtain ⟨hlt, hwidth, hfits⟩ := hentries entry List.mem_cons_self
      refine ih (h.stashed hboot hlt hwidth hfits hs) (hboot'.trans hboot) fun e he => ?_
      rw [hnext]
      exact hentries e (List.mem_cons_of_mem entry he)

end Orderly

theorem toNat_of_mem_numbered {firstSeq : UInt64} {blocks : List MessageBlock}
    {entry : UInt64 × Bytes} (hwidth : firstSeq.toNat + blocks.length < 2 ^ 64)
    (h : entry ∈ numbered firstSeq blocks) :
    firstSeq.toNat ≤ entry.1.toNat ∧ entry.1.toNat < firstSeq.toNat + blocks.length := by
  obtain ⟨⟨b, i⟩, hb, rfl⟩ := List.mem_map.mp h
  have hi : i < blocks.length := by simpa using List.snd_lt_of_mem_zipIdx hb
  dsimp only
  rw [Word64.toNat_add (by omega)]
  omega

theorem exists_mem_numbered {firstSeq : UInt64} {blocks : List MessageBlock}
    (hwidth : firstSeq.toNat + blocks.length < 2 ^ 64) (hle : firstSeq.toNat ≤ k)
    (hlt : k < firstSeq.toNat + blocks.length) :
    ∃ entry ∈ numbered firstSeq blocks, entry.1.toNat = k := by
  have hi : k - firstSeq.toNat < blocks.length := by omega
  refine ⟨_, List.mem_map_of_mem (List.mk_mem_zipIdx_iff_getElem?.mpr
    (List.getElem?_eq_getElem hi)), ?_⟩
  dsimp only
  rw [Word64.toNat_add (by omega)]
  omega

/-- Blocks that find room join what is held. -/
theorem held_stash_of_room {entries : List (UInt64 × Bytes)}
    (hroom : r.pending.size + entries.length ≤ r.maxPending) :
    (entries.foldl (fun r entry => r.stashPending entry.1 entry.2) r).held =
      r.held ∪ { k | ∃ e ∈ entries, e.1.toNat = k } := by
  induction entries generalizing r with
  | nil => simp
  | cons entry entries ih =>
      rw [List.length_cons] at hroom
      have hs := stashed r entry.1 entry.2
      rw [List.foldl_cons]
      generalize r.stashPending entry.1 entry.2 = r' at hs ⊢
      -- with room for the rest, the block joins what is held or is there already
      have hturn : r'.pending.size ≤ r.pending.size + 1 ∧ r'.maxPending = r.maxPending ∧
          r'.held = r.held ∪ {entry.1.toNat} := by
        cases hs with
        | held hmem =>
            refine ⟨Nat.le_succ _, rfl, ?_⟩
            exact (Set.union_eq_left.mpr (Set.singleton_subset_iff.mpr (mem_held.mpr hmem))).symm
        | added hnew =>
            refine ⟨(FinMap.size_insert_of_not_mem hnew).le, rfl, ?_⟩
            ext k
            constructor
            · rintro ⟨seq, hseq, rfl⟩
              rcases FinMap.mem_insert_iff.mp hseq with rfl | hmem
              · exact .inr rfl
              · exact .inl (mem_held.mpr hmem)
            · rintro (⟨seq, hseq, rfl⟩ | rfl)
              · exact mem_held.mpr (FinMap.mem_insert_iff.mpr (.inr hseq))
              · exact mem_held.mpr (FinMap.mem_insert_iff.mpr (.inl rfl))
        | evicted _ hfull => omega
        | refused hfull => omega
      obtain ⟨hsize, hmax, hheld⟩ := hturn
      rw [ih (by omega), hheld, Set.union_assoc]
      congr 1
      ext k
      simp [eq_comm]

/-- What lacks after a packet ahead of the cursor that finds room: it is below the packet, or
below what was held back before. -/
theorem lacks_of_ahead (hahead : r.Ahead pkt)
    (hwidth : pkt.header.sequence.toNat + pkt.blocks.length < 2 ^ 64)
    (hroom : r.pending.size + pkt.blocks.length ≤ r.maxPending) (hk : (r.ingest pkt).Lacks k) :
    (r.cursor pkt).toNat ≤ k ∧ k ∉ r.held ∧
      (k < pkt.header.sequence.toNat ∨ ∃ seq ∈ r.pending, k < seq.toNat) := by
  obtain ⟨hle, hnot, seq, hseq, hlt⟩ := hk
  rw [(ingest_of_ahead hahead).1] at hle
  have hmem : seq.toNat ∈ (r.ingest pkt).held := mem_held.mpr hseq
  have hheld : (r.ingest pkt).held = r.held ∪
      { k | ∃ e ∈ numbered pkt.header.sequence pkt.blocks, e.1.toNat = k } := by
    rw [ingest_eq_stash hahead, held_stash_of_room]
    · unfold held push
      rw [pending_opening]
    · rw [length_numbered]
      have hmax : (r.opening pkt).maxPending = r.maxPending := by
        unfold opening
        rcases bootstrap_cases r pkt.header.sequence with heq | heq | heq
        all_goals rw [heq]
      show (r.opening pkt).pending.size + _ ≤ (r.opening pkt).maxPending
      rw [pending_opening, hmax]
      exact hroom
  rw [hheld] at hnot hmem
  refine ⟨hle, fun hk => hnot (.inl hk), ?_⟩
  rcases hmem with hold | ⟨e, he, heq⟩
  · exact .inr ⟨seq, mem_held.mp hold, hlt⟩
  · refine .inl (Nat.lt_of_not_le fun hfirst => hnot (.inr ?_))
    have hlast := (toNat_of_mem_numbered hwidth he).2
    exact exists_mem_numbered hwidth hfirst (by omega)

/-! ## Packets that reach the cursor -/

theorem cursor_lt_end (hpkt : pkt.Received)
    (hlate : ¬ pkt.header.sequence + UInt64.ofNat pkt.blocks.length ≤ r.cursor pkt)
    (hnot : ¬ r.cursor pkt < pkt.header.sequence) :
    (r.cursor pkt).toNat < pkt.header.sequence.toNat + pkt.blocks.length := by
  rw [← Word64.toNat_add (width_of_current hpkt.length_lt hlate hnot)]
  exact Nat.lt_of_not_le (mt Word64.le_iff.mpr hlate)

/-- The cursor comes to the first number behind the packet that is not held back, and the blocks
above it stay. -/
theorem Orderly.current (h : r.Orderly) (hpkt : pkt.Received) (hmesh : r.Meshes pkt)
    (hsession : r.session = none ∨ r.session = some pkt.header.session)
    (hlate : ¬ pkt.header.sequence + UInt64.ofNat pkt.blocks.length ≤ r.cursor pkt)
    (hnot : ¬ r.cursor pkt < pkt.header.sequence)
    (hr' : r' = ((numbered pkt.header.sequence pkt.blocks).foldl deliverNew
      (r.opening pkt)).flushPending) :
    r'.Orderly ∧
      IsFirstMissing r.held (pkt.header.sequence.toNat + pkt.blocks.length)
        r'.nextExpected.toNat ∧
      r'.held = { k ∈ r.held | r'.nextExpected.toNat < k } ∧
      r'.session = some pkt.header.session := by
  have hwidth := width_of_current hpkt.length_lt hlate hnot
  have hle : pkt.header.sequence ≤ r.cursor pkt :=
    Word64.le_iff.mpr (Nat.le_of_not_lt (mt Word64.lt_iff.mpr hnot))
  have hnext := deliverNew_blocks hpkt.fits hwidth (Word64.le_iff.mp hle)
  rw [show (r.opening pkt).nextExpected = r.cursor pkt from rfl,
    Nat.max_eq_right (cursor_lt_end hpkt hlate hnot).le] at hnext
  obtain ⟨next, outbox, heq⟩ :=
    deliverNew_frame (numbered pkt.header.sequence pkt.blocks) (r.opening pkt)
  rw [heq] at hnext hr'
  obtain ⟨log, hlog⟩ := (h.opening pkt).1.exists_log
  -- flushing starts behind the packet, with everything held back above
  have hheld : held { r.opening pkt with nextExpected := next, outbox := outbox } = r.held := by
    unfold held
    dsimp only
    rw [pending_opening]
  have hlog' : HoldsLog log { r.opening pkt with nextExpected := next, outbox := outbox } := hlog
  obtain ⟨hmiss, hrest⟩ := flushLoop_spec hlog' le_rfl (by
    rw [hheld]
    rintro k ⟨seq, hseq, rfl⟩
    rw [hnext]
    exact hmesh.apart hsession hle seq hseq)
  have hadv := advances_flushPending hlog'
  rw [hheld, hnext] at hmiss
  rw [hheld] at hrest
  rw [← flushPending, ← hr'] at hmiss hrest
  rw [← hr'] at hadv
  refine ⟨⟨fun seq hseq => ?_, fun seq body hbody => (hadv.holds seq body hbody).fits,
    fun seq hseq => ?_, fun hfresh => ?_⟩, hmiss, hrest, hadv.session⟩
  · have hmem : seq.toNat ∈ r'.held := mem_held.mpr hseq
    rw [hrest] at hmem
    exact Word64.lt_iff.mpr hmem.2
  · obtain ⟨body, hbody⟩ := FinMap.mem_iff_get.mp hseq
    exact (hadv.holds seq body hbody).lt
  · have hboot := hadv.bootstrapped (bootstrapped_opening r pkt)
    rw [hfresh] at hboot
    cases hboot

/-! ## Any packet -/

/-- A packet leaves the receiver orderly and its cursor no lower. -/
theorem Orderly.ingest (h : r.Orderly) (hpkt : pkt.Received) (hmesh : r.Meshes pkt) :
    (r.ingest pkt).Orderly ∧ r.nextExpected.toNat ≤ (r.ingest pkt).nextExpected.toNat := by
  obtain ⟨hopening, hcursor⟩ := h.opening pkt
  by_cases hahead : r.Ahead pkt
  · have hwidth := hmesh.width hahead
    refine ⟨?_, (ingest_of_ahead hahead).1 ▸ hcursor⟩
    rw [ingest_eq_stash hahead]
    refine Orderly.stash hopening.quiet (bootstrapped_opening r pkt) fun e he => ?_
    obtain ⟨hfirst, hlast⟩ := toNat_of_mem_numbered hwidth he
    exact ⟨Word64.lt_iff.mpr ((Word64.lt_iff.mp hahead.lt).trans_le hfirst), by omega,
      fits_numbered hpkt.fits e he⟩
  · by_cases hsession : r.session = none ∨ r.session = some pkt.header.session
    · have hi := ingested hahead
      generalize hr' : r.ingest pkt = r' at hi ⊢
      cases hi with
      | foreign => exact ⟨h.quiet, le_rfl⟩
      | heartbeat => exact ⟨hopening.quiet, hcursor⟩
      | endOfSession => exact ⟨hopening.quiet, hcursor⟩
      | late => exact ⟨hopening, hcursor⟩
      | current hlate hnot =>
          obtain ⟨horderly, hmiss, -⟩ := h.current hpkt hmesh hsession hlate hnot rfl
          exact ⟨horderly, hcursor.trans ((cursor_lt_end hpkt hlate hnot).le.trans hmiss.le)⟩
    · obtain ⟨err, heq⟩ := ingest_of_other_session hsession
      rw [heq]
      exact ⟨h.quiet, le_rfl⟩

/-- A packet that does not come ahead takes lacking numbers away and adds none. -/
theorem lacks_of_ingest (h : r.Orderly) (hpkt : pkt.Received) (hmesh : r.Meshes pkt)
    (hahead : ¬ r.Ahead pkt) (hk : (r.ingest pkt).Lacks k) : r.Lacks k := by
  have hcursor := (h.opening pkt).2
  -- the cursor is no lower and the same blocks are held back
  have hquiet : ∀ r' : ReceiverState, r'.pending = r.pending →
      r.nextExpected.toNat ≤ r'.nextExpected.toNat → r'.Lacks k → r.Lacks k := by
    rintro r' hpending hle ⟨hnext, hnot, hbelow⟩
    unfold held at hnot
    rw [hpending] at hnot hbelow
    exact ⟨hle.trans hnext, hnot, hbelow⟩
  by_cases hsession : r.session = none ∨ r.session = some pkt.header.session
  · have hi := ingested hahead
    generalize r.ingest pkt = r' at hi hk
    cases hi with
    | foreign => exact hquiet _ rfl le_rfl hk
    | heartbeat => exact hquiet _ (pending_opening r pkt) hcursor hk
    | endOfSession => exact hquiet _ (pending_opening r pkt) hcursor hk
    | late => exact hquiet _ (pending_opening r pkt) hcursor hk
    | current hlate hnot =>
        obtain ⟨-, hmiss, hheld, -⟩ := h.current hpkt hmesh hsession hlate hnot rfl
        obtain ⟨hle, hout, seq, hseq, hlt⟩ := hk
        have hmem := mem_held.mpr hseq
        rw [hheld] at hout hmem
        refine ⟨?_, fun hk => ?_, seq, mem_held.mp hmem.1, hlt⟩
        · have hpast := cursor_lt_end hpkt hlate hnot
          have hfirst := hmiss.le
          omega
        · rcases Nat.eq_or_lt_of_le hle with heq | habove
          · exact hmiss.not_mem (heq ▸ hk)
          · exact hout ⟨hk, habove⟩
  · obtain ⟨err, heq⟩ := ingest_of_other_session hsession
    rw [heq] at hk
    exact hquiet _ rfl le_rfl hk

/-- A data packet of the session that reaches the cursor takes it past its blocks. -/
theorem Orderly.ingest_data (h : r.Orderly) (hpkt : pkt.Received) (hmesh : r.Meshes pkt)
    (hsession : r.session = none ∨ r.session = some pkt.header.session)
    (hheartbeat : pkt.header.isHeartbeat = false) (hend : pkt.header.isEndOfSession = false)
    (hle : pkt.header.sequence ≤ r.cursor pkt)
    (hwidth : pkt.header.sequence.toNat + pkt.blocks.length < 2 ^ 64) :
    pkt.header.sequence.toNat + pkt.blocks.length ≤ (r.ingest pkt).nextExpected.toNat ∧
      (r.ingest pkt).session = some pkt.header.session := by
  have hnot : ¬ r.cursor pkt < pkt.header.sequence := fun hlt =>
    absurd (Word64.le_iff.mp hle) (Nat.not_le.mpr (Word64.lt_iff.mp hlt))
  have hdata : r.ingest pkt = (r.opening pkt).ingestData pkt := by
    rw [ingest_of_session hsession, ingestBootstrapped,
      if_neg (Bool.eq_false_iff.mp hheartbeat), if_neg (Bool.eq_false_iff.mp hend)]
  by_cases hlate : pkt.header.sequence + UInt64.ofNat pkt.blocks.length ≤ r.cursor pkt
  · have hlate' : r.ingest pkt = r.opening pkt := hdata.trans (if_pos hlate)
    rw [hlate']
    rw [Word64.le_iff, Word64.toNat_add hwidth] at hlate
    exact ⟨hlate, rfl⟩
  · obtain ⟨-, hmiss, -, hopened⟩ :=
      h.current hpkt hmesh hsession hlate hnot (hdata.trans ((if_neg hlate).trans (if_neg hnot)))
    exact ⟨hmiss.le, hopened⟩

theorem Orderly.lacks_of_hole (h : r.Orderly) (hseq : seq ∈ r.pending) :
    r.Lacks r.nextExpected.toNat := by
  refine ⟨le_rfl, fun hmem => h.nextExpected_notMem (mem_held.mp hmem), seq, hseq, ?_⟩
  exact Word64.lt_iff.mp (h.above seq hseq)

/-! ## Packets of one block -/

/-- A packet of one block that comes ahead does not come around, and one that does not ends below
everything above the cursor. -/
theorem Orderly.meshes_of_single (h : r.Orderly) (hlen : pkt.blocks.length = 1) :
    r.Meshes pkt where
  width hahead := by
    have hlate := hahead.late
    rw [hlen, Word64.le_iff] at hlate
    by_contra hwidth
    have hmax : pkt.header.sequence = Word64.max := by
      by_contra hne
      exact hwidth (hlen ▸ Word64.succ_lt_of_ne_max hne)
    rw [hmax] at hlate
    exact hlate (Nat.zero_le _)
  apart _ hle seq hseq := by
    have habove := h.above seq hseq
    have hopening := (h.opening pkt).1.above seq ((pending_opening r pkt).symm ▸ hseq)
    rw [Word64.lt_iff] at hopening
    rw [Word64.le_iff] at hle
    have hcursor : (r.cursor pkt).toNat = (r.opening pkt).nextExpected.toNat := rfl
    rw [hlen]
    omega

end ReceiverState

end Itch
