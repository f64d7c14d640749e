import Itch.Replay.Capture

/-!
# The offset of a replay

The reader is any reader with a log of its answers, so what it has handed out can be counted
beside the offset.  A read that ends with all of its bytes, or at the end of the input, adds
to the offset what it got.  One that fails after part of its bytes leaves the offset where it
was, and those bytes are never counted.
-/

namespace Itch

open Lib

namespace MessageIterator

variable {R : Type} {it : MessageIterator (Logged String R)} {n turns readTotal lost : Nat}
  {reader : Logged String R}

/-! ## One read -/

/-- The offset and what the reader has handed out, in a read of `n` bytes that has got
`readTotal` of them, after `lost` bytes that were never counted. -/
structure Counts (it : MessageIterator (Logged String R)) (n readTotal lost : Nat) : Prop where
  count : (it.offset.toNat + readTotal + lost) % 2 ^ 64 = handed it.reader.log % 2 ^ 64
  le : readTotal + lost ≤ handed it.reader.log
  midway : lost = 0 ↔ ¬ FailsMidway it.reader.log
  /-- In the middle of a read the last answer was in part, and otherwise it was not. -/
  short : (0 < readTotal ∧ readTotal < n) ↔ ∃ a ∈ it.reader.log.getLast?, Short a

/-- Between two reads. -/
def Settled (it : MessageIterator (Logged String R)) : Prop :=
  ∃ lost, it.Counts 0 0 lost

/-- From one moment between two reads to a later one; `Fails` tells what was returned in
between. -/
structure Leads (it it' : MessageIterator (Logged String R)) (Fails : ReplayError → Prop) :
    Prop where
  log : it.reader.log <+: it'.reader.log
  settled : it'.Settled
  truncated : ∀ off msg, Fails (.truncated off msg) → off = it'.offset

/-- Between two reads no read is going on. -/
theorem Counts.idle_iff : it.Counts n 0 lost ↔ it.Counts 0 0 lost := by
  constructor
  · rintro ⟨hcount, hle, hmidway, hshort⟩
    exact ⟨hcount, hle, hmidway, by simpa using hshort⟩
  · rintro ⟨hcount, hle, hmidway, hshort⟩
    exact ⟨hcount, hle, hmidway, by simpa using hshort⟩

/-- The bytes of a read are added to the offset when it ends. -/
theorem Counts.settle (h : it.Counts n readTotal lost) (hend : ¬ (0 < readTotal ∧ readTotal < n)) :
    Counts { it with offset := it.offset + UInt64.ofNat readTotal } 0 0 lost where
  count := by
    have hcount := h.count
    dsimp only
    rw [UInt64.toNat_add, UInt64.toNat_ofNat']
    omega
  le := by
    have hle := h.le
    dsimp only
    omega
  midway := h.midway
  short := by
    have hshort := h.short
    dsimp only
    rw [← hshort]
    exact iff_of_false (by omega) hend

/-- An answer with some bytes. -/
theorem Counts.answer (h : it.Counts n readTotal lost) (buf : Bytes) {got : Nat} (hpos : 0 < got)
    (hle : got ≤ n - readTotal)
    (hlog : reader.log = it.reader.log ++ [(n - readTotal, .ok got)]) :
    Counts { it with reader := reader, buf := buf } n (readTotal + got) lost where
  count := by
    have hcount := h.count
    dsimp only
    rw [hlog, handed_concat]
    simp only [Except.toOption, Option.getD_some]
    omega
  le := by
    have hle := h.le
    dsimp only
    rw [hlog, handed_concat]
    simp only [Except.toOption, Option.getD_some]
    omega
  midway := by
    dsimp only
    rw [hlog, failsMidway_concat_iff, h.midway]
    simp
  short := by
    dsimp only
    rw [hlog, List.getLast?_concat]
    simp only [Option.mem_some_iff, exists_eq_left', Short, Except.ok.injEq]
    omega

/-- The end of the input. -/
theorem Counts.ended (h : it.Counts n readTotal lost) (buf : Bytes)
    (hlog : reader.log = it.reader.log ++ [(n - readTotal, .ok 0)]) :
    Counts { it with
      reader := reader, buf := buf, offset := it.offset + UInt64.ofNat readTotal } 0 0 lost where
  count := by
    have hcount := h.count
    dsimp only
    rw [hlog, handed_concat, UInt64.toNat_add, UInt64.toNat_ofNat']
    simp only [Except.toOption, Option.getD_some]
    omega
  le := by
    have hle := h.le
    dsimp only
    rw [hlog, handed_concat]
    omega
  midway := by
    dsimp only
    rw [hlog, failsMidway_concat_iff, h.midway]
    simp
  short := by
    dsimp only
    rw [hlog, List.getLast?_concat]
    simp [Short]

/-- A failed answer leaves the bytes of the read uncounted. -/
theorem Counts.failed (h : it.Counts n readTotal lost) (hlt : readTotal < n) {e : String}
    (hlog : reader.log = it.reader.log ++ [(n - readTotal, .error e)]) :
    Counts { it with reader := reader } 0 0 (readTotal + lost) where
  count := by
    have hcount := h.count
    dsimp only
    rw [hlog, handed_concat]
    simp only [Except.toOption, Option.getD_none]
    omega
  le := by
    have hle := h.le
    dsimp only
    rw [hlog, handed_concat]
    omega
  midway := by
    have hmidway := h.midway
    have hshort := h.short
    dsimp only
    rw [hlog, failsMidway_concat_iff, not_or, ← hmidway]
    simp only [Except.error.injEq, exists_eq_left', ← hshort]
    omega
  short := by
    dsimp only
    rw [hlog, List.getLast?_concat]
    simp [Short]

variable [Read String R]

/-- The log of a reader has one more answer after a read. -/
theorem log_of_read {r r' : Logged String R} {result : Except String Bytes}
    (h : Read.read r n = (result, r')) : r'.log = r.log ++ [(n, result.map List.length)] := by
  have hresult : (Read.read r.reader n).1 = result := congrArg Prod.fst h
  have hlog : r.log ++ [(n, (Read.read r.reader n).1.map List.length)] = r'.log :=
    congrArg (fun p => p.2.log) h
  rw [← hlog, hresult]

theorem readLoop_leads (h : it.Counts n readTotal lost) (hle : readTotal ≤ n)
    (hturns : n ≤ readTotal + turns) :
    it.Leads (readLoop n turns readTotal it).2
      (fun e => (readLoop n turns readTotal it).1 = .error e) := by
  have hfilled {it : MessageIterator (Logged String R)} (h : it.Counts n n lost) :
      it.Leads (it.filled n).2 (fun e => (it.filled n).1 = .error e) :=
    ⟨List.prefix_rfl, ⟨lost, h.settle (by omega)⟩, nofun⟩
  induction turns generalizing it readTotal with
  | zero =>
      obtain rfl : readTotal = n := by omega
      exact hfilled h
  | succ turns ih =>
      rw [readLoop]
      by_cases hlt : readTotal < n
      · rw [if_pos hlt]
        match hread : Read.read it.reader (n - readTotal) with
        | (.error e, reader) =>
            have hlog := log_of_read hread
            exact ⟨⟨_, hlog.symm⟩, ⟨_, h.failed hlt hlog⟩, nofun⟩
        | (.ok bytes, reader) =>
            have hlog := log_of_read hread
            have hlen := Read.length_le hread
            dsimp only
            by_cases hzero : bytes.length = 0
            · rw [if_pos hzero]
              rw [Except.map, hzero] at hlog
              by_cases hnone : readTotal = 0
              · subst hnone
                rw [if_pos rfl]
                have hended := h.ended (overwrite it.buf 0 bytes) hlog
                rw [show UInt64.ofNat 0 = 0 from rfl, UInt64.add_zero] at hended
                exact ⟨⟨_, hlog.symm⟩, ⟨lost, hended⟩, nofun⟩
              · rw [if_neg hnone]
                refine ⟨⟨_, hlog.symm⟩, ⟨lost, h.ended _ hlog⟩, ?_⟩
                intro off msg hresult
                cases hresult
                rfl
            · rw [if_neg hzero]
              have hgrows : it.reader.log <+: reader.log := ⟨_, hlog.symm⟩
              obtain ⟨hlogs, hcounts, htruncated⟩ :=
                ih (h.answer (overwrite it.buf readTotal bytes)
                  (Nat.pos_of_ne_zero hzero) hlen hlog) (by omega) (by omega)
              exact ⟨hgrows.trans hlogs, hcounts, htruncated⟩
      · obtain rfl : readTotal = n := by omega
        rw [if_neg hlt]
        exact hfilled h

theorem readExact_leads {it' : MessageIterator (Logged String R)}
    {result : Except ReplayError (Option Bytes)} (h : it.Settled)
    (hread : it.readExact n = (result, it')) : it.Leads it' (fun e => result = .error e) := by
  obtain ⟨lost, hcounts⟩ := h
  -- a longer buffer changes neither the offset nor the log
  have hbuf : ∀ buf, Counts { it with buf := buf } n 0 lost := fun buf =>
    let ⟨hcount, hle, hmidway, hshort⟩ := Counts.idle_iff.mpr hcounts
    ⟨hcount, hle, hmidway, hshort⟩
  rw [readExact] at hread
  split at hread
  next =>
      have hleads := readLoop_leads (hbuf (it.buf ++ List.replicate (n - it.buf.length) 0))
        (Nat.zero_le n) (Nat.le_add_left n 0)
      rw [hread] at hleads
      exact ⟨hleads.log, hleads.settled, hleads.truncated⟩
  next =>
      have hleads := readLoop_leads (hbuf it.buf) (Nat.zero_le n) (Nat.le_add_left n 0)
      rw [hread] at hleads
      exact hleads

/-! ## One call -/

variable {it₁ it₂ : MessageIterator (Logged String R)} {Fails Fails' : ReplayError → Prop}

omit [Read String R] in
/-- The same step, for something else that is returned. -/
theorem Leads.returns (h : it.Leads it₁ Fails)
    (htruncated : ∀ off msg, Fails' (.truncated off msg) →
      Fails (.truncated off msg) ∨ off = it₁.offset) : it.Leads it₁ Fails' := by
  refine ⟨h.log, h.settled, fun off msg hfails => ?_⟩
  rcases htruncated off msg hfails with hfails | hoff
  · exact h.truncated off msg hfails
  · exact hoff

/-- One more read. -/
theorem Leads.read (h : it.Leads it₁ Fails) {result : Except ReplayError (Option Bytes)}
    (hread : it₁.readExact n = (result, it₂)) : it.Leads it₂ (fun e => result = .error e) := by
  obtain ⟨hlog, hsettled, htruncated⟩ := readExact_leads h.settled hread
  exact ⟨h.log.trans hlog, hsettled, htruncated⟩

theorem decodeMessage_not_truncated {frame : Bytes} {off : UInt64} {msg : String} :
    decodeMessage frame ≠ .error (.truncated off msg) := by
  unfold decodeMessage
  split <;> exact nofun

/-- What is returned when the rest of a message was read. -/
theorem Leads.readBody (h : it.Leads it₁ Fails) {result : Except ReplayError (Option Bytes)}
    (hread : it₁.readExact n = (result, it₂)) {item : Except ReplayError Message}
    (hitem : match result with
      | .error e => item = .error e
      | .ok none => ∃ msg, item = .error (.truncated it₂.offset msg)
      | .ok (some _) => ∃ frame, item = decodeMessage frame) :
    it.Leads it₂ (fun e => some item = some (.error e)) := by
  refine (h.read hread).returns fun off msg hfails => ?_
  match result with
  | .error e =>
      subst hitem
      cases hfails
      exact .inl rfl
  | .ok none =>
      obtain ⟨msg', rfl⟩ := hitem
      cases hfails
      exact .inr rfl
  | .ok (some _) =>
      obtain ⟨frame, rfl⟩ := hitem
      exact absurd (Option.some.inj hfails) decodeMessage_not_truncated

theorem nextGlimpse_leads (h : it.Settled) :
    it.Leads it.nextGlimpse.2 (fun e => it.nextGlimpse.1 = some (.error e)) := by
  unfold nextGlimpse
  match hlen : it.readExact 2 with
  | (.error e, it₁) =>
      refine (readExact_leads h hlen).returns fun off msg hfails => .inl ?_
      cases hfails
      rfl
  | (.ok none, it₁) => exact (readExact_leads h hlen).returns nofun
  | (.ok (some lenBytes), it₁) =>
      have hleads := readExact_leads h hlen
      dsimp only
      split
      next => exact hleads.returns nofun
      next =>
        split
        next => exact hleads.returns nofun
        next =>
          match hframe : it₁.readExact (ofBE lenBytes) with
          | (.error e, it₂) => exact hleads.readBody hframe rfl
          | (.ok none, it₂) => exact hleads.readBody hframe ⟨_, rfl⟩
          | (.ok (some frame), it₂) => exact hleads.readBody hframe ⟨frame, rfl⟩

theorem nextRawBodies_leads (h : it.Settled) :
    it.Leads it.nextRawBodies.2 (fun e => it.nextRawBodies.1 = some (.error e)) := by
  unfold nextRawBodies
  match htag : it.readExact 1 with
  | (.error e, it₁) =>
      refine (readExact_leads h htag).returns fun off msg hfails => .inl ?_
      cases hfails
      rfl
  | (.ok none, it₁) => exact (readExact_leads h htag).returns nofun
  | (.ok (some tagSlice), it₁) =>
      have hleads := readExact_leads h htag
      dsimp only
      match messageTotalLen (tagSlice.headD 0) with
      | none => exact hleads.returns nofun
      | some total =>
          dsimp only
          split
          next => exact hleads.returns nofun
          next =>
            match hbody : it₁.readExact (total - 1) with
            | (.error e, it₂) => exact hleads.readBody hbody rfl
            | (.ok none, it₂) => exact hleads.readBody hbody ⟨_, rfl⟩
            | (.ok (some body), it₂) => exact hleads.readBody hbody ⟨_, rfl⟩

theorem next_leads (h : it.Settled) :
    it.Leads it.next.2 (fun e => it.next.1 = some (.error e)) := by
  unfold next
  split
  next => exact nextGlimpse_leads h
  next => exact nextRawBodies_leads h

/-! ## Any number of calls -/

/-- After `k` calls of `next`. -/
def calls (it : MessageIterator (Logged String R)) (k : Nat) : MessageIterator (Logged String R) :=
  (fun it => it.next.2)^[k] it

theorem calls_succ (k : Nat) : it.calls (k + 1) = (it.calls k).next.2 :=
  Function.iterate_succ_apply' _ k it

theorem calls_settled (h : it.Settled) (k : Nat) : (it.calls k).Settled := by
  induction k with
  | zero => exact h
  | succ k ih =>
      rw [calls_succ]
      exact (next_leads ih).settled

theorem calls_log (h : it.Settled) {k n : Nat} (hle : k ≤ n) :
    (it.calls k).reader.log <+: (it.calls n).reader.log := by
  induction n, hle using Nat.le_induction with
  | base => exact List.prefix_rfl
  | succ n _ ih =>
      rw [calls_succ]
      exact ih.trans (next_leads (calls_settled h n)).log

omit [Read String R] in
theorem new_settled (r : R) (format : CaptureFormat) :
    (new (⟨r, []⟩ : Logged String R) format).Settled :=
  ⟨0, rfl, le_rfl, iff_of_true rfl not_failsMidway_nil,
    iff_of_false (Nat.lt_irrefl 0 ·.1) (fun ⟨_, hlast, _⟩ => nomatch hlast)⟩

omit [Read String R] in
/-- The offset is right when every byte was counted and the count did not wrap. -/
theorem Settled.offset_eq_iff (h : it.Settled) :
    it.offset.toNat = handed it.reader.log ↔
      ¬ FailsMidway it.reader.log ∧ handed it.reader.log < 2 ^ 64 := by
  obtain ⟨lost, hcounts⟩ := h
  have hcount := hcounts.count
  have hle := hcounts.le
  have hoffset := it.offset.toNat_lt
  rw [← hcounts.midway]
  omega

/-- The offset counts what the reader has handed out for as long as no read fails after part
of its bytes came. -/
theorem offset_exact_iff (r : R) (format : CaptureFormat) (n : Nat) :
    let it := calls (new (⟨r, []⟩ : Logged String R) format)
    ((∀ k ≤ n, (it k).offset.toNat = handed (it k).reader.log) ∧
        ∀ k < n, ∀ off msg, (it k).next.1 = some (.error (.truncated off msg)) →
          off.toNat = handed (it (k + 1)).reader.log) ↔
      ¬ FailsMidway (it n).reader.log ∧ handed (it n).reader.log < 2 ^ 64 := by
  intro it
  have hstart := new_settled r format
  have hsettled (k : Nat) : (it k).Settled := calls_settled hstart k
  constructor
  · rintro ⟨hoffset, -⟩
    exact (hsettled n).offset_eq_iff.mp (hoffset n le_rfl)
  · rintro ⟨hmidway, hlt⟩
    have hoffset : ∀ k ≤ n, (it k).offset.toNat = handed (it k).reader.log := by
      intro k hk
      have hlog : (it k).reader.log <+: (it n).reader.log := calls_log hstart hk
      exact (hsettled k).offset_eq_iff.mpr
        ⟨fun hfails => hmidway (hfails.mono hlog), (handed_mono hlog).trans_lt hlt⟩
    refine ⟨hoffset, fun k hk off msg hnext => ?_⟩
    have hoff : off = (it (k + 1)).offset := by
      rw [show it (k + 1) = (it k).next.2 from calls_succ k]
      exact (next_leads (hsettled k)).truncated off msg hnext
    rw [hoff]
    exact hoffset (k + 1) hk

end MessageIterator

/-- A reader that gives the answers of a list, and ends after them. -/
structure Scripted where
  answers : List (Except String Bytes)

instance : Read String Scripted where
  read s n :=
    match s.answers with
    | [] => (.ok [], s)
    | .ok bytes :: rest => (.ok (bytes.take n), ⟨rest⟩)
    | .error e :: rest => (.error e, ⟨rest⟩)
  length_le := by
    rintro ⟨answers⟩ n bytes s h
    split at h <;> cases h
    next => exact Nat.zero_le n
    next => exact List.length_take_le n _

namespace MessageIterator

/-- The first byte of a length, then an error: the byte is gone and the offset is `0`. -/
theorem failed_read_loses_offset :
    let it := calls (new (⟨⟨[.ok [0], .error "reset"]⟩, []⟩ : Logged String Scripted) .glimpse) 1
    handed it.reader.log = 1 ∧ it.offset = 0 := by
  intro it
  let start := new (⟨⟨[.ok [0], .error "reset"]⟩, []⟩ : Logged String Scripted) .glimpse
  have hbuf : ¬ start.buf.length < 2 := by
    change ¬ (List.replicate 1024 (0 : UInt8)).length < 2
    rw [List.length_replicate]
    omega
  have hread : start.readExact 2 =
      (.error (.io "reset"), { start with
        reader := ⟨⟨[]⟩, [(2, .ok 1), (1, .error "reset")]⟩, buf := overwrite start.buf 0 [0] }) := by
    rw [readExact, if_neg hbuf]
    rfl
  have hit : it = start.nextGlimpse.2 := rfl
  rw [hit, nextGlimpse, hread]
  exact ⟨rfl, rfl⟩

end MessageIterator

end Itch
