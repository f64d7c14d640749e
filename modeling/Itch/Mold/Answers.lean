import Itch.Mold.GapRecovery
import Itch.Mold.Retransmission

/-!
# The answers a recovery gets

A recovery asks one server after the other and stops at the first answer it accepts: one
with the status for the end of the session, or one with frames, whatever their number.  The
frames are numbered by the client from the first one asked for, so the only thing that can
be wrong with them is how many there are, and the client does not count them.
-/

namespace Itch

open Lib

/-! ## The frames of an answer -/

namespace RequestClient

theorem length_of_readExact {count : Nat} {stream head rest : Bytes}
    (h : readExact count stream = some (head, rest)) : head.length = count := by
  unfold readExact at h
  split at h
  next => cases h
  next hlen =>
    cases h
    exact List.length_take_of_le (Nat.le_of_not_lt hlen)

/-- The frames are numbered from the first one on, and each fits a block. -/
theorem readFrames_eq_ok {count : Nat} {nextSeq : UInt64} {stream rest : Bytes}
    {frames : List CachedFrame} (h : readFrames count nextSeq stream = some (.ok frames, rest)) :
    Numbered nextSeq.toNat (frames.map CachedFrame.entry) ∧ ∀ f ∈ frames, f.Fits := by
  induction count generalizing nextSeq stream frames with
  | zero =>
      cases h
      exact ⟨.nil, fun f hf => absurd hf List.not_mem_nil⟩
  | succ count ih =>
      rw [readFrames] at h
      obtain ⟨⟨lenBuf, stream⟩, -, h⟩ := Option.bind_eq_some_iff.mp h
      dsimp only at h
      split at h
      next => cases h
      next hzero =>
        split at h
        next => cases h
        next hmax =>
          obtain ⟨⟨body, stream⟩, hbody, h⟩ := Option.bind_eq_some_iff.mp h
          obtain ⟨⟨read, stream⟩, hread, h⟩ := Option.bind_eq_some_iff.mp h
          have hlen := length_of_readExact hbody
          cases read with
          | error err => cases h
          | ok later =>
              cases h
              obtain ⟨hnumbered, hfits⟩ := ih hread
              constructor
              · refine Numbered.cons_iff.mpr ⟨?_, hnumbered.congr ?_⟩
                · exact (Nat.min_eq_left (Word64.le_max nextSeq)).symm
                · rw [Word64.toNat_saturatingSucc]
                  omega
              · refine List.forall_mem_cons.mpr ⟨⟨?_, ?_⟩, hfits⟩
                · exact hlen ▸ Nat.one_le_iff_ne_zero.mpr hzero
                · exact hlen ▸ Nat.le_of_not_lt hmax

theorem readResponse_eq_ok {sequence : UInt64} {stream rest : Bytes} {resp : RequestResponse}
    (h : readResponse sequence stream = some (.ok resp, rest)) :
    Numbered sequence.toNat (resp.frames.map CachedFrame.entry) ∧ ∀ f ∈ resp.frames, f.Fits := by
  rw [readResponse] at h
  obtain ⟨⟨hdr, stream⟩, -, h⟩ := Option.bind_eq_some_iff.mp h
  dsimp only at h
  split at h
  next => cases h
  next =>
    obtain ⟨⟨read, stream⟩, hread, h⟩ := Option.bind_eq_some_iff.mp h
    cases read with
    | error err => cases h
    | ok frames =>
        cases h
        exact readFrames_eq_ok hread

end RequestClient

/-- The response that is read from an attempt. -/
def Attempt.response (first last : UInt64) : Attempt → Option RequestResponse
  | .expired => none
  | .failed _ => none
  | .answered reply =>
      match RequestClient.readResponse first
          (reply (RequestClient.requestFrame first (gapCount first last))) with
      | some (.ok resp, _) => some resp
      | _ => none

theorem Attempt.response_eq_some {first last : UInt64} {attempt : Attempt}
    {resp : RequestResponse} (h : attempt.response first last = some resp) :
    Numbered first.toNat (resp.frames.map CachedFrame.entry) ∧ ∀ f ∈ resp.frames, f.Fits := by
  cases attempt with
  | expired => cases h
  | failed err => cases h
  | answered reply =>
      rw [Attempt.response] at h
      split at h
      next hread =>
        cases h
        exact RequestClient.readResponse_eq_ok hread
      next => cases h

/-! ## The accepted answer -/

/-- A response the client stops at: the end of the session, or frames. -/
def RequestResponse.Ends (resp : RequestResponse) : Prop :=
  resp.status = statusEndOfSession ∨
    (resp.status = statusOk ∨ resp.status = statusHole) ∧ resp.frames ≠ []

/-- What the client takes out of it. -/
def RequestResponse.taken (resp : RequestResponse) : RecoveryFrames where
  frames := resp.frames
  eos := decide (resp.status = statusEndOfSession)

section Loop

variable {first last : UInt64} {attempts : Nat → Attempt} {i : Nat} {servers : List SocketAddr}
  {lastErr : MoldError} {found : RecoveryFrames} {resp : RequestResponse}

theorem recoverLoop_of_ends (server : SocketAddr)
    (hresp : (attempts i).response first last = some resp) (hends : resp.Ends) :
    recoverLoop first last attempts i (server :: servers) lastErr = .ok resp.taken := by
  rw [recoverLoop]
  cases hattempt : attempts i with
  | expired =>
      rw [hattempt] at hresp
      cases hresp
  | failed err =>
      rw [hattempt] at hresp
      cases hresp
  | answered reply =>
      rw [hattempt, Attempt.response] at hresp
      dsimp only
      split at hresp
      next read rest hread =>
        cases hresp
        rw [hread]
        dsimp only
        rcases hends with hend | ⟨hstatus, hframes⟩
        · have hnot : ¬ ((resp.status = statusOk ∨ resp.status = statusHole) ∧
              !resp.frames.isEmpty) := by
            rw [hend]
            rintro ⟨h | h, -⟩
            all_goals revert h; decide
          rw [if_neg hnot, if_pos hend, RequestResponse.taken, decide_eq_true hend]
        · have hne : resp.status ≠ statusEndOfSession := by
            rcases hstatus with h | h
            all_goals rw [h]; decide
          rw [if_pos ⟨hstatus, by simpa using hframes⟩, RequestResponse.taken,
            decide_eq_false hne]
      next => cases hresp

/-- An attempt without a response to stop at leads to the next one. -/
theorem recoverLoop_of_not_ends (server : SocketAddr) (servers : List SocketAddr)
    (lastErr : MoldError) (hexpired : attempts i ≠ .expired)
    (h : ∀ resp, (attempts i).response first last = some resp → ¬ resp.Ends) :
    ∃ err, recoverLoop first last attempts i (server :: servers) lastErr =
      recoverLoop first last attempts (i + 1) servers err := by
  rw [recoverLoop]
  cases hattempt : attempts i with
  | expired => exact absurd hattempt hexpired
  | failed err => exact ⟨err, rfl⟩
  | answered reply =>
      rw [hattempt, Attempt.response] at h
      dsimp only
      cases hread : RequestClient.readResponse first
          (reply (RequestClient.requestFrame first (gapCount first last))) with
      | none => exact ⟨_, rfl⟩
      | some r =>
          obtain ⟨_ | resp, rest⟩ := r
          · exact ⟨_, rfl⟩
          · rw [hread] at h
            obtain ⟨hend, hframes⟩ := not_or.mp (h resp rfl)
            dsimp only
            rw [if_neg fun hdata => hframes ⟨hdata.1, by simpa using hdata.2⟩, if_neg hend]
            exact ⟨_, rfl⟩

/-- An attempt that is made in time and brings no response to stop at. -/
def Attempt.Passes (first last : UInt64) (attempt : Attempt) : Prop :=
  attempt ≠ .expired ∧ ∀ resp, attempt.response first last = some resp → ¬ resp.Ends

/-- Of the `count` attempts from number `i` on, the first that does not pass brings a response to
stop at, and `found` is what is taken out of it. -/
def Stops (first last : UInt64) (attempts : Nat → Attempt) (i count : Nat)
    (found : RecoveryFrames) : Prop :=
  ∃ k resp, i ≤ k ∧ k < i + count ∧ (attempts k).response first last = some resp ∧
    resp.Ends ∧ found = resp.taken ∧ ∀ j, i ≤ j → j < k → (attempts j).Passes first last

theorem not_stops_zero : ¬ Stops first last attempts i 0 found := by
  rintro ⟨k, -, hle, hlt, -⟩
  exact absurd hlt (Nat.not_lt.mpr hle)

theorem stops_succ_of_passes {count : Nat} (h : (attempts i).Passes first last) :
    Stops first last attempts i (count + 1) found ↔
      Stops first last attempts (i + 1) count found := by
  constructor
  · rintro ⟨k, resp, hle, hlt, hresp, hends, hfound, hbefore⟩
    have hne : k ≠ i := by
      rintro rfl
      exact h.2 resp hresp hends
    exact ⟨k, resp, by omega, by omega, hresp, hends, hfound,
      fun j hj hjk => hbefore j (by omega) hjk⟩
  · rintro ⟨k, resp, hle, hlt, hresp, hends, hfound, hbefore⟩
    refine ⟨k, resp, by omega, by omega, hresp, hends, hfound, fun j hj hjk => ?_⟩
    by_cases hji : j = i
    · exact hji ▸ h
    · exact hbefore j (by omega) hjk

/-- An attempt that does not pass decides. -/
theorem stops_succ_of_not_passes {count : Nat} (h : ¬ (attempts i).Passes first last) :
    Stops first last attempts i (count + 1) found ↔
      ∃ resp, (attempts i).response first last = some resp ∧ resp.Ends ∧ found = resp.taken := by
  constructor
  · rintro ⟨k, resp, hle, -, hresp, hends, hfound, hbefore⟩
    obtain rfl : k = i := by
      by_contra hne
      exact h (hbefore i le_rfl (by omega))
    exact ⟨resp, hresp, hends, hfound⟩
  · rintro ⟨resp, hresp, hends, hfound⟩
    exact ⟨i, resp, le_rfl, by omega, hresp, hends, hfound, fun j hj hji => absurd hji (by omega)⟩

/-- The loop returns the first response that it stops at, if the time is not over before. -/
theorem recoverLoop_eq_ok_iff :
    recoverLoop first last attempts i servers lastErr = .ok found ↔
      Stops first last attempts i servers.length found := by
  induction servers generalizing i lastErr with
  | nil =>
      refine iff_of_false ?_ not_stops_zero
      rintro ⟨⟩
  | cons server servers ih =>
      rw [List.length_cons]
      by_cases hpass : (attempts i).Passes first last
      · obtain ⟨err, hloop⟩ := recoverLoop_of_not_ends server servers lastErr hpass.1 hpass.2
        rw [hloop, ih, stops_succ_of_passes hpass]
      · rw [stops_succ_of_not_passes hpass]
        by_cases hexpired : attempts i = .expired
        · rw [recoverLoop, hexpired]
          refine iff_of_false ?_ ?_
          · rintro ⟨⟩
          · rintro ⟨resp, hresp, -⟩
            cases hresp
        · obtain ⟨resp, hresp, hends⟩ :
              ∃ resp, (attempts i).response first last = some resp ∧ resp.Ends := by
            by_contra hnone
            exact hpass ⟨hexpired, fun resp hresp hends => hnone ⟨resp, hresp, hends⟩⟩
          rw [recoverLoop_of_ends server hresp hends]
          constructor
          · intro h
            exact ⟨resp, hresp, hends, (Except.ok.inj h).symm⟩
          · rintro ⟨resp', hresp', -, rfl⟩
            rw [Option.some.inj (hresp.symm.trans hresp')]

/-- The response of attempt number `i` is the first one the client stops at: the attempt is in
the range of the retries, and those before it are made in time and bring none. -/
structure GapRecoveryConfig.Accepts (cfg : GapRecoveryConfig) (first last : UInt64)
    (attempts : Nat → Attempt) (i : Nat) (resp : RequestResponse) : Prop where
  lt : i < cfg.requestServers.length * max cfg.maxRetriesPerServer 1
  response : (attempts i).response first last = some resp
  ends : resp.Ends
  before : ∀ j < i, (attempts j).Passes first last

/-- A recovery succeeds with what is taken out of the accepted response. -/
theorem recoverGap_eq_ok_iff {cfg : GapRecoveryConfig} :
    recoverGap cfg first last attempts = .ok found ↔
      ∃ i resp, cfg.Accepts first last attempts i resp ∧ found = resp.taken := by
  have hlen : (cfg.requestServers.flatMap
      (List.replicate (max cfg.maxRetriesPerServer 1))).length
        = cfg.requestServers.length * max cfg.maxRetriesPerServer 1 := by
    simp [List.length_flatMap]
  rw [recoverGap]
  cases hservers : cfg.requestServers with
  | nil =>
      refine iff_of_false nofun ?_
      rintro ⟨i, resp, ⟨hlt, -, -, -⟩, -⟩
      simp [hservers] at hlt
  | cons server servers =>
      dsimp only
      rw [← hservers, recoverLoop_eq_ok_iff, hlen, Stops, Nat.zero_add]
      constructor
      · rintro ⟨k, resp, -, hlt, hresp, hends, hfound, hbefore⟩
        exact ⟨k, resp, ⟨hlt, hresp, hends, fun j hj => hbefore j (Nat.zero_le j) hj⟩, hfound⟩
      · rintro ⟨k, resp, ⟨hlt, hresp, hends, hbefore⟩, hfound⟩
        exact ⟨k, resp, Nat.zero_le k, hlt, hresp, hends, hfound, fun j _ hj => hbefore j hj⟩

end Loop

end Itch
