import Itch.Mold.Retransmission

/-!
# The status of a retransmission

The server computes the status of an answer from the bounds of its cache and of the request,
not from where the lookup has stopped.  The two agree unless the request starts below the
cache.  Such a request gets no frames, since its first one is evicted, but if its range
reaches past the cache and the session has ended, the server says that the range is past the
end.  `l + 1` and the end of the range are words, which adds a case at the top of the numbers
to either direction.
-/

namespace Itch

open Lib

namespace RequestServer.RingBufferSeqStore

variable {c : RingBufferSeqStore} {start : Nat} {seq f l : UInt64} {count : UInt32}

/-- The number of frames a request can get. -/
def asked (count : UInt32) : Nat :=
  min count.toNat maxResponseFrames

/-- The number of frames the lookup returns. -/
def returned (c : RingBufferSeqStore) (seq : UInt64) (count : UInt32) : Nat :=
  (c.lookup seq count).length

/-- The status that is computed for these frames. -/
def status (c : RingBufferSeqStore) (seq : UInt64) (count : UInt32) : UInt32 :=
  c.statusFor seq count (UInt32.ofNat (c.returned seq count))

/-- The first number that is not returned lies above the cache. -/
def PastEnd (c : RingBufferSeqStore) (seq : UInt64) (count : UInt32) : Prop :=
  ∀ last ∈ c.lastSequence, last.toNat < seq.toNat + c.returned seq count

/-- The status says which frames there are: all that were asked for, those up to the end of
the session, or fewer. -/
structure Truthful (c : RingBufferSeqStore) (seq : UInt64) (count : UInt32) : Prop where
  ok_iff : c.status seq count = statusOk ↔ c.returned seq count = asked count
  endOfSession : c.status seq count = statusEndOfSession → c.eos = true ∧ c.PastEnd seq count
  hole : c.returned seq count ≠ asked count → ¬ (c.eos = true ∧ c.PastEnd seq count) →
    c.status seq count = statusHole

/-- The session has ended, and the request starts below the cache and ends above it, as the
server computes its end. -/
def StraddlesCache (c : RingBufferSeqStore) (seq : UInt64) (count : UInt32) : Prop :=
  c.eos = true ∧ (∃ first ∈ c.firstSequence, seq < first) ∧
    ∃ last ∈ c.lastSequence, last + 1 < Word64.saturatingAdd seq (asked count)

/-- The session has ended one below the last number there is, and the request starts in the
cache and ends above it. -/
def EndsAtTop (c : RingBufferSeqStore) (seq : UInt64) (count : UInt32) : Prop :=
  c.eos = true ∧ (∃ first ∈ c.firstSequence, first ≤ seq) ∧
    ∃ last ∈ c.lastSequence, last.toNat = 2 ^ 64 - 2 ∧ seq ≤ last ∧
      2 ^ 64 - 1 < seq.toNat + asked count

/-! ## What the lookup returns -/

theorem returned_le (h : Consecutive start (c.inner.map CachedFrame.entry)) :
    c.returned seq count ≤ asked count := by
  have hrun : LongestRun c.cached seq (asked count) ((c.lookup seq count).map CachedFrame.entry) :=
    longestRun_lookup h count
  have hle := hrun.length_le
  rwa [List.length_map] at hle

theorem firstSequence_eq (h : Consecutive start (c.inner.map CachedFrame.entry))
    (hf : c.firstSequence = some f) : f.toNat = start := by
  obtain ⟨g, hg, rfl⟩ := Option.map_eq_some_iff.mp hf
  rw [List.head?_eq_getElem?] at hg
  exact h 0 g.entry (by rw [List.getElem?_map, hg, Option.map_some])

theorem lastSequence_eq (h : Consecutive start (c.inner.map CachedFrame.entry))
    (hl : c.lastSequence = some l) : l.toNat + 1 = start + c.inner.length := by
  obtain ⟨g, hg, rfl⟩ := Option.map_eq_some_iff.mp hl
  have hpos : 0 < c.inner.length := List.length_pos_iff.mpr fun hnil => by
    rw [hnil] at hg
    cases hg
  rw [List.getLast?_eq_getElem?] at hg
  have hval := h (c.inner.length - 1) g.entry (by rw [List.getElem?_map, hg, Option.map_some])
  have hentry : g.entry.1 = g.sequence := rfl
  rw [hentry] at hval
  omega

/-- What is returned is cached. -/
theorem returned_bounds (h : Consecutive start (c.inner.map CachedFrame.entry))
    (hpos : 0 < c.returned seq count) :
    start ≤ seq.toNat ∧ seq.toNat + c.returned seq count ≤ start + c.inner.length := by
  have hrun : LongestRun c.cached seq (asked count) ((c.lookup seq count).map CachedFrame.entry) :=
    longestRun_lookup h count
  have hcached : ∀ i, i < c.returned seq count →
      start ≤ seq.toNat + i ∧ seq.toNat + i < start + c.inner.length := by
    intro i hi
    obtain ⟨e, he⟩ : ∃ e, ((c.lookup seq count).map CachedFrame.entry)[i]? = some e :=
      ⟨_, List.getElem?_eq_getElem (by rw [List.length_map]; exact hi)⟩
    have hmem := (cached_eq_some_iff h).mp (hrun.bound e (List.mem_of_getElem? he))
    have hbounds := h.mem_bounds hmem
    rw [List.length_map] at hbounds
    dsimp only at hbounds
    rwa [hrun.consecutive i e he] at hbounds
  have hfirst := hcached 0 hpos
  have hlast := hcached (c.returned seq count - 1) (by omega)
  omega

/-- What comes after a short answer is not cached. -/
theorem not_cached_after (h : Consecutive start (c.inner.map CachedFrame.entry))
    (hlt : c.returned seq count < asked count) :
    seq.toNat + c.returned seq count < start ∨
      start + c.inner.length ≤ seq.toNat + c.returned seq count := by
  have hrun : LongestRun c.cached seq (asked count) ((c.lookup seq count).map CachedFrame.entry) :=
    longestRun_lookup h count
  by_contra hin
  have hi : seq.toNat + c.returned seq count - start < c.inner.length := by omega
  obtain ⟨e, he⟩ : ∃ e, (c.inner.map CachedFrame.entry)[
      seq.toNat + c.returned seq count - start]? = some e :=
    ⟨_, List.getElem?_eq_getElem (by rw [List.length_map]; exact hi)⟩
  have hnumber : e.1.toNat = seq.toNat + c.returned seq count := by
    rw [h _ e he]
    omega
  have hnone := hrun.stops (by rwa [List.length_map]) e.1 (by rw [List.length_map]; exact hnumber)
  have hsome := (cached_eq_some_iff h).mpr (List.mem_of_getElem? he)
  rw [hnone] at hsome
  cases hsome

/-! ## The status -/

/-- The server takes the request to reach past the end of the session. -/
def SeesEnd (c : RingBufferSeqStore) (seq : UInt64) (count : UInt32) : Prop :=
  c.eos = true ∧ ∀ last ∈ c.lastSequence,
    last < seq ∨ last + 1 < Word64.saturatingAdd seq (asked count)

theorem toNat_returned (h : Consecutive start (c.inner.map CachedFrame.entry)) :
    (UInt32.ofNat (c.returned seq count)).toNat = c.returned seq count := by
  have hle : c.returned seq count ≤ asked count := returned_le h
  have hasked : asked count ≤ maxResponseFrames := Nat.min_le_right _ _
  have hcap : maxResponseFrames < UInt32.size := by norm_num [maxResponseFrames, UInt32.size]
  exact UInt32.toNat_ofNat_of_lt' ((hle.trans hasked).trans_lt hcap)

theorem status_of_full (h : Consecutive start (c.inner.map CachedFrame.entry))
    (hfull : c.returned seq count = asked count) : c.status seq count = statusOk := by
  rw [status, statusFor, toNat_returned h]
  exact if_pos hfull

theorem status_of_short (h : Consecutive start (c.inner.map CachedFrame.entry))
    (hshort : c.returned seq count ≠ asked count) :
    (c.SeesEnd seq count → c.status seq count = statusEndOfSession) ∧
      (¬ c.SeesEnd seq count → c.status seq count = statusHole) := by
  have hmin : min count.toNat maxResponseFrames = asked count := rfl
  rw [status, statusFor, toNat_returned h, hmin, if_neg hshort, SeesEnd]
  cases hlast : c.lastSequence with
  | none => cases c.eos <;> simp
  | some last =>
      cases c.eos with
      | false => simp
      | true =>
          by_cases habove : last < seq
          · simp [habove]
          · simp +contextual [habove, asked]

theorem statusOk_ne_hole : statusOk ≠ statusHole := by decide

theorem statusOk_ne_endOfSession : statusOk ≠ statusEndOfSession := by decide

theorem statusHole_ne_endOfSession : statusHole ≠ statusEndOfSession := by decide

theorem bounds_cases (c : RingBufferSeqStore) :
    (c.firstSequence = none ∧ c.lastSequence = none) ∨
      ∃ f l, c.firstSequence = some f ∧ c.lastSequence = some l := by
  unfold firstSequence lastSequence
  cases hinner : c.inner with
  | nil => exact .inl ⟨rfl, rfl⟩
  | cons g frames =>
      rw [List.getLast?_cons]
      exact .inr ⟨_, _, rfl, rfl⟩

/-- After a short answer the cache is passed unless the request starts below it. -/
theorem pastEnd_iff (h : Consecutive start (c.inner.map CachedFrame.entry))
    (hlt : c.returned seq count < asked count) :
    c.PastEnd seq count ↔ ¬ ∃ first ∈ c.firstSequence, seq < first := by
  unfold PastEnd
  obtain ⟨hf, hl⟩ | ⟨f, l, hf, hl⟩ := bounds_cases c
  · rw [hf, hl]
    exact iff_of_true nofun (by simp)
  · have hafter := not_cached_after h hlt
    have hbounds : 0 < c.returned seq count → _ := returned_bounds h
    have hfirst := firstSequence_eq h hf
    have hlast := lastSequence_eq h hl
    rw [hf, hl]
    simp only [Option.mem_some_iff, forall_eq', exists_eq_left', Word64.lt_iff]
    omega

theorem asked_pos (h : 0 < count) : 0 < asked count := by
  have hcount := UInt32.lt_iff_toNat_lt.mp h
  unfold asked maxResponseFrames
  rw [UInt32.toNat_zero] at hcount
  omega

/-- A full answer is truthful, and the request does not start below the cache. -/
theorem truthful_of_full (h : Consecutive start (c.inner.map CachedFrame.entry))
    (hcount : 0 < count) (hfull : c.returned seq count = asked count) :
    c.Truthful seq count ∧ ¬ c.StraddlesCache seq count := by
  have hstatus : c.status seq count = statusOk := status_of_full h hfull
  refine ⟨⟨iff_of_true hstatus hfull, fun hend => ?_, fun hne => absurd hfull hne⟩, ?_⟩
  · exact absurd (hstatus.symm.trans hend) statusOk_ne_endOfSession
  · rintro ⟨-, ⟨f, hf, hlt⟩, -⟩
    have hbounds := (returned_bounds h (hfull.trans_gt (asked_pos hcount))).1
    rw [← firstSequence_eq h hf] at hbounds
    exact absurd (Word64.lt_iff.mp hlt) (Nat.not_lt.mpr hbounds)

theorem truthful_iff (h : Consecutive start (c.inner.map CachedFrame.entry))
    (hcount : 0 < count) : c.Truthful seq count ↔ ¬ c.StraddlesCache seq count := by
  by_cases hfull : c.returned seq count = asked count
  · exact iff_of_true (truthful_of_full h hcount hfull).1 (truthful_of_full h hcount hfull).2
  · have hlt : c.returned seq count < asked count := Nat.lt_of_le_of_ne (returned_le h) hfull
    have hpast := pastEnd_iff h hlt
    obtain ⟨hofEnd, hofHole⟩ := status_of_short h hfull
    constructor
    · rintro htruthful ⟨heos, hbelow, last, hlast, hend⟩
      have hstatus := hofEnd ⟨heos, fun l hl => .inr (by cases hlast.symm.trans hl; exact hend)⟩
      exact hpast.mp (htruthful.endOfSession hstatus).2 hbelow
    · intro hstraddles
      by_cases hcond : c.SeesEnd seq count
      · have hstatus := hofEnd hcond
        have hend : c.PastEnd seq count := by
          refine hpast.mpr fun hbelow => hstraddles ⟨hcond.1, hbelow, ?_⟩
          obtain ⟨hf, -⟩ | ⟨f, l, hf, hl⟩ := bounds_cases c
          · obtain ⟨f, hf', -⟩ := hbelow
            rw [hf] at hf'
            cases hf'
          · refine ⟨l, hl, (hcond.2 l hl).resolve_left fun habove => ?_⟩
            obtain ⟨f', hf', hseq⟩ := hbelow
            cases hf.symm.trans hf'
            have hfirst := firstSequence_eq h hf
            have hlast := lastSequence_eq h hl
            have habove := Word64.lt_iff.mp habove
            have hseq := Word64.lt_iff.mp hseq
            omega
        refine ⟨iff_of_false ?_ hfull, fun _ => ⟨hcond.1, hend⟩, fun _ hnot => ?_⟩
        · exact fun hok => statusOk_ne_endOfSession (hok.symm.trans hstatus)
        · exact absurd ⟨hcond.1, hend⟩ hnot
      · have hstatus := hofHole hcond
        refine ⟨iff_of_false ?_ hfull, fun hend => ?_, fun _ _ => hstatus⟩
        · exact fun hok => statusOk_ne_hole (hok.symm.trans hstatus)
        · exact absurd (hstatus.symm.trans hend) statusHole_ne_endOfSession

/-- The end of the range of a request that reaches past the cache is seen as such, unless it
sticks at the largest word. -/
theorem succ_lt_saturatingAdd_iff {n : Nat} (hle : seq ≤ l) (hlt : l.toNat + 1 < seq.toNat + n) :
    l + 1 < Word64.saturatingAdd seq n ↔ l.toNat ≠ 2 ^ 64 - 2 := by
  have hl := Word64.le_max l
  have hseq := Word64.le_iff.mp hle
  rw [Word64.lt_iff, Word64.toNat_saturatingAdd, UInt64.toNat_add, UInt64.toNat_one]
  omega

/-- The end of the session is told if it is the reason, except at the top of the numbers. -/
theorem endOfSession_iff (h : Consecutive start (c.inner.map CachedFrame.entry)) :
    (c.returned seq count ≠ asked count → c.eos = true → c.PastEnd seq count →
      c.status seq count = statusEndOfSession) ↔ ¬ c.EndsAtTop seq count := by
  constructor
  · rintro hend ⟨heos, ⟨f, hf, hfseq⟩, l, hl, htop, hseql, hover⟩
    have hfirst := firstSequence_eq h hf
    have hlast := lastSequence_eq h hl
    have hfseq := Word64.le_iff.mp hfseq
    have hseq := Word64.le_iff.mp hseql
    have hshort : c.returned seq count ≠ asked count := by
      intro hfull
      have hpos : 0 < c.returned seq count := by omega
      have hbounds := (returned_bounds h hpos).2
      omega
    have hlt : c.returned seq count < asked count := Nat.lt_of_le_of_ne (returned_le h) hshort
    have hpast : c.PastEnd seq count := by
      refine (pastEnd_iff h hlt).mpr ?_
      rintro ⟨f', hf', hbelow⟩
      cases hf.symm.trans hf'
      exact absurd (Word64.lt_iff.mp hbelow) (Nat.not_lt.mpr hfseq)
    have hstatus := hend hshort heos hpast
    by_cases hcond : c.SeesEnd seq count
    · rcases hcond.2 l hl with habove | habove
      · exact absurd (Word64.lt_iff.mp habove) (Nat.not_lt.mpr hseq)
      · exact (succ_lt_saturatingAdd_iff hseql (by omega)).mp habove htop
    · have hhole := (status_of_short h hshort).2 hcond
      exact statusHole_ne_endOfSession (hhole.symm.trans hstatus)
  · intro htop hshort heos hpast
    have hlt : c.returned seq count < asked count := Nat.lt_of_le_of_ne (returned_le h) hshort
    refine (status_of_short h hshort).1 ⟨heos, fun l hl => or_iff_not_imp_left.mpr fun habove => ?_⟩
    have hseql : seq ≤ l := Word64.le_iff.mpr (Nat.not_lt.mp fun hlt => habove (Word64.lt_iff.mpr hlt))
    have hseq := Word64.le_iff.mp hseql
    have hlast := lastSequence_eq h hl
    have hover : l.toNat < seq.toNat + c.returned seq count := hpast l hl
    -- the answer is not empty, so the request starts in the cache
    have hpos : 0 < c.returned seq count := by omega
    have hbounds := returned_bounds h hpos
    refine (succ_lt_saturatingAdd_iff hseql (by omega)).mpr fun hl' => htop ?_
    obtain ⟨-, hnone⟩ | ⟨f, l', hf, -⟩ := bounds_cases c
    · cases hl.symm.trans hnone
    · have hfirst := firstSequence_eq h hf
      exact ⟨heos, ⟨f, hf, Word64.le_iff.mpr (by omega)⟩, l, hl, hl', hseql, by omega⟩

/-- The status is truthful exactly if the request does not straddle the cache after the end of
the session, and the end of the session is told whenever it is the reason exactly if the
session does not end one below the last number there is. -/
theorem status_truthful_iff (capacity : Nat) (frames : List CachedFrame) (ended : Bool)
    (start : Nat) (hcons : Consecutive start (frames.map CachedFrame.entry)) (seq : UInt64)
    (count : UInt32) (hcount : 0 < count) :
    let c := fill capacity frames ended
    (c.Truthful seq count ↔ ¬ c.StraddlesCache seq count) ∧
    ((c.returned seq count ≠ asked count → c.eos = true → c.PastEnd seq count →
      c.status seq count = statusEndOfSession) ↔ ¬ c.EndsAtTop seq count) := by
  obtain ⟨first, h⟩ := consecutive_fill hcons capacity ended
  exact ⟨truthful_iff h hcount, endOfSession_iff h⟩

/-- Frames 1 to 3 of a session that has ended, in a cache with room for two. -/
def lastTwo : RingBufferSeqStore :=
  fill 2 [⟨1, [1]⟩, ⟨2, [2]⟩, ⟨3, [3]⟩] true

/-- A request for what is cached and more is told of the end of the session. -/
theorem status_truthful_from_two :
    lastTwo.status 2 5 = statusEndOfSession ∧ lastTwo.Truthful 2 5 := by
  have hcons : Consecutive 1 ([⟨1, [1]⟩, ⟨2, [2]⟩, ⟨3, [3]⟩].map CachedFrame.entry) :=
    Consecutive.cons_iff.mpr ⟨rfl, Consecutive.cons_iff.mpr ⟨rfl,
      Consecutive.cons_iff.mpr ⟨rfl, .nil⟩⟩⟩
  refine ⟨by decide +kernel, (status_truthful_iff 2 _ true 1 hcons 2 5 (by decide)).1.mpr ?_⟩
  rintro ⟨-, ⟨f, hf, hlt⟩, -⟩
  have hfirst : lastTwo.firstSequence = some 2 := by decide +kernel
  cases hfirst.symm.trans hf
  exact absurd hlt (by decide)

/-- A request for frames 1 to 5 gets none, since frame 1 is evicted, and is told that its
range is past the end of the session, while frames 2 and 3 are cached. -/
theorem evicted_start_told_end_of_session :
    lastTwo.returned 1 5 = 0 ∧ lastTwo.status 1 5 = statusEndOfSession ∧
      lastTwo.lastSequence = some 3 ∧ lastTwo.returned 2 2 = 2 ∧ ¬ lastTwo.Truthful 1 5 := by
  refine ⟨by decide +kernel, by decide +kernel, by decide +kernel, by decide +kernel, fun h => ?_⟩
  have hend := (h.endOfSession (by decide +kernel)).2 3 (by decide +kernel)
  revert hend
  decide +kernel

end RequestServer.RingBufferSeqStore

end Itch
