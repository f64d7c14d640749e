import Itch.Source.Contract

/-!
# Warmup from a store

The warmup of a new session is read from a store in three calls: the highest number, the
lowest number, and the messages between the two.  Nothing keeps other tasks from using the
store in between.  If they push every number of the first read out of the store, the lowest
number read next is above the highest one.  And the messages come from a read that stops at
the first number missing, so a retained message behind a hole is left out.
-/

namespace Itch

open Lib

/-- A call of `warmup` on a store with a history, and the calls of other tasks between its
reads. -/
structure Warmup where
  capacity : UInt64
  prior : List RingBufferSeqStore.Call
  /-- Between reading `latest` and `earliest`. -/
  beforeEarliest : List RingBufferSeqStore.Call
  /-- Between reading `earliest` and the messages. -/
  beforeRange : List RingBufferSeqStore.Call

namespace Warmup

open RingBufferSeqStore (Call History)

variable {w : Warmup} {e : UInt64 × Message}

/-- The store after some calls of the others. -/
def store (w : Warmup) (done : List Call) : RingBufferSeqStore :=
  (History.run w.capacity (w.prior ++ done)).store

def latest (w : Warmup) : UInt64 := (w.store []).latest

def earliest (w : Warmup) : UInt64 := (w.store w.beforeEarliest).earliest

/-- From `earliest` through `latest`, in words that wrap. -/
def count (w : Warmup) : Nat := (w.latest - w.earliest + 1).toNat

def entries (w : Warmup) : List (UInt64 × Message) :=
  if w.latest = 0 then []
  else (w.store (w.beforeEarliest ++ w.beforeRange)).range w.earliest w.count

def warmup (w : Warmup) : List Message := w.entries.map Prod.snd

/-! ## Messages retained throughout -/

/-- What the others do while the call lasts; it ends at once if `latest` is `0`. -/
def meanwhile (w : Warmup) : List Call :=
  if w.latest = 0 then [] else w.beforeEarliest ++ w.beforeRange

/-- Retained in every state of the store while the call lasts. -/
def Retained (w : Warmup) (e : UInt64 × Message) : Prop :=
  ∀ done, done <+: w.meanwhile → (w.store done).map[e.1]? = some e.2

structure Complete (w : Warmup) : Prop where
  no_underflow : w.latest ≠ 0 → w.earliest ≤ w.latest
  sorted : w.entries.Pairwise fun e e' => e.1 < e'.1
  complete : ∀ e, w.Retained e → e ∈ w.entries

theorem sorted_entries (w : Warmup) : w.entries.Pairwise fun e e' => e.1 < e'.1 := by
  unfold entries
  split
  next => exact .nil
  next =>
    have hrun := (w.store (w.beforeEarliest ++ w.beforeRange)).longestRun_range w.earliest w.count
    exact hrun.consecutive.pairwise.imp Word64.lt_iff.mpr

theorem map_ne_empty_of_get {s : RingBufferSeqStore} (h : s.map[e.1]? = some e.2) : s.map ≠ ∅ := by
  intro hempty
  rw [hempty, Std.ExtTreeMap.getElem?_empty] at h
  cases h

/-- A store is not empty once something was stored. -/
theorem map_ne_empty {capacity : UInt64} {calls : List Call}
    (h : (History.run capacity calls).store.latest ≠ 0) :
    (History.run capacity calls).store.map ≠ ∅ := by
  induction calls using List.reverseRecOn with
  | nil => exact absurd rfl h
  | append_singleton calls c ih =>
      have hrun : History.run capacity (calls ++ [c]) = (History.run capacity calls).call c :=
        List.foldl_concat ..
      rw [hrun] at h ⊢
      cases c with
      | store seq msg =>
          rw [History.call] at h ⊢
          split at h
          next s hok =>
            have hget : s.map[seq]? = some msg := RingBufferSeqStore.get_of_store hok
            exact map_ne_empty_of_get (e := (seq, msg)) hget
          next => exact ih h
      | range start count => exact ih h
      | latest => exact ih h
      | earliest => exact ih h

theorem latest_le (w : Warmup) (done : List Call) : w.latest ≤ (w.store done).latest := by
  have hrun : w.store done = (done.foldl History.call (History.run w.capacity w.prior)).store :=
    congrArg History.store List.foldl_append
  have hstart : w.store [] = (History.run w.capacity w.prior).store := by
    rw [store, List.append_nil]
  rw [latest, hrun, hstart]
  exact History.latest_le_foldl _ done

theorem isLeast_earliest (h : w.latest ≠ 0) :
    IsLeast {seq | seq ∈ (w.store w.beforeEarliest).map} w.earliest := by
  refine RingBufferSeqStore.isLeast_earliest (map_ne_empty fun hzero => h ?_)
  have hle := w.latest_le w.beforeEarliest
  rw [store, hzero] at hle
  exact UInt64.le_antisymm hle (UInt64.zero_le)

theorem count_eq (h : w.earliest ≤ w.latest) :
    w.count = (w.latest.toNat - w.earliest.toNat + 1) % 2 ^ 64 := by
  rw [count, UInt64.toNat_add, UInt64.toNat_sub_of_le _ _ h]
  rfl

/-- The states of the three reads belong to the call. -/
theorem Retained.get (h : w.Retained e) (hzero : w.latest ≠ 0) :
    (w.store []).map[e.1]? = some e.2 ∧ (w.store w.beforeEarliest).map[e.1]? = some e.2 ∧
      (w.store (w.beforeEarliest ++ w.beforeRange)).map[e.1]? = some e.2 := by
  have hmeanwhile : w.meanwhile = w.beforeEarliest ++ w.beforeRange := if_neg hzero
  rw [Retained, hmeanwhile] at h
  exact ⟨h _ List.nil_prefix, h _ (List.prefix_append _ _), h _ List.prefix_rfl⟩

theorem mem_entries_iff (hzero : w.latest ≠ 0) (hle : w.earliest ≤ w.latest) (h : w.Retained e) :
    e ∈ w.entries ↔ ¬ (w.earliest = 0 ∧ w.latest = Word64.max) ∧
      ∀ n, w.earliest ≤ n → n ≤ e.1 → n ∈ (w.store (w.beforeEarliest ++ w.beforeRange)).map := by
  obtain ⟨hfirst, hsecond, hthird⟩ := h.get hzero
  have hlow : w.earliest ≤ e.1 := (isLeast_earliest hzero).2 (FinMap.mem_of_get hsecond)
  have hhigh : e.1 ≤ w.latest := (w.store []).le_maxSeen e.1 (FinMap.mem_of_get hfirst)
  -- the count is short of the entry only if it wraps to zero
  have hcount : e.1.toNat < w.earliest.toNat + w.count ↔
      ¬ (w.earliest = 0 ∧ w.latest = Word64.max) := by
    have htop := w.latest.toNat_lt
    have hzero_toNat : (0 : UInt64).toNat = 0 := rfl
    rw [Word64.le_iff] at hlow hhigh
    rw [count_eq hle, Word64.eq_iff, Word64.eq_iff, Word64.toNat_max, hzero_toNat]
    omega
  have hrun := (w.store (w.beforeEarliest ++ w.beforeRange)).longestRun_range w.earliest w.count
  rw [entries, if_neg hzero, hrun.mem_iff, hcount]
  simp only [hthird, hlow, true_and, ne_eq, ← Option.isSome_iff_ne_none,
    ← Std.ExtTreeMap.mem_iff_isSome_getElem?]

/-- Without a message stored there is no warmup. -/
theorem complete_iff_of_zero (hzero : w.latest = 0) : w.Complete ↔ (w.store []).map = ∅ := by
  have hentries : w.entries = [] := if_pos hzero
  have hmeanwhile : w.meanwhile = [] := if_pos hzero
  constructor
  · intro h
    refine Std.ExtTreeMap.ext_getElem? fun {k} => ?_
    rw [Std.ExtTreeMap.getElem?_empty]
    refine Option.eq_none_iff_forall_not_mem.mpr fun m hm => ?_
    have hmem : (k, m) ∈ w.entries := h.complete (k, m) fun done hdone => by
      rw [hmeanwhile, List.prefix_nil] at hdone
      rw [hdone]
      exact hm
    rw [hentries] at hmem
    cases hmem
  · intro hempty
    refine ⟨fun hne => absurd hzero hne, w.sorted_entries, fun e he => ?_⟩
    exact absurd hempty (map_ne_empty_of_get (he [] List.nil_prefix))

/-- The warmup has every message retained throughout when a number of the first read is left at
the second one, and none is missing at the third one before such a message. -/
theorem complete_iff (w : Warmup) : w.Complete ↔
    if w.latest = 0 then (w.store []).map = ∅
    else (∃ k ∈ (w.store w.beforeEarliest).map, k ≤ w.latest) ∧
      ∀ e, w.Retained e →
        ¬ (0 ∈ (w.store w.beforeEarliest).map ∧ w.latest = Word64.max) ∧
        ∀ k ∈ (w.store w.beforeEarliest).map, ∀ n, k ≤ n → n ≤ e.1 →
          n ∈ (w.store (w.beforeEarliest ++ w.beforeRange)).map := by
  by_cases hzero : w.latest = 0
  · rw [if_pos hzero]
    exact complete_iff_of_zero hzero
  · rw [if_neg hzero]
    have hleast := isLeast_earliest hzero
    have hzero_iff : w.earliest = 0 ↔ 0 ∈ (w.store w.beforeEarliest).map :=
      ⟨fun heq => heq ▸ hleast.1, fun hmem => UInt64.le_antisymm (hleast.2 hmem) UInt64.zero_le⟩
    constructor
    · rintro ⟨hunderflow, -, hcomplete⟩
      have hle := hunderflow hzero
      refine ⟨⟨w.earliest, hleast.1, hle⟩, fun e he => ?_⟩
      obtain ⟨hall, hmem⟩ := (mem_entries_iff hzero hle he).mp (hcomplete e he)
      rw [hzero_iff] at hall
      exact ⟨hall, fun k hk n hkn hne => hmem n (UInt64.le_trans (hleast.2 hk) hkn) hne⟩
    · rintro ⟨⟨k, hk, hkl⟩, hcomplete⟩
      have hle : w.earliest ≤ w.latest := UInt64.le_trans (hleast.2 hk) hkl
      refine ⟨fun _ => hle, w.sorted_entries, fun e he => (mem_entries_iff hzero hle he).mpr ?_⟩
      obtain ⟨hall, hmem⟩ := hcomplete e he
      rw [hzero_iff]
      exact ⟨hall, hmem w.earliest hleast.1⟩

def event (code : EventCode) : Message :=
  .systemEvent { header := ⟨0, 0, 0⟩, eventCode := code }

/-- A store of one message; the second message comes after `latest` was read. -/
def pushedOut : Warmup where
  capacity := 1
  prior := [.store 1 (event .startOfMessages)]
  beforeEarliest := [.store 2 (event .endOfMessages)]
  beforeRange := []

/-- No message `2` was ever stored, and nothing happens during the call. -/
def withHole : Warmup where
  capacity := 4
  prior := [.store 1 (event .startOfMessages), .store 3 (event .endOfMessages)]
  beforeEarliest := []
  beforeRange := []

theorem warmup_incomplete :
    (pushedOut.latest ≠ 0 ∧ pushedOut.latest < pushedOut.earliest) ∧
    withHole.Retained (3, event .endOfMessages) ∧
      event .endOfMessages ∉ withHole.warmup := by
  refine ⟨by decide, fun done hdone => ?_, by decide⟩
  rw [List.prefix_nil.mp hdone]
  decide

end Warmup

end Itch
