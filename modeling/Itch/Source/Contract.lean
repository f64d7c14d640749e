import Itch.Lib.Numbered
import Itch.Source.SeqStore

/-!
# The contract of the ring buffer over a history of calls

A history is any finite sequence of calls of the trait on one store.  What the contract
says of a store is relative to the stores of its history that succeeded, so a history
carries them along: the high-water mark is the largest of their numbers, and as long as
the numbers come one after the other the buffer retains the last of them.
-/

namespace Itch

open Lib

theorem longestRun_consecutive (view : UInt64 → Option Message) (count : Nat)
    (start : UInt64) : LongestRun view start count (consecutive view count start) := by
  induction count generalizing start with
  | zero => exact .nil fun h => absurd h (Nat.lt_irrefl 0)
  | succ count ih =>
      rw [consecutive]
      split
      next hnone => exact .nil fun _ => hnone
      next m hm =>
        split
        next hmax =>
          refine ⟨Consecutive.cons_iff.mpr ⟨rfl, .nil⟩, ?_, Nat.succ_le_succ (Nat.zero_le _), ?_⟩
          · intro e he
            rw [List.mem_singleton.mp he]
            exact hm
          · -- the largest word has no successor to look for
            intro _ n hn
            have htop := Word64.le_max n
            rw [hmax, Word64.toNat_max, List.length_singleton] at hn
            omega
        next hmax =>
          have hsucc : (start + 1).toNat = start.toNat + 1 :=
            Word64.toNat_succ (Word64.succ_lt_of_ne_max hmax)
          obtain ⟨hcons, hbound, hlen, hstops⟩ := ih (start + 1)
          refine ⟨Consecutive.cons_iff.mpr ⟨rfl, hsucc ▸ hcons⟩, ?_, Nat.succ_le_succ hlen, ?_⟩
          · intro e he
            rcases List.mem_cons.mp he with rfl | he
            · exact hm
            · exact hbound e he
          · intro hlt n hn
            rw [List.length_cons] at hlt hn
            exact hstops (by omega) n (by omega)

namespace RingBufferSeqStore

def latest (s : RingBufferSeqStore) : UInt64 := s.maxSeen

/-- The lowest sequence number retained, `0` if there is none. -/
def earliest (s : RingBufferSeqStore) : UInt64 :=
  match FinMap.first? s.map with
  | some (seq, _) => seq
  | none => 0

/-- A call of the trait. -/
inductive Call where
  | store (seq : UInt64) (msg : Message)
  | range (start : UInt64) (count : Nat)
  | latest
  | earliest
deriving Repr, DecidableEq

/-- What a call asks to store. -/
def Call.stores : Call → Option (UInt64 × Message)
  | .store seq msg => some (seq, msg)
  | .range _ _ | .latest | .earliest => none

/-- A store with the stores of its history that succeeded, oldest first. -/
structure History where
  store : RingBufferSeqStore
  stored : List (UInt64 × Message)

namespace History

def new (capacity : UInt64) : History where
  store := withCapacity capacity
  stored := []

/-- The history after one more call.  The calls that read leave the store alone. -/
def call (h : History) : Call → History
  | .store seq msg =>
      match h.store.store seq msg with
      | .ok s => { store := s, stored := h.stored ++ [(seq, msg)] }
      | .error _ => h
  | .range _ _ | .latest | .earliest => h

/-- The history of some calls on a fresh store. -/
def run (capacity : UInt64) (calls : List Call) : History :=
  calls.foldl call (new capacity)

end History

/-! ## One call -/

section Calls

variable {s s' : RingBufferSeqStore} {seq : UInt64} {msg : Message}

theorem touch_of_mem (h : seq ∈ s.map) : s.touch seq = s := by
  have hle := Word64.le_iff.mp (s.le_maxSeen seq h)
  have hseen : s.seen seq = s.maxSeen := by
    rw [Word64.eq_iff, toNat_seen]
    exact Nat.max_eq_left hle
  unfold touch
  congr

theorem store_of_retained (h : s.map[seq]? = some msg) : s.store seq msg = .ok s := by
  unfold store
  rw [h]
  dsimp only
  rw [if_pos rfl, touch_of_mem (FinMap.mem_of_get h)]

theorem store_of_conflict {other : Message} (h : s.map[seq]? = some other) (hne : other ≠ msg) :
    s.store seq msg = .error (.sequenceConflict seq) := by
  unfold store
  rw [h]
  exact if_neg hne

theorem store_of_fresh (h : s.map[seq]? = none) : s.store seq msg = .ok (s.put seq msg) := by
  unfold store
  rw [h]

/-- A store that succeeds finds its message retained, or its number unused. -/
theorem store_eq_ok_iff : s.store seq msg = .ok s' ↔
    (s.map[seq]? = some msg ∧ s' = s) ∨ (s.map[seq]? = none ∧ s' = s.put seq msg) := by
  cases hget : s.map[seq]? with
  | none =>
      rw [store_of_fresh hget]
      simp [eq_comm]
  | some other =>
      by_cases hne : other = msg
      · rw [hne, store_of_retained (hne ▸ hget)]
        simp [eq_comm]
      · rw [store_of_conflict hget hne]
        simp [hne]

theorem capacity_of_store (h : s.store seq msg = .ok s') : s'.capacity = s.capacity := by
  rcases store_eq_ok_iff.mp h with ⟨-, rfl⟩ | ⟨-, rfl⟩
  · rfl
  · rfl

theorem get_of_store (h : s.store seq msg = .ok s') : s'.map[seq]? = some msg := by
  rcases store_eq_ok_iff.mp h with ⟨hget, rfl⟩ | ⟨-, rfl⟩
  · exact hget
  · exact FinMap.get_insert.trans (if_pos rfl)

theorem toNat_latest_of_store (h : s.store seq msg = .ok s') :
    s'.latest.toNat = max s.latest.toNat seq.toNat := by
  rcases store_eq_ok_iff.mp h with ⟨hget, heq⟩ | ⟨-, rfl⟩
  · have hle := Word64.le_iff.mp (s.le_maxSeen seq (FinMap.mem_of_get hget))
    rw [heq]
    exact (Nat.max_eq_left hle).symm
  · exact s.toNat_seen seq

/-- A store adds one entry at most. -/
theorem mem_of_mem_store (h : s.store seq msg = .ok s') {e : UInt64 × Message}
    (he : e ∈ s'.map.toList) : e ∈ s.map.toList ∨ e = (seq, msg) := by
  rcases store_eq_ok_iff.mp h with ⟨-, rfl⟩ | ⟨-, rfl⟩
  · exact .inl he
  · have hput : (s.evicted.insert seq msg)[e.1]? = some e.2 := FinMap.mem_entries.mp he
    rw [FinMap.get_insert] at hput
    split at hput
    next heq => exact .inr (Prod.ext heq.symm (Option.some.inj hput).symm)
    next =>
      refine .inl (FinMap.mem_entries.mpr ?_)
      rcases s.get_evicted e.1 with heq | hnone
      · exact heq ▸ hput
      · rw [hnone] at hput
        cases hput

/-- A number above all others comes last. -/
theorem toList_put_of_lt (hbelow : ∀ e ∈ s.map.toList, e.1.toNat < seq.toNat) :
    (s.put seq msg).map.toList = s.evicted.toList ++ [(seq, msg)] := by
  refine FinMap.entries_insert_last fun e he => ?_
  rw [Std.compare_eq_lt, Word64.lt_iff]
  have hmem : e.1 ∈ s.map := mem_of_mem_evicted (FinMap.mem_of_get (FinMap.mem_entries.mp he))
  obtain ⟨m, hm⟩ := FinMap.mem_iff_get.mp hmem
  exact hbelow (e.1, m) (FinMap.mem_entries.mpr hm)

end Calls

/-- `earliest` is the smallest number retained. -/
theorem isLeast_earliest {s : RingBufferSeqStore} (h : s.map ≠ ∅) :
    IsLeast {seq | seq ∈ s.map} s.earliest := by
  unfold earliest
  split
  next seq msg hfirst =>
    refine ⟨FinMap.mem_of_get (FinMap.get_of_first? hfirst), fun k hk => ?_⟩
    exact Word64.le_iff.mpr (Word64.toNat_first?_le hfirst hk)
  next hnone =>
    refine absurd (Std.ExtTreeMap.ext_getElem? fun {k} => ?_) h
    rw [FinMap.get_of_not_mem (FinMap.not_mem_of_first?_none hnone)]
    exact Std.ExtTreeMap.getElem?_empty.symm

theorem earliest_of_empty {s : RingBufferSeqStore} (h : s.map = ∅) : s.earliest = 0 := by
  unfold earliest FinMap.first?
  rw [h]
  rfl

theorem longestRun_range (s : RingBufferSeqStore) (start : UInt64) (count : Nat) :
    LongestRun (s.map[·]?) start count (s.range start count) := by
  rw [range_eq_consecutive]
  exact longestRun_consecutive _ count start

/-- What was just stored is read back. -/
theorem range_of_store {s s' : RingBufferSeqStore} {seq : UInt64} {msg : Message}
    (h : s.store seq msg = .ok s') : s'.range seq 1 = [(seq, msg)] := by
  rw [range_eq_consecutive, consecutive, get_of_store h]
  dsimp only
  split
  next => rfl
  next => rfl

/-! ## A history of calls -/

namespace History

/-- What holds after every history of calls on a store of some capacity. -/
structure Invariant (capacity : UInt64) (h : History) : Prop where
  capacity : h.store.capacity = max capacity.toNat 1
  le_latest : ∀ e ∈ h.stored, e.1 ≤ h.store.latest
  latest_mem : h.store.latest ∈ h.stored.map Prod.fst ∨ h.stored = [] ∧ h.store.latest = 0
  stored_of_retained : ∀ e ∈ h.store.map.toList, e ∈ h.stored
  /-- Consecutive stores leave the last ones retained. -/
  retains : ∀ a, Consecutive a h.stored →
    h.store.map.toList = h.stored.drop (h.stored.length - h.store.capacity)

variable {capacity : UInt64} {h : History} {seq : UInt64} {msg : Message} {s : RingBufferSeqStore}

theorem invariant_new : Invariant capacity (new capacity) where
  capacity := rfl
  le_latest _ he := absurd he List.not_mem_nil
  latest_mem := .inr ⟨rfl, rfl⟩
  stored_of_retained e he := by
    have hget : (∅ : FinMap UInt64 Message)[e.1]? = some e.2 := FinMap.mem_entries.mp he
    rw [Std.ExtTreeMap.getElem?_empty] at hget
    cases hget
  retains _ _ := by simp [new, withCapacity]

/-- A full buffer of consecutive messages drops the oldest. -/
theorem toList_evicted (hret : h.store.map.toList
      = h.stored.drop (h.stored.length - h.store.capacity)) :
    h.store.evicted.toList = h.stored.drop (h.stored.length + 1 - h.store.capacity) := by
  have hsize := h.store.map.length_toList
  have hpos := h.store.capacity_pos
  rw [hret, List.length_drop] at hsize
  unfold evicted
  split
  next hfull =>
    cases hlist : h.store.map.toList with
    | nil =>
        have hlen := h.store.map.length_toList
        rw [hlist, List.length_nil] at hlen
        omega
    | cons e entries =>
        have hfirst : FinMap.first? h.store.map = some (e.1, e.2) := by
          rw [FinMap.first?, hlist, List.head?_cons]
        rw [hfirst]
        dsimp only
        rw [FinMap.entries_erase_first hlist]
        have htail : entries = (h.stored.drop (h.stored.length - h.store.capacity)).tail := by
          rw [← hret, hlist, List.tail_cons]
        rw [htail, List.tail_drop]
        congr 1
        omega
  next hfull =>
    rw [hret]
    congr 1
    omega

theorem Invariant.store (hinv : Invariant capacity h) (hok : h.store.store seq msg = .ok s) :
    Invariant capacity { store := s, stored := h.stored ++ [(seq, msg)] } := by
  have hlatest := toNat_latest_of_store hok
  refine ⟨(capacity_of_store hok).trans hinv.capacity, ?_, ?_, ?_, ?_⟩
  · intro e he
    rw [Word64.le_iff, hlatest]
    rcases List.mem_append.mp he with he | he
    · exact (Word64.le_iff.mp (hinv.le_latest e he)).trans (Nat.le_max_left _ _)
    · rw [List.mem_singleton.mp he]
      exact Nat.le_max_right _ _
  · refine .inl ?_
    rw [List.map_append, List.mem_append]
    rcases Nat.le_total h.store.latest.toNat seq.toNat with hle | hle
    · rw [Nat.max_eq_right hle, ← Word64.eq_iff] at hlatest
      exact .inr (List.mem_singleton.mpr hlatest)
    · rw [Nat.max_eq_left hle, ← Word64.eq_iff] at hlatest
      rcases hinv.latest_mem with hmem | ⟨-, hzero⟩
      · exact .inl (hlatest ▸ hmem)
      · -- the first store of all, under the number `0`
        refine .inr (List.mem_singleton.mpr ?_)
        have hseq : h.store.latest.toNat = 0 := congrArg UInt64.toNat hzero
        rw [hlatest, Word64.eq_iff]
        show h.store.latest.toNat = seq.toNat
        omega
  · intro e he
    rcases mem_of_mem_store hok he with hold | rfl
    · exact List.mem_append_left _ (hinv.stored_of_retained e hold)
    · exact List.mem_append_right _ List.mem_cons_self
  · intro a hcons
    obtain ⟨hcons, hseq⟩ := Consecutive.concat_iff.mp hcons
    have hret := hinv.retains a hcons
    have hbelow : ∀ e ∈ h.store.map.toList, e.1.toNat < seq.toNat := by
      intro e he
      have := hcons.mem_bounds (hinv.stored_of_retained e he)
      dsimp only at hseq
      omega
    rcases store_eq_ok_iff.mp hok with ⟨hget, -⟩ | ⟨-, rfl⟩
    · exact absurd (hbelow (seq, msg) (FinMap.mem_entries.mpr hget)) (Nat.lt_irrefl _)
    · have hpos := h.store.capacity_pos
      have hcap : (h.store.put seq msg).capacity = h.store.capacity := rfl
      dsimp only
      rw [toList_put_of_lt hbelow, toList_evicted hret, List.length_append,
        List.length_singleton, hcap, List.drop_append_of_le_length (by omega)]

theorem Invariant.call (hinv : Invariant capacity h) (c : Call) :
    Invariant capacity (h.call c) := by
  cases c with
  | store seq msg =>
      rw [History.call]
      split
      next s hok => exact hinv.store hok
      next => exact hinv
  | range start count => exact hinv
  | latest => exact hinv
  | earliest => exact hinv

theorem invariant_run (capacity : UInt64) (calls : List Call) :
    Invariant capacity (run capacity calls) := by
  unfold run
  induction calls using List.reverseRecOn with
  | nil => exact invariant_new
  | append_singleton calls c ih =>
      rw [List.foldl_append]
      exact ih.call c

/-- A number above all that were stored is stored as well. -/
theorem Invariant.store_ok (hinv : Invariant capacity h)
    (hlt : ∀ e ∈ h.stored, e.1.toNat < seq.toNat) :
    ∃ s, h.store.store seq msg = .ok s := by
  cases hget : h.store.map[seq]? with
  | none => exact ⟨_, store_of_fresh hget⟩
  | some m =>
      have hmem := hinv.stored_of_retained (seq, m) (FinMap.mem_entries.mpr hget)
      exact absurd (hlt _ hmem) (Nat.lt_irrefl _)

/-- A call that reads leaves the history as it is. -/
theorem call_of_reads {c : Call} (hc : c.stores = none) : h.call c = h := by
  cases c with
  | store seq msg => cases hc
  | range start count => rfl
  | latest => rfl
  | earliest => rfl

/-- Stores that come in order all succeed. -/
theorem stored_run_of_consecutive {first : Nat} {calls : List Call}
    (hcons : Consecutive first (calls.filterMap Call.stores)) :
    (run capacity calls).stored = calls.filterMap Call.stores := by
  induction calls using List.reverseRecOn with
  | nil => rfl
  | append_singleton calls c ih =>
      have hrun : run capacity (calls ++ [c]) = (run capacity calls).call c := List.foldl_append
      rw [List.filterMap_append, List.filterMap_cons, List.filterMap_nil] at hcons ⊢
      rw [hrun]
      cases c with
      | store seq msg =>
          obtain ⟨hcons, hseq⟩ := Consecutive.concat_iff.mp hcons
          have hstored := ih hcons
          obtain ⟨s, hok⟩ : ∃ s, (run capacity calls).store.store seq msg = .ok s := by
            refine (invariant_run capacity calls).store_ok fun e he => ?_
            rw [hstored] at he
            exact (hcons.mem_bounds he).2.trans_eq hseq.symm
          rw [call, hok, hstored]
          rfl
      | range | latest | earliest =>
          rw [call_of_reads rfl]
          exact (ih ((List.append_nil _).subst hcons)).trans (List.append_nil _).symm

theorem Invariant.latest_eq_zero (hinv : Invariant capacity h) (hnil : h.stored = []) :
    h.store.latest = 0 := by
  rcases hinv.latest_mem with hmem | ⟨-, hzero⟩
  · rw [hnil] at hmem
    cases hmem
  · exact hzero

theorem Invariant.isGreatest_latest (hinv : Invariant capacity h) (hne : h.stored ≠ []) :
    IsGreatest {seq | ∃ msg, (seq, msg) ∈ h.stored} h.store.latest := by
  rcases hinv.latest_mem with hmem | ⟨hnil, -⟩
  · obtain ⟨⟨seq, msg⟩, he, heq⟩ := List.mem_map.mp hmem
    refine ⟨⟨msg, heq ▸ he⟩, ?_⟩
    rintro k ⟨m, hm⟩
    exact hinv.le_latest (k, m) hm
  · exact absurd hnil hne

theorem latest_le_call (h : History) (c : Call) : h.store.latest ≤ (h.call c).store.latest := by
  cases c with
  | store seq msg =>
      rw [call]
      split
      next s hok =>
        rw [Word64.le_iff, toNat_latest_of_store hok]
        exact Nat.le_max_left _ _
      next => exact UInt64.le_refl _
  | range start count => exact UInt64.le_refl _
  | latest => exact UInt64.le_refl _
  | earliest => exact UInt64.le_refl _

theorem latest_le_foldl (h : History) (calls : List Call) :
    h.store.latest ≤ (calls.foldl call h).store.latest := by
  induction calls generalizing h with
  | nil => exact UInt64.le_refl _
  | cons c calls ih => exact UInt64.le_trans (h.latest_le_call c) (ih (h.call c))

end History

/-- The contract of the store, after every history of calls. -/
theorem meets_contract (capacity : UInt64) (calls : List Call) :
    let h := History.run capacity calls
    h.store.map.size ≤ max 1 capacity.toNat
    ∧ (h.stored = [] → h.store.latest = 0)
    ∧ (h.stored ≠ [] → IsGreatest {seq | ∃ msg, (seq, msg) ∈ h.stored} h.store.latest)
    ∧ (∀ later, h.store.latest ≤ (History.run capacity (calls ++ later)).store.latest)
    ∧ (h.store.map = ∅ → h.store.earliest = 0)
    ∧ (h.store.map ≠ ∅ → IsLeast {seq | seq ∈ h.store.map} h.store.earliest)
    ∧ (∀ start count, LongestRun (h.store.map[·]?) start count (h.store.range start count))
    ∧ (∀ seq msg s, h.store.store seq msg = .ok s → s.range seq 1 = [(seq, msg)])
    ∧ (∀ seq msg, h.store.map[seq]? = some msg →
        h.store.store seq msg = .ok h.store)
    ∧ (∀ seq msg other, h.store.map[seq]? = some other → other ≠ msg →
        h.store.store seq msg = .error (.sequenceConflict seq)
        ∧ (h.call (.store seq msg)).store = h.store)
    ∧ (∀ seq msg, h.store.map[seq]? = none → ∃ s, h.store.store seq msg = .ok s
        ∧ h.call (.store seq msg) = { store := s, stored := h.stored ++ [(seq, msg)] })
    ∧ (∀ first, Consecutive first h.stored →
        h.store.map.toList = h.stored.drop (h.stored.length - max 1 capacity.toNat))
    ∧ (∀ first, Consecutive first (calls.filterMap Call.stores) →
        h.stored = calls.filterMap Call.stores
        ∧ h.store.map.toList = (calls.filterMap Call.stores).drop
            ((calls.filterMap Call.stores).length - max 1 capacity.toNat)) := by
  intro h
  have hinv := History.invariant_run capacity calls
  rw [Nat.max_comm, ← hinv.capacity]
  have hrun : ∀ later, History.run capacity (calls ++ later) = later.foldl History.call h :=
    fun later => List.foldl_append
  refine ⟨h.store.size_le, hinv.latest_eq_zero, hinv.isGreatest_latest, ?_, earliest_of_empty,
    isLeast_earliest, h.store.longestRun_range, fun _ _ _ => range_of_store,
    fun _ _ => store_of_retained, ?_, ?_, hinv.retains, ?_⟩
  · intro later
    rw [hrun]
    exact h.latest_le_foldl later
  · intro seq msg other hget hne
    have hstore := store_of_conflict hget hne
    refine ⟨hstore, ?_⟩
    rw [History.call, hstore]
  · intro seq msg hget
    have hstore : h.store.store seq msg = .ok (h.store.put seq msg) := store_of_fresh hget
    refine ⟨_, hstore, ?_⟩
    rw [History.call, hstore]
  · intro first hcons
    have hstored : h.stored = calls.filterMap Call.stores :=
      History.stored_run_of_consecutive hcons
    refine ⟨hstored, ?_⟩
    rw [← hstored] at hcons ⊢
    exact hinv.retains first hcons

end RingBufferSeqStore

end Itch
