import Itch.Lib.Word64
import Itch.Protocol.Messages

/-!
# Sequence stores

The storage behind replay and retransmission: messages filed under their sequence
numbers.  `LawfulSeqStore` is the contract of the trait for a store whose reads succeed,
stated over the messages it retains; `RingBufferSeqStore`, the bounded in-memory store
that evicts its lowest sequence number, meets it.

Callers only tell a failed call from a successful one, so a call that fails is `none`.
-/

namespace Itch

open Lib

class SeqStore (σ : Type) where
  /-- Persist a message under a sequence number; a failed call stores nothing. -/
  store : σ → UInt64 → Message → Option σ
  /-- Up to `count` consecutive messages from a sequence number on. -/
  range : σ → UInt64 → Nat → Option (List (UInt64 × Message))
  /-- The highest sequence number ever stored, `0` if there is none. -/
  latest : σ → Option UInt64

/-- The retained messages from `start` on, up to the first gap and at most `count`. -/
def consecutive (view : UInt64 → Option Message) : Nat → UInt64 → List (UInt64 × Message)
  | 0, _ => []
  | count + 1, start =>
      match view start with
      | none => []
      | some m => (start, m) :: if start = Word64.max then [] else consecutive view count (start + 1)

/-- The contract of the store. -/
class LawfulSeqStore (σ : Type) extends SeqStore σ where
  /-- The message retained under a sequence number. -/
  view : σ → UInt64 → Option Message
  latestSeq : σ → UInt64
  latest_eq : ∀ s, latest s = some (latestSeq s)
  range_eq : ∀ s start count, range s start count = some (consecutive (view s) count start)
  le_latestSeq : ∀ s n m, view s n = some m → n ≤ latestSeq s
  view_store : ∀ s n m s', store s n m = some s' → view s' n = some m
  view_store_of_ne : ∀ s n m s', store s n m = some s' →
    ∀ k, k ≠ n → view s' k = view s k ∨ view s' k = none
  latestSeq_store : ∀ s n m s', store s n m = some s' →
    (latestSeq s').toNat = max (latestSeq s).toNat n.toNat

inductive RingBufferSeqStoreError where
  /-- A different message is already stored under this number. -/
  | sequenceConflict (seq : UInt64)
deriving Repr, DecidableEq

/-- Bounded in-memory store. -/
structure RingBufferSeqStore where
  capacity : Nat
  map : FinMap UInt64 Message
  /-- High-water mark. -/
  maxSeen : UInt64
  capacity_pos : 1 ≤ capacity
  /-- The capacity is a `usize`. -/
  capacity_lt : capacity < 2 ^ 64
  size_le : map.size ≤ capacity
  le_maxSeen : ∀ seq ∈ map, seq ≤ maxSeen

namespace RingBufferSeqStore

def withCapacity (capacity : UInt64) : RingBufferSeqStore where
  capacity := max capacity.toNat 1
  map := ∅
  maxSeen := 0
  capacity_pos := Nat.le_max_right _ _
  capacity_lt := Nat.max_lt.mpr ⟨capacity.toNat_lt, by decide⟩
  size_le := by simp
  le_maxSeen := by simp

/-- The map after the eviction that makes room for a new entry. -/
def evicted (s : RingBufferSeqStore) : FinMap UInt64 Message :=
  if s.map.size = s.capacity then
    match FinMap.first? s.map with
    | some (first, _) => s.map.erase first
    | none => s.map
  else s.map

/-- The high-water mark after a store. -/
def seen (s : RingBufferSeqStore) (seq : UInt64) : UInt64 :=
  if seq > s.maxSeen then seq else s.maxSeen

theorem toNat_seen (s : RingBufferSeqStore) (seq : UInt64) :
    (s.seen seq).toNat = max s.maxSeen.toNat seq.toNat := by
  unfold seen
  split
  next h => have := Word64.lt_iff.mp h; omega
  next h => have := mt Word64.lt_iff.mpr h; omega

theorem mem_of_mem_evicted {s : RingBufferSeqStore} {seq : UInt64} (h : seq ∈ s.evicted) :
    seq ∈ s.map := by
  unfold evicted at h
  split at h
  next =>
    split at h
    next => exact (FinMap.mem_erase_iff.mp h).2
    next => exact h
  next => exact h

theorem size_evicted_lt (s : RingBufferSeqStore) : s.evicted.size < s.capacity := by
  have hle := s.size_le
  have hpos := s.capacity_pos
  unfold evicted
  split
  next hfull =>
    split
    next first msg hfirst =>
      have hsize := FinMap.size_erase_of_get (FinMap.get_of_first? hfirst)
      omega
    next hnone =>
      have hnil : s.map.toList = [] := List.head?_eq_none_iff.mp hnone
      have hsize := s.map.length_toList
      rw [hnil, List.length_nil] at hsize
      omega
  next hfull => omega

theorem get_evicted (s : RingBufferSeqStore) (seq : UInt64) :
    s.evicted[seq]? = s.map[seq]? ∨ s.evicted[seq]? = none := by
  unfold evicted
  split
  next =>
    split
    next first msg hfirst =>
      rw [FinMap.get_erase]
      split
      next => exact .inr rfl
      next => exact .inl rfl
    next => exact .inl rfl
  next => exact .inl rfl

/-- A store under a number the buffer does not retain. -/
def put (s : RingBufferSeqStore) (seq : UInt64) (msg : Message) : RingBufferSeqStore where
  capacity := s.capacity
  map := s.evicted.insert seq msg
  maxSeen := s.seen seq
  capacity_pos := s.capacity_pos
  capacity_lt := s.capacity_lt
  size_le := Std.ExtTreeMap.size_insert_le.trans s.size_evicted_lt
  le_maxSeen := by
    intro k hk
    rw [Word64.le_iff, toNat_seen]
    rcases FinMap.mem_insert_iff.mp hk with rfl | hk
    · exact Nat.le_max_right _ _
    · exact (Word64.le_iff.mp (s.le_maxSeen k (mem_of_mem_evicted hk))).trans (Nat.le_max_left _ _)

/-- Storing again what is there only moves the high-water mark. -/
def touch (s : RingBufferSeqStore) (seq : UInt64) : RingBufferSeqStore where
  capacity := s.capacity
  map := s.map
  maxSeen := s.seen seq
  capacity_pos := s.capacity_pos
  capacity_lt := s.capacity_lt
  size_le := s.size_le
  le_maxSeen := by
    intro k hk
    rw [Word64.le_iff, toNat_seen]
    exact (Word64.le_iff.mp (s.le_maxSeen k hk)).trans (Nat.le_max_left _ _)

def store (s : RingBufferSeqStore) (seq : UInt64) (msg : Message) :
    Except RingBufferSeqStoreError RingBufferSeqStore :=
  match s.map[seq]? with
  | some existing =>
      if existing = msg then .ok (s.touch seq) else .error (.sequenceConflict seq)
  | none => .ok (s.put seq msg)

/-- The loop of `range` over the entries from the start on, with `count` still to come. -/
def rangeLoop : Nat → UInt64 → List (UInt64 × Message) → List (UInt64 × Message)
  | 0, _, _ => []
  | _, _, [] => []
  | count + 1, expected, (seq, msg) :: entries =>
      if seq ≠ expected then []
      else (seq, msg) :: rangeLoop count (Word64.saturatingSucc expected) entries

def range (s : RingBufferSeqStore) (start : UInt64) (count : Nat) : List (UInt64 × Message) :=
  if count = 0 then []
  else if s.map.isEmpty then []
  else rangeLoop count start (s.map.toList.filter fun e => start ≤ e.1)

/-! ## The contract -/

@[simp] theorem rangeLoop_nil (count : Nat) (expected : UInt64) :
    rangeLoop count expected [] = [] := by
  cases count with
  | zero => rfl
  | succ count => rfl

theorem consecutive_of_none {view : UInt64 → Option Message} {start : UInt64}
    (h : view start = none) (count : Nat) : consecutive view count start = [] := by
  cases count with
  | zero => rfl
  | succ count => rw [consecutive, h]

/-- No entry follows the largest word. -/
theorem eq_nil_of_max_lt {entries : List (UInt64 × Message)}
    (h : ∀ e ∈ entries, Word64.max.toNat < e.1.toNat) : entries = [] := by
  refine List.eq_nil_iff_forall_not_mem.mpr fun e he => ?_
  exact absurd (h e he) (Nat.not_lt.mpr (Word64.le_max e.1))

/-- The loop over entries in key order returns the retained messages up to the first gap. -/
theorem rangeLoop_eq {view : UInt64 → Option Message} {count : Nat} {expected : UInt64}
    {entries : List (UInt64 × Message)}
    (hsorted : entries.Pairwise fun a b => a.1.toNat < b.1.toNat)
    (hle : ∀ e ∈ entries, expected.toNat ≤ e.1.toNat)
    (hview : ∀ k m, expected.toNat ≤ k.toNat → (view k = some m ↔ (k, m) ∈ entries)) :
    rangeLoop count expected entries = consecutive view count expected := by
  induction count generalizing expected entries with
  | zero =>
      unfold rangeLoop consecutive
      rfl
  | succ count ih =>
      have hnone : (∀ m, (expected, m) ∉ entries) → view expected = none := by
        intro h
        refine Option.eq_none_iff_forall_not_mem.mpr fun m hm => ?_
        exact h m ((hview expected m le_rfl).mp hm)
      match entries, hsorted, hle, hview, hnone with
      | [], _, _, _, hnone =>
          rw [consecutive_of_none (hnone fun m => List.not_mem_nil), rangeLoop_nil]
      | (seq, msg) :: rest, hsorted, hle, hview, hnone =>
          obtain ⟨hhead, hrest⟩ := List.pairwise_cons.mp hsorted
          have hseq := hle _ List.mem_cons_self
          rw [rangeLoop]
          split
          next hne =>
            have hne' : expected.toNat ≠ seq.toNat := fun heq => hne (Word64.eq_iff.mpr heq.symm)
            rw [consecutive_of_none (hnone fun m hm => ?_)]
            rcases List.mem_cons.mp hm with heq | hm
            · exact hne (congrArg Prod.fst heq).symm
            · have hlt := hhead _ hm
              dsimp only at hlt hseq
              omega
          next heq =>
            rw [not_not] at heq
            subst heq
            have hmem : view seq = some msg := (hview seq msg le_rfl).mpr List.mem_cons_self
            rw [consecutive, hmem]
            dsimp only
            congr 1
            split
            next hmax =>
              have hnil : rest = [] := eq_nil_of_max_lt fun e he => hmax ▸ hhead e he
              rw [hnil, rangeLoop_nil]
            next hmax =>
              have hsucc : (seq + 1).toNat = seq.toNat + 1 := by
                exact Word64.toNat_succ (Word64.succ_lt_of_ne_max hmax)
              rw [Word64.saturatingSucc, if_neg hmax]
              refine ih hrest (fun e he => hsucc ▸ hhead e he) fun k m hk => ?_
              rw [hview k m (by omega), List.mem_cons, Prod.mk.injEq, or_iff_right]
              rintro ⟨rfl, -⟩
              omega

theorem range_eq_consecutive (s : RingBufferSeqStore) (start : UInt64) (count : Nat) :
    s.range start count = consecutive (s.map[·]?) count start := by
  have hloop : rangeLoop count start (s.map.toList.filter fun e => start ≤ e.1)
      = consecutive (s.map[·]?) count start := by
    refine rangeLoop_eq ?_ ?_ ?_
    · refine (s.map.ordered_keys_toList.imp fun hlt => ?_).filter _
      rwa [Std.compare_eq_lt, Word64.lt_iff] at hlt
    · intro e he
      simpa [Word64.le_iff] using (List.mem_filter.mp he).2
    · intro k m hk
      simp [FinMap.mem_entries, Word64.le_iff, hk]
  unfold range
  split
  next h => rw [h, consecutive]
  next =>
    split
    next hempty =>
      have hnil : s.map.toList = [] :=
        Std.ExtTreeMap.toList_eq_nil_iff.mpr (Std.ExtTreeMap.isEmpty_iff.mp hempty)
      rw [← hloop, hnil, List.filter_nil, rangeLoop_nil]
    next => exact hloop

theorem store_cases {s s' : RingBufferSeqStore} {seq : UInt64} {msg : Message}
    (h : (s.store seq msg).toOption = some s') :
    (s.map[seq]? = some msg ∧ s' = s.touch seq) ∨ s' = s.put seq msg := by
  unfold store at h
  split at h
  next existing hget =>
    split at h
    next heq =>
      cases h
      exact .inl ⟨heq ▸ hget, rfl⟩
    next => cases h
  next =>
    cases h
    exact .inr rfl

instance : LawfulSeqStore RingBufferSeqStore where
  store s seq msg := (s.store seq msg).toOption
  range s start count := some (s.range start count)
  latest s := some s.maxSeen
  view s seq := s.map[seq]?
  latestSeq s := s.maxSeen
  latest_eq _ := rfl
  range_eq s start count := congrArg some (s.range_eq_consecutive start count)
  le_latestSeq s n m h := s.le_maxSeen n (FinMap.mem_of_get h)
  view_store s n m s' h := by
    rcases store_cases h with ⟨hget, rfl⟩ | rfl
    · exact hget
    · exact (FinMap.get_insert).trans (if_pos rfl)
  view_store_of_ne s n m s' h k hk := by
    rcases store_cases h with ⟨-, rfl⟩ | rfl
    · exact .inl rfl
    · have hput : (s.put n m).map[k]? = s.evicted[k]? :=
        (FinMap.get_insert).trans (if_neg hk.symm)
      rw [hput]
      exact s.get_evicted k
  latestSeq_store s n m s' h := by
    rcases store_cases h with ⟨-, rfl⟩ | rfl
    · exact s.toNat_seen n
    · exact s.toNat_seen n

end RingBufferSeqStore

end Itch
