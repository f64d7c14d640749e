import Itch.Lib.FinMap

/-!
# A store whose entries expire

Values under keys, each with the last moment at which it is still there.  An entry that has
expired stays where it is until it is written again, but is never read.
-/

namespace Lib

/-- The value of an entry that has not expired. -/
def live {V : Type} (now : Nat) (entry : Option (V × Nat)) : Option V :=
  entry.bind fun e => if now ≤ e.2 then some e.1 else none

theorem live_eq_some_iff {V : Type} {now : Nat} {entry : Option (V × Nat)} {v : V} :
    live now entry = some v ↔ ∃ e, entry = some (v, e) ∧ now ≤ e := by
  rw [live, Option.bind_eq_some_iff]
  constructor
  · rintro ⟨⟨v', e⟩, hentry, hget⟩
    obtain ⟨hle, heq⟩ := Option.ite_none_right_eq_some.mp hget
    cases heq
    exact ⟨e, hentry, hle⟩
  · rintro ⟨e, hentry, hle⟩
    exact ⟨(v, e), hentry, by rw [if_pos hle]⟩

structure Expiring (K V : Type) [Ord K] where
  now : Nat
  /-- Values, with the last moment at which they are there. -/
  entries : FinMap K (V × Nat)

namespace Expiring

variable {K V : Type} [Ord K]

def empty : Expiring K V where
  now := 0
  entries := ∅

def elapse (s : Expiring K V) (time : Nat) : Expiring K V :=
  { s with now := s.now + time }

variable [Std.TransOrd K]

def get (s : Expiring K V) (k : K) : Option V :=
  live s.now s.entries[k]?

/-- Write a value that is there for `ttl`. -/
def put (s : Expiring K V) (k : K) (v : V) (ttl : Nat) : Expiring K V :=
  { s with entries := s.entries.insert k (v, s.now + ttl) }

/-- The keys of the entries that have not expired. -/
def keys (s : Expiring K V) : List K :=
  (s.entries.toList.filter fun e => s.now ≤ e.2.2).map Prod.fst

variable {s : Expiring K V} {k a : K} {v : V} {ttl : Nat}

theorem get_eq_some_iff : s.get k = some v ↔ ∃ e, s.entries[k]? = some (v, e) ∧ s.now ≤ e :=
  live_eq_some_iff

variable [Std.LawfulEqOrd K]

theorem entry_put [DecidableEq K] :
    (s.put k v ttl).entries[a]? = if k = a then some (v, s.now + ttl) else s.entries[a]? :=
  FinMap.get_insert

theorem mem_keys_iff : k ∈ s.keys ↔ ∃ v, s.get k = some v := by
  constructor
  · intro h
    obtain ⟨⟨_, v, e⟩, hmem, rfl⟩ := List.mem_map.mp h
    obtain ⟨hentry, hle⟩ := List.mem_filter.mp hmem
    exact ⟨v, get_eq_some_iff.mpr ⟨e, Std.ExtTreeMap.mem_toList_iff_getElem?_eq_some.mp hentry,
      of_decide_eq_true hle⟩⟩
  · rintro ⟨v, hget⟩
    obtain ⟨e, hentry, hle⟩ := get_eq_some_iff.mp hget
    refine List.mem_map.mpr ⟨(k, v, e), List.mem_filter.mpr ⟨?_, decide_eq_true hle⟩, rfl⟩
    exact Std.ExtTreeMap.mem_toList_iff_getElem?_eq_some.mpr hentry

end Expiring

end Lib
