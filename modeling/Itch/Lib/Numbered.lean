import Itch.Lib.Word64

/-!
# Numbered lists

Entries that carry consecutive 64-bit numbers.  A counter that saturates sticks at the
largest word, and so do the numbers taken from it; `Consecutive` is the stricter notion,
where no number repeats.  A log answers a read with the longest run of its entries from a
number on.
-/

namespace Lib

variable {β : Type} {a b : Nat} {e : UInt64 × β} {l l' : List (UInt64 × β)}

/-- The entries carry the numbers `a`, `a + 1`, ..., up to the largest word. -/
def Numbered (a : Nat) (l : List (UInt64 × β)) : Prop :=
  ∀ i e, l[i]? = some e → e.1.toNat = min (a + i) (2 ^ 64 - 1)

namespace Numbered

theorem nil : Numbered a ([] : List (UInt64 × β)) := by
  intro i e he
  simp at he

theorem cons_iff :
    Numbered a (e :: l) ↔ e.1.toNat = min a (2 ^ 64 - 1) ∧ Numbered (a + 1) l := by
  constructor
  · intro h
    refine ⟨h 0 e rfl, fun i e' he' => ?_⟩
    rw [h (i + 1) e' he', Nat.add_right_comm, Nat.add_assoc]
  · rintro ⟨hhead, htail⟩ i e' he'
    cases i with
    | zero =>
        cases he'
        exact hhead
    | succ i =>
        rw [htail i e' he', Nat.add_right_comm, Nat.add_assoc]

/-- Above the largest word every start is the same. -/
theorem congr (h : Numbered a l) (heq : min a (2 ^ 64 - 1) = min b (2 ^ 64 - 1)) :
    Numbered b l := by
  intro i e he
  have := h i e he
  omega

theorem append (h : Numbered a l) (h' : Numbered (a + l.length) l') : Numbered a (l ++ l') := by
  induction l generalizing a with
  | nil => exact h'
  | cons e l ih =>
      obtain ⟨hhead, htail⟩ := cons_iff.mp h
      refine cons_iff.mpr ⟨hhead, ih htail (h'.congr ?_)⟩
      rw [List.length_cons]
      omega

theorem concat (h : Numbered a l) (he : e.1.toNat = min (a + l.length) (2 ^ 64 - 1)) :
    Numbered a (l ++ [e]) :=
  h.append (cons_iff.mpr ⟨he, nil⟩)

/-- As long as the counter does not stick, the numbers are those of a range. -/
theorem map_eq_range' (h : Numbered a l) (hle : a + l.length ≤ 2 ^ 64) :
    l.map (fun e => e.1.toNat) = List.range' a l.length := by
  induction l generalizing a with
  | nil => rfl
  | cons e l ih =>
      obtain ⟨hhead, htail⟩ := cons_iff.mp h
      rw [List.length_cons] at hle ⊢
      rw [List.map_cons, ih htail (by omega), List.range'_succ, hhead,
        Nat.min_eq_left (by omega)]

end Numbered

/-- The entries carry the numbers `a`, `a + 1`, ..., and no number repeats. -/
def Consecutive (a : Nat) (l : List (UInt64 × β)) : Prop :=
  ∀ i e, l[i]? = some e → e.1.toNat = a + i

namespace Consecutive

theorem nil : Consecutive a ([] : List (UInt64 × β)) := by
  intro i e he
  simp at he

theorem cons_iff : Consecutive a (e :: l) ↔ e.1.toNat = a ∧ Consecutive (a + 1) l := by
  constructor
  · intro h
    refine ⟨h 0 e rfl, fun i e' he' => ?_⟩
    rw [h (i + 1) e' he', Nat.add_right_comm, Nat.add_assoc]
  · rintro ⟨hhead, htail⟩ i e' he'
    cases i with
    | zero =>
        cases he'
        exact hhead
    | succ i =>
        rw [htail i e' he', Nat.add_right_comm, Nat.add_assoc]

theorem append_iff :
    Consecutive a (l ++ l') ↔ Consecutive a l ∧ Consecutive (a + l.length) l' := by
  induction l generalizing a with
  | nil => simp [nil]
  | cons e l ih =>
      rw [List.cons_append, cons_iff, cons_iff, ih, and_assoc, List.length_cons,
        Nat.add_right_comm, Nat.add_assoc]

theorem concat_iff : Consecutive a (l ++ [e]) ↔ Consecutive a l ∧ e.1.toNat = a + l.length := by
  rw [append_iff, cons_iff]
  simp [nil]

theorem mem_bounds (h : Consecutive a l) (he : e ∈ l) :
    a ≤ e.1.toNat ∧ e.1.toNat < a + l.length := by
  obtain ⟨i, hi, rfl⟩ := List.mem_iff_getElem.mp he
  have := h i _ (List.getElem?_eq_getElem hi)
  omega

theorem drop (h : Consecutive a l) (n : Nat) : Consecutive (a + n) (l.drop n) := by
  intro i e he
  rw [List.getElem?_drop] at he
  rw [h _ e he, Nat.add_assoc]

theorem take (h : Consecutive a l) (n : Nat) : Consecutive a (l.take n) := by
  rw [← List.take_append_drop n l] at h
  exact (append_iff.mp h).1

theorem numbered (h : Consecutive a l) : Numbered a l := by
  intro i e he
  have hnum := h i e he
  have htop := Word64.le_max e.1
  omega

theorem pairwise (h : Consecutive a l) : l.Pairwise fun e e' => e.1.toNat < e'.1.toNat := by
  refine List.pairwise_iff_getElem.mpr fun i j hi hj hij => ?_
  rw [h i _ (List.getElem?_eq_getElem hi), h j _ (List.getElem?_eq_getElem hj)]
  omega

/-- A number stands for one entry. -/
theorem eq_of_mem {e' : UInt64 × β} (h : Consecutive a l) (he : e ∈ l) (he' : e' ∈ l)
    (heq : e.1 = e'.1) : e = e' := by
  obtain ⟨i, hi⟩ := List.mem_iff_getElem?.mp he
  obtain ⟨j, hj⟩ := List.mem_iff_getElem?.mp he'
  have hij : a + i = a + j := by rw [← h i e hi, ← h j e' hj, heq]
  rw [Nat.add_left_cancel hij, hj] at hi
  exact (Option.some.inj hi).symm

/-- Only a list without entries can follow the largest word. -/
theorem saturatingSucc {n : UInt64} (h : Consecutive (n.toNat + 1) l) :
    Consecutive (Word64.saturatingSucc n).toNat l := by
  cases l with
  | nil => exact .nil
  | cons e l =>
      have hhead := (cons_iff.mp h).1
      have hle := Word64.le_max e.1
      have hsucc : (Word64.saturatingSucc n).toNat = n.toNat + 1 := by
        rw [Word64.toNat_saturatingSucc]
        omega
      exact hsucc ▸ h

end Consecutive

/-- The longest list of consecutive entries of `view` from `start` on, cut at `count`. -/
structure LongestRun (view : UInt64 → Option β) (start : UInt64) (count : Nat)
    (l : List (UInt64 × β)) : Prop where
  consecutive : Consecutive start.toNat l
  bound : ∀ e ∈ l, view e.1 = some e.2
  length_le : l.length ≤ count
  stops : l.length < count → ∀ n : UInt64, n.toNat = start.toNat + l.length → view n = none

theorem LongestRun.nil {view : UInt64 → Option β} {start : UInt64} {count : Nat}
    (h : 0 < count → view start = none) : LongestRun view start count [] where
  consecutive := Consecutive.nil
  bound _ he := absurd he List.not_mem_nil
  length_le := Nat.zero_le _
  stops hlt _ hn := Word64.eq_iff.mpr hn ▸ h hlt

/-- An entry is reached when nothing is missing before it. -/
theorem LongestRun.mem_iff {view : UInt64 → Option β} {start : UInt64} {count : Nat}
    (h : LongestRun view start count l) :
    e ∈ l ↔ view e.1 = some e.2 ∧ start ≤ e.1 ∧ e.1.toNat < start.toNat + count ∧
      ∀ n, start ≤ n → n ≤ e.1 → view n ≠ none := by
  have hnum := h.consecutive
  have hlen := h.length_le
  have hget (i : Nat) (hi : i < l.length) : (l.get ⟨i, hi⟩).1.toNat = start.toNat + i :=
    hnum i _ (List.getElem?_eq_getElem hi)
  simp only [Word64.le_iff]
  constructor
  · intro he
    have hbounds := hnum.mem_bounds he
    refine ⟨h.bound e he, hbounds.1, by omega, fun n hle hge => ?_⟩
    have hi : n.toNat - start.toNat < l.length := by omega
    have hn : (l.get ⟨_, hi⟩).1 = n := Word64.eq_iff.mpr (by rw [hget]; omega)
    rw [← hn, h.bound _ (List.get_mem l _)]
    exact nofun
  · rintro ⟨hview, hle, hlt, hbefore⟩
    by_cases hi : e.1.toNat - start.toNat < l.length
    · have he : (l.get ⟨_, hi⟩).1 = e.1 := Word64.eq_iff.mpr (by rw [hget]; omega)
      have hsnd := h.bound _ (List.get_mem l ⟨_, hi⟩)
      rw [he, hview] at hsnd
      rw [Prod.ext he.symm (Option.some.inj hsnd)]
      exact List.get_mem l _
    · -- the run would have stopped in front of the entry
      have htop := e.1.toNat_lt
      have hn : (UInt64.ofNat (start.toNat + l.length)).toNat = start.toNat + l.length :=
        Word64.toNat_ofNat (by omega)
      refine absurd (h.stops (by omega) _ hn) (hbefore _ ?_ ?_)
      · omega
      · omega

/-- The entries with a number below `bound`. -/
def below (view : UInt64 → Option β) (bound : Nat) (n : UInt64) : Option β :=
  if n.toNat < bound then view n else none

namespace LongestRun

variable {view : UInt64 → Option β} {start : UInt64} {count bound : Nat}

theorem length_le_of_below (h : LongestRun (below view bound) start count l) :
    l = [] ∨ start.toNat + l.length ≤ bound := by
  rcases List.eq_nil_or_concat l with rfl | ⟨l, e, rfl⟩
  · exact .inl rfl
  · have hview := h.bound e (by simp)
    obtain ⟨-, hnum⟩ := Consecutive.concat_iff.mp (List.concat_eq_append ▸ h.consecutive)
    unfold below at hview
    split at hview
    next hlt =>
      rw [List.length_concat]
      exact .inr (by omega)
    next => cases hview

/-- A run of the entries below a bound is one of all entries unless an entry at the bound
would have continued it. -/
theorem of_below_iff (h : LongestRun (below view bound) start count l) :
    LongestRun view start count l ↔
      (l.length < count → ∀ n : UInt64, n.toNat = start.toNat + l.length → bound ≤ n.toNat →
        view n = none) := by
  constructor
  · intro hrun hlt n hn _
    exact hrun.stops hlt n hn
  · intro hstops
    refine ⟨h.consecutive, fun e he => ?_, h.length_le, fun hlt n hn => ?_⟩
    · have hview := h.bound e he
      unfold below at hview
      split at hview
      next => exact hview
      next => cases hview
    · by_cases hbound : n.toNat < bound
      · have hview := h.stops hlt n hn
        rwa [below, if_pos hbound] at hview
      · exact hstops hlt n hn (Nat.le_of_not_lt hbound)

end LongestRun

end Lib
