import Mathlib.Tactic

/-!
# Segments of a numbered log

`segment f a b` lists the entries `f a, f (a + 1), ..., f (b - 1)` of a log indexed by
numbers.  Consecutive segments compose, so a component that only ever appends the next
entries has, in every state, output one segment.
-/

namespace Lib

variable {α : Type*} {f : Nat → α} {a b c : Nat}

/-- The entries numbered from `a` up to `b`, which is not included. -/
def segment (f : Nat → α) (a b : Nat) : List α :=
  (List.range' a (b - a)).map f

@[simp] theorem segment_self : segment f a a = [] := by
  simp [segment]

@[simp] theorem length_segment : (segment f a b).length = b - a := by
  simp [segment]

theorem segment_append (hab : a ≤ b) (hbc : b ≤ c) :
    segment f a b ++ segment f b c = segment f a c := by
  obtain ⟨m, rfl⟩ := Nat.exists_eq_add_of_le hab
  obtain ⟨n, rfl⟩ := Nat.exists_eq_add_of_le hbc
  simp only [segment, Nat.add_sub_cancel_left, ← List.map_append]
  rw [List.range'_append_1]
  congr 2
  omega

theorem segment_succ (h : a ≤ b) : segment f a (b + 1) = segment f a b ++ [f b] := by
  rw [← segment_append h (Nat.le_succ b)]
  simp [segment]

theorem getElem_segment {i : Nat} (h : i < (segment f a b).length) :
    (segment f a b)[i] = f (a + i) := by
  simp [segment]

end Lib
