import Mathlib.Tactic
import Mathlib.Order.Interval.Set.Basic

/-!
# Tilings of an interval

Pieces that follow one another without a gap: each starts where the one before it ends.
Pieces of length zero are allowed and mark a position.  Two pieces that share a number
are the same interval, and every number of the whole interval lies in a piece.
-/

namespace Lib

variable {α : Type*} {first len : α → Nat} {a b k : Nat} {x y : α} {l l' : List α}

/-- The pieces `first x .. first x + len x` follow one another from `a` to `b`. -/
inductive Tiles (first len : α → Nat) : Nat → Nat → List α → Prop where
  | nil (a : Nat) : Tiles first len a a []
  | cons {x : α} {b : Nat} {l : List α} :
      Tiles first len (first x + len x) b l → Tiles first len (first x) b (x :: l)

namespace Tiles

theorem end_eq (h : Tiles first len a b l) : b = a + (l.map len).sum := by
  induction h with
  | nil => rfl
  | cons _ ih =>
      rw [ih, List.map_cons, List.sum_cons]
      omega

/-- A piece starts behind the ones before it. -/
theorem first_eq (h : Tiles first len a b (l ++ x :: l')) : first x = a + (l.map len).sum := by
  induction l generalizing a with
  | nil =>
      cases h
      rfl
  | cons y l ih =>
      cases h with
      | cons h =>
          rw [ih h, List.map_cons, List.sum_cons]
          omega

/-- A piece lies within the interval. -/
theorem bounds (h : Tiles first len a b l) (hx : x ∈ l) : a ≤ first x ∧ first x + len x ≤ b := by
  induction h with
  | nil => exact absurd hx List.not_mem_nil
  | @cons y b l htail ih =>
      have hend := htail.end_eq
      rcases List.mem_cons.mp hx with rfl | hx
      · omega
      · have := ih hx
        omega

/-- The pieces cover the interval. -/
theorem exists_mem (h : Tiles first len a b l) (hle : a ≤ k) (hlt : k < b) :
    ∃ x ∈ l, k ∈ Set.Ico (first x) (first x + len x) := by
  induction h with
  | nil => exact absurd hlt (Nat.not_lt.mpr hle)
  | @cons y b l _ ih =>
      by_cases hin : k < first y + len y
      · exact ⟨y, List.mem_cons_self, hle, hin⟩
      · obtain ⟨x, hx, hk⟩ := ih (Nat.le_of_not_lt hin) hlt
        exact ⟨x, List.mem_cons_of_mem y hx, hk⟩

/-- Two pieces that share a number start together and end together. -/
theorem same_of_mem (h : Tiles first len a b l) (hx : x ∈ l) (hy : y ∈ l)
    (hkx : k ∈ Set.Ico (first x) (first x + len x))
    (hky : k ∈ Set.Ico (first y) (first y + len y)) : first x = first y ∧ len x = len y := by
  induction h with
  | nil => exact absurd hx List.not_mem_nil
  | @cons z b l htail ih =>
      rcases List.mem_cons.mp hx with rfl | hx'
      · rcases List.mem_cons.mp hy with rfl | hy'
        · exact ⟨rfl, rfl⟩
        · exact absurd (htail.bounds hy').1 (Nat.not_le.mpr (hky.1.trans_lt hkx.2))
      · rcases List.mem_cons.mp hy with rfl | hy'
        · exact absurd (htail.bounds hx').1 (Nat.not_le.mpr (hkx.1.trans_lt hky.2))
        · exact ih hx' hy'

end Tiles

end Lib
