import Mathlib.Data.List.Basic
import Mathlib.Data.List.TakeWhile

/-!
# The part of a queue in front of an element

A queue is a list, most senior element first.  `before l a` is what stands in front of the
first occurrence of `a`.  Joining at the back leaves it as it is (`before_append`), leaving
the queue takes an element out of it (`before_erase`), and its length is the position of
`a` (`idxOf?_eq_length_before`).
-/

namespace Lib

variable {α : Type*} [DecidableEq α] {l : List α} {a x : α}

/-- What stands in front of `a`. -/
def before (l : List α) (a : α) : List α :=
  l.takeWhile (· ≠ a)

@[simp] theorem before_nil : before [] a = [] := rfl

@[simp] theorem before_cons_self : before (a :: l) a = [] := by
  simp [before]

theorem before_cons_of_ne (h : x ≠ a) : before (x :: l) a = x :: before l a := by
  simp [before, h]

theorem before_append (h : a ∈ l) (l' : List α) : before (l ++ l') a = before l a := by
  induction l with
  | nil => exact absurd h List.not_mem_nil
  | cons y l ih =>
      by_cases hy : y = a
      · rw [hy, List.cons_append, before_cons_self, before_cons_self]
      · have htail : a ∈ l := (List.mem_cons.mp h).resolve_left (Ne.symm hy)
        rw [List.cons_append, before_cons_of_ne hy, before_cons_of_ne hy, ih htail]

theorem before_erase (h : x ≠ a) : before (l.erase x) a = (before l a).erase x := by
  induction l with
  | nil => rfl
  | cons y l ih =>
      by_cases hx : y = x
      · rw [hx, List.erase_cons_head, before_cons_of_ne h, List.erase_cons_head]
      · rw [List.erase_cons_tail (by simpa using hx)]
        by_cases hy : y = a
        · rw [hy, before_cons_self, before_cons_self, List.erase_nil]
        · rw [before_cons_of_ne hy, before_cons_of_ne hy, ih,
            List.erase_cons_tail (by simpa using hx)]

theorem idxOf?_eq_length_before (h : a ∈ l) : l.idxOf? a = some (before l a).length := by
  induction l with
  | nil => exact absurd h List.not_mem_nil
  | cons y l ih =>
      by_cases hy : y = a
      · rw [hy, before_cons_self, List.length_nil, List.idxOf?_cons, if_pos (beq_self_eq_true a)]
      · have htail : a ∈ l := (List.mem_cons.mp h).resolve_left (Ne.symm hy)
        rw [before_cons_of_ne hy, List.idxOf?_cons, if_neg (by simpa using hy), ih htail]
        rfl

end Lib
