import Mathlib.Tactic
import Mathlib.Order.Interval.Set.Basic

/-!
# The first missing number

A consumer of a numbered feed stands at the first number it has not seen.
`IsFirstMissing C s f` says that `f` is the least number from `s` on outside of the set
`C` of what was seen.  The lemmas say how it moves when an interval is added.
-/

namespace Lib

/-- `f` is the first number from `s` on that is not in `C`. -/
structure IsFirstMissing (C : Set Nat) (s f : Nat) : Prop where
  le : s ≤ f
  not_mem : f ∉ C
  mem : ∀ k, s ≤ k → k < f → k ∈ C

namespace IsFirstMissing

variable {C D : Set Nat} {s f g a b : Nat}

theorem unique (hf : IsFirstMissing C s f) (hg : IsFirstMissing C s g) : f = g := by
  rcases Nat.lt_trichotomy f g with h | h | h
  · exact absurd (hg.mem f hf.le h) hf.not_mem
  · exact h
  · exact absurd (hf.mem g hg.le h) hg.not_mem

/-- Adding numbers other than the first missing one does not move it. -/
theorem union (h : IsFirstMissing C s f) (hf : f ∉ D) : IsFirstMissing (C ∪ D) s f where
  le := h.le
  not_mem := fun hmem => hmem.elim h.not_mem hf
  mem := fun k hs hk => .inl (h.mem k hs hk)

/-- Adding an interval around the first missing number moves it to the first number
missing from the end of the interval on. -/
theorem union_Ico (h : IsFirstMissing C s f) (hab : f ∈ Set.Ico a b)
    (hg : IsFirstMissing C b g) : IsFirstMissing (C ∪ Set.Ico a b) s g where
  le := h.le.trans (hab.2.le.trans hg.le)
  not_mem := fun hmem => hmem.elim hg.not_mem fun hg' => absurd hg'.2 (Nat.not_lt.mpr hg.le)
  mem := by
    intro k hs hk
    by_cases hkf : k < f
    · exact .inl (h.mem k hs hkf)
    · by_cases hkb : k < b
      · exact .inr ⟨hab.1.trans (Nat.le_of_not_lt hkf), hkb⟩
      · exact .inl (hg.mem k (Nat.le_of_not_lt hkb) hk)

/-- Only what lies from `s` on matters. -/
theorem congr (h : IsFirstMissing C s f) (hCD : ∀ k, s ≤ k → (k ∈ C ↔ k ∈ D)) :
    IsFirstMissing D s f where
  le := h.le
  not_mem := fun hmem => h.not_mem ((hCD f h.le).mpr hmem)
  mem := fun k hs hk => (hCD k hs).mp (h.mem k hs hk)

/-- A set that fills `s .. b` and has nothing from `b` on. -/
theorem of_filled (hsb : s ≤ b) (hfill : ∀ k, s ≤ k → k < b → k ∈ C)
    (hlt : ∀ k ∈ C, k < b) : IsFirstMissing C s b where
  le := hsb
  not_mem := fun hmem => Nat.lt_irrefl b (hlt b hmem)
  mem := hfill

end IsFirstMissing

end Lib
