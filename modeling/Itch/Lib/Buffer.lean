import Mathlib.Tactic

/-!
# Ranges of a buffer

A fixed-layout record is read and written by offset.  `getRange` borrows the
elements `off .. off + n` of a buffer and `setRange` overwrites the elements
from `off` on.  Both fail when the range leaves the buffer; `overwrite` is the write whose
range was checked before.

A read is described by what lies where: `HasAt buf off x` says that `x` stands at
`off`, and a record lies at an offset exactly when its fields lie one after the
other (`hasAt_append`).  A write is described by how far it got: writing at the end
of the finished part extends it (`setRange_append`, `overwrite_append`).
-/

namespace Lib

variable {α : Type*}

/-- The elements `off .. off + n`, if the buffer has them. -/
def getRange (buf : List α) (off n : Nat) : Option (List α) :=
  if off + n ≤ buf.length then some ((buf.drop off).take n) else none

/-- The buffer with `src` written at `off`, if it fits. -/
def setRange (buf : List α) (off : Nat) (src : List α) : Option (List α) :=
  if off + src.length ≤ buf.length then
    some (buf.take off ++ src ++ buf.drop (off + src.length))
  else none

/-- The buffer with `src` written at `off`, for a range that is known to fit. -/
def overwrite (buf : List α) (off : Nat) (src : List α) : List α :=
  buf.take off ++ src ++ buf.drop (off + src.length)

/-- The elements `x` stand in `buf` at `off`. -/
def HasAt (buf : List α) (off : Nat) (x : List α) : Prop :=
  x <+: buf.drop off

/-! ## Reads -/

theorem hasAt_zero {buf x : List α} : HasAt buf 0 x ↔ x <+: buf :=
  Iff.rfl

/-- A record lies at an offset when its parts do. -/
@[simp] theorem hasAt_append {buf x y : List α} {off : Nat} :
    HasAt buf off (x ++ y) ↔ HasAt buf off x ∧ HasAt buf (off + x.length) y := by
  unfold HasAt
  rw [← List.drop_drop]
  constructor
  · rintro ⟨t, ht⟩
    rw [← ht, List.append_assoc]
    exact ⟨List.prefix_append _ _, by simp⟩
  · rintro ⟨⟨t, ht⟩, hy⟩
    rw [← ht] at hy ⊢
    rw [List.drop_left] at hy
    exact (List.prefix_append_right_inj x).mpr hy

/-- What stands at an offset is the range of its length. -/
theorem hasAt_iff_eq_take {buf x : List α} {off n : Nat} (h : x.length = n) :
    HasAt buf off x ↔ (buf.drop off).take n = x := by
  subst h
  rw [HasAt, List.prefix_iff_eq_take, eq_comm]

/-- The array filled from a list of its length. -/
theorem ofFn_getD_eq_iff {n : Nat} {s : List α} {d : α} {v : Vector α n} (h : s.length = n) :
    (Vector.ofFn fun i => s.getD i d) = v ↔ s = v.toList := by
  subst h
  constructor
  · rintro rfl
    refine List.ext_getElem (by simp) fun i hi _ => ?_
    simp
  · intro h
    ext i hi
    simp [h]

theorem getRange_eq_some {buf x : List α} {off n : Nat} (hn : 0 < n) :
    getRange buf off n = some x ↔ HasAt buf off x ∧ x.length = n := by
  unfold getRange HasAt
  constructor
  · intro h
    split at h
    next hle =>
      cases h
      refine ⟨List.take_prefix _ _, ?_⟩
      rw [List.length_take, List.length_drop]
      omega
    next => cases h
  · rintro ⟨⟨t, ht⟩, rfl⟩
    have hlen : x.length + t.length = buf.length - off := by
      rw [← List.length_append, ht, List.length_drop]
    rw [if_pos (by omega), ← ht, List.take_left]

theorem getRange_zero {buf : List α} {n : Nat} (h : n ≤ buf.length) :
    getRange buf 0 n = some (buf.take n) := by
  unfold getRange
  rw [if_pos (by omega), List.drop_zero]

/-! ## Writes -/

/-- A write at the end of the finished part extends it. -/
theorem overwrite_append {fin rest src : List α} {off : Nat} (h : fin.length = off) :
    overwrite (fin ++ rest) off src = fin ++ src ++ rest.drop src.length := by
  subst h
  rw [overwrite, List.take_left, ← List.drop_drop, List.drop_left]

theorem setRange_append {fin rest src : List α} {off : Nat} (h : fin.length = off)
    (hsrc : src.length ≤ rest.length) :
    setRange (fin ++ rest) off src = some (fin ++ src ++ rest.drop src.length) := by
  have hle : off + src.length ≤ (fin ++ rest).length := by
    rw [List.length_append, h]
    omega
  rw [setRange, if_pos hle]
  exact congrArg some (overwrite_append h)

end Lib
