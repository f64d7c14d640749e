import Itch.Lib.FinMap

/-!
# Words as numbers

Counters kept in a word of 64 bits agree with natural numbers as long as they stay below the
width.  The lemmas turn word arithmetic and word order into facts about `toNat`.
-/

namespace Lib

namespace Word64

theorem toNat_add {a : UInt64} {n : Nat} (h : a.toNat + n < 2 ^ 64) :
    (a + UInt64.ofNat n).toNat = a.toNat + n := by
  rw [UInt64.toNat_add, UInt64.toNat_ofNat', Nat.mod_eq_of_lt (show n < 2 ^ 64 by omega),
    Nat.mod_eq_of_lt h]

theorem toNat_succ {a : UInt64} (h : a.toNat + 1 < 2 ^ 64) : (a + 1).toNat = a.toNat + 1 :=
  toNat_add h

theorem toNat_ofNat {n : Nat} (h : n < 2 ^ 64) : (UInt64.ofNat n).toNat = n :=
  UInt64.toNat_ofNat_of_lt' h

theorem lt_iff {a b : UInt64} : a < b ↔ a.toNat < b.toNat :=
  UInt64.lt_iff_toNat_lt

theorem le_iff {a b : UInt64} : a ≤ b ↔ a.toNat ≤ b.toNat :=
  UInt64.le_iff_toNat_le

theorem eq_iff {a b : UInt64} : a = b ↔ a.toNat = b.toNat :=
  UInt64.toNat_inj.symm

/-- Below a word that is not the least one. -/
theorem le_pred_iff {a b c : UInt64} (h : a < b) : c ≤ b - 1 ↔ c < b := by
  have hlt := lt_iff.mp h
  have hone : (1 : UInt64).toNat ≤ b.toNat := Nat.succ_le_of_lt (by omega)
  have hpred : (b - 1).toNat = b.toNat - 1 := UInt64.toNat_sub_of_le _ _ (le_iff.mpr hone)
  rw [le_iff, lt_iff, hpred]
  omega

/-- The largest word. -/
def max : UInt64 := 0xffffffffffffffff

theorem toNat_max : max.toNat = 2 ^ 64 - 1 := rfl

theorem le_max (a : UInt64) : a.toNat ≤ 2 ^ 64 - 1 :=
  Nat.le_of_lt_succ a.toNat_lt

theorem succ_lt_of_ne_max {a : UInt64} (h : a ≠ max) : a.toNat + 1 < 2 ^ 64 := by
  have hle := le_max a
  have hne : a.toNat ≠ 2 ^ 64 - 1 := fun heq => h (eq_iff.mpr heq)
  omega

/-- The next word, or the same one at the top. -/
def saturatingSucc (a : UInt64) : UInt64 :=
  if a = max then a else a + 1

theorem toNat_saturatingSucc (a : UInt64) :
    (saturatingSucc a).toNat = min (a.toNat + 1) (2 ^ 64 - 1) := by
  have hle := le_max a
  unfold saturatingSucc
  split
  next h => rw [h, toNat_max]; rfl
  next h =>
    have hlt := succ_lt_of_ne_max h
    rw [toNat_succ hlt]
    omega

/-- The sum, or the largest word. -/
def saturatingAdd (a : UInt64) (n : Nat) : UInt64 :=
  UInt64.ofNat (min (a.toNat + n) (2 ^ 64 - 1))

theorem toNat_saturatingAdd (a : UInt64) (n : Nat) :
    (saturatingAdd a n).toNat = min (a.toNat + n) (2 ^ 64 - 1) := by
  rw [saturatingAdd]
  exact toNat_ofNat (by omega)

/-- The sum, if it is a word. -/
def checkedAdd (a : UInt64) (n : Nat) : Option UInt64 :=
  if a.toNat + n < 2 ^ 64 then some (a + UInt64.ofNat n) else none

theorem checkedAdd_of_lt {a : UInt64} {n : Nat} (h : a.toNat + n < 2 ^ 64) :
    checkedAdd a n = some (a + UInt64.ofNat n) :=
  if_pos h

theorem checkedAdd_of_not_lt {a : UInt64} {n : Nat} (h : ¬ a.toNat + n < 2 ^ 64) :
    checkedAdd a n = none :=
  if_neg h

/-- The difference, if it is a word. -/
def checkedSub (a b : UInt64) : Option UInt64 :=
  if b ≤ a then some (a - b) else none

theorem checkedSub_one {a b : UInt64} (h : a < b) : checkedSub b 1 = some (b - 1) := by
  have hlt := lt_iff.mp h
  have hone : (1 : UInt64).toNat ≤ b.toNat := Nat.succ_le_of_lt (by omega)
  exact if_pos (le_iff.mpr hone)

/-- The first key of a map is at most every key. -/
theorem toNat_first?_le {β : Type} {m : FinMap UInt64 β} {k a : UInt64} {v : β}
    (h : FinMap.first? m = some (k, v)) (ha : a ∈ m) : k.toNat ≤ a.toNat := by
  have hcmp := FinMap.compare_first? h ha
  rw [Ne, Std.compare_eq_gt, lt_iff] at hcmp
  exact Nat.le_of_not_lt hcmp

/-! ## Words read as signed numbers -/

theorem toInt_toInt64 {a : UInt64} (h : a.toNat < 2 ^ 63) : a.toInt64.toInt = a.toNat := by
  rw [← Int64.toInt_toBitVec, UInt64.toBitVec_toInt64, BitVec.toInt_eq_toNat_cond]
  exact if_pos (by show 2 * a.toNat < 2 ^ 64; omega)

theorem toNat_toUInt64 {i : Int64} (h : 0 ≤ i) : (i.toUInt64.toNat : Int) = i.toInt := by
  have hi := Int64.le_iff_toInt_le.mp h
  rw [Int64.toInt_zero, ← Int64.toInt_toBitVec, BitVec.toInt_eq_toNat_cond] at hi
  rw [← Int64.toInt_toBitVec, BitVec.toInt_eq_toNat_cond]
  have hlt := i.toBitVec.isLt
  have heq : i.toUInt64.toNat = i.toBitVec.toNat := rfl
  split at hi
  next hsmall => rw [if_pos hsmall, heq]
  next => omega

theorem toInt64_nonneg {a : UInt64} (h : a.toNat < 2 ^ 63) : 0 ≤ a.toInt64 := by
  rw [Int64.le_iff_toInt_le, toInt_toInt64 h]
  exact Int.natCast_nonneg _

theorem max_zero {i : Int64} (h : 0 ≤ i) : Max.max i 0 = i := by
  show (if i ≤ 0 then 0 else i) = i
  split
  next hle => exact Int64.le_antisymm h hle
  next => rfl

end Word64

/-! ## Words of 32 bits -/

namespace Word32

theorem lt_or_eq_or_gt (a b : UInt32) : a < b ∨ a = b ∨ b < a := by
  rw [← UInt32.toNat_inj, UInt32.lt_iff_toNat_lt, UInt32.lt_iff_toNat_lt]
  omega

theorem toNat_sub_of_lt {a b : UInt32} (h : b < a) : (a - b).toNat = a.toNat - b.toNat :=
  UInt32.toNat_sub_of_le _ _ (UInt32.le_of_lt h)

theorem sub_beq_zero_of_lt {a b : UInt32} (h : b < a) : (a - b == 0) = false := by
  have hsub := toNat_sub_of_lt h
  have hlt := UInt32.lt_iff_toNat_lt.mp h
  rw [beq_eq_false_iff_ne]
  intro hzero
  rw [hzero, UInt32.toNat_zero] at hsub
  omega

theorem sub_eq_self_iff {a n : UInt32} (h : n < a) : a - n = a ↔ n = 0 := by
  have hlt := UInt32.lt_iff_toNat_lt.mp h
  rw [← UInt32.toNat_inj, ← UInt32.toNat_inj, toNat_sub_of_lt h, UInt32.toNat_zero]
  omega

end Word32

end Lib
