import Mathlib.Tactic

/-!
# Big-endian words over bytes

A word of `w` bytes is written with its most significant byte first.  `toBE w n`
writes the low `8 * w` bits of `n`, and `ofBE` reads a byte string back.  The two
facts every codec needs are `ofBE_toBE`, reading what was written returns the
value modulo `256 ^ w`, and `toBE_ofBE`, writing what was read returns the bytes.
-/

namespace Lib

/-- The `w` low bytes of `n`, most significant first. -/
def toBE : Nat → Nat → List UInt8
  | 0, _ => []
  | w + 1, n => UInt8.ofNat (n / 256 ^ w) :: toBE w n

/-- The value of a big-endian byte string. -/
def ofBE : List UInt8 → Nat
  | [] => 0
  | b :: bs => b.toNat * 256 ^ bs.length + ofBE bs

@[simp] theorem toBE_length (w n : Nat) : (toBE w n).length = w := by
  induction w with
  | zero => rfl
  | succ w ih => simp [toBE, ih]

@[simp] theorem ofBE_nil : ofBE [] = 0 := rfl

theorem ofBE_cons (b : UInt8) (bs : List UInt8) :
    ofBE (b :: bs) = b.toNat * 256 ^ bs.length + ofBE bs := rfl

/-- Leading zero bytes do not change the value. -/
@[simp] theorem ofBE_zero_cons (bs : List UInt8) : ofBE (0 :: bs) = ofBE bs := by
  simp [ofBE_cons]

theorem ofBE_lt (bs : List UInt8) : ofBE bs < 256 ^ bs.length := by
  induction bs with
  | nil => simp
  | cons b bs ih =>
      have hb : b.toNat ≤ 255 := Nat.le_of_lt_succ b.toNat_lt
      have hmul : b.toNat * 256 ^ bs.length ≤ 255 * 256 ^ bs.length :=
        Nat.mul_le_mul_right _ hb
      rw [ofBE_cons, List.length_cons, Nat.pow_succ]
      omega

/-- Reading a written word returns it, cut to the width of the word. -/
theorem ofBE_toBE (w n : Nat) : ofBE (toBE w n) = n % 256 ^ w := by
  induction w with
  | zero => simp [toBE, Nat.mod_one]
  | succ w ih =>
      rw [toBE, ofBE_cons, toBE_length, ih, UInt8.toNat_ofNat']
      rw [Nat.pow_succ 256 w, Nat.mod_mul, Nat.mul_comm (256 ^ w), Nat.add_comm]

/-- A word that fits its width survives the round trip. -/
theorem ofBE_toBE_of_lt {w n : Nat} (h : n < 256 ^ w) : ofBE (toBE w n) = n := by
  rw [ofBE_toBE, Nat.mod_eq_of_lt h]

/-- Writing depends only on the low bytes of the value. -/
theorem toBE_add_mul (w n k : Nat) : toBE w (k * 256 ^ w + n) = toBE w n := by
  induction w generalizing k with
  | zero => rfl
  | succ w ih =>
      have hpos : 0 < 256 ^ w := Nat.pow_pos (by decide)
      have hsplit : k * 256 ^ (w + 1) + n = (k * 256) * 256 ^ w + n := by
        rw [Nat.pow_succ]; ring
      rw [toBE, toBE, hsplit, ih]
      congr 1
      rw [Nat.add_comm, Nat.add_mul_div_right _ _ hpos]
      apply UInt8.toNat_inj.mp
      simp only [UInt8.toNat_ofNat']
      omega

/-- Writing a value that was read gives the bytes back. -/
theorem toBE_ofBE (bs : List UInt8) : toBE bs.length (ofBE bs) = bs := by
  induction bs with
  | nil => rfl
  | cons b bs ih =>
      have hpos : 0 < 256 ^ bs.length := Nat.pow_pos (by decide)
      have hdiv : (b.toNat * 256 ^ bs.length + ofBE bs) / 256 ^ bs.length = b.toNat := by
        rw [Nat.add_comm, Nat.add_mul_div_right _ _ hpos, Nat.div_eq_of_lt (ofBE_lt bs)]
        omega
      rw [List.length_cons, ofBE_cons, toBE, hdiv, toBE_add_mul, ih]
      simp

theorem toBE_ofBE_of_length {bs : List UInt8} {w : Nat} (h : bs.length = w) :
    toBE w (ofBE bs) = bs := by
  subst h
  exact toBE_ofBE bs

theorem ofBE_lt_of_length {bs : List UInt8} {w : Nat} (h : bs.length = w) :
    ofBE bs < 256 ^ w := by
  subst h
  exact ofBE_lt bs

/-- A byte string of the right width is the word of its value and of no other. -/
theorem ofBE_eq_iff {bs : List UInt8} {w n : Nat} (h : bs.length = w) (hn : n < 256 ^ w) :
    ofBE bs = n ↔ bs = toBE w n := by
  constructor
  · rintro rfl
    exact (toBE_ofBE_of_length h).symm
  · rintro rfl
    exact ofBE_toBE_of_lt hn

theorem u16_ofBE_iff {bs : List UInt8} {v : UInt16} (h : bs.length = 2) :
    UInt16.ofNat (ofBE bs) = v ↔ bs = toBE 2 v.toNat := by
  rw [← ofBE_eq_iff h v.toNat_lt, ← UInt16.toNat_inj,
    UInt16.toNat_ofNat_of_lt' (ofBE_lt_of_length h)]

theorem u32_ofBE_iff {bs : List UInt8} {v : UInt32} (h : bs.length = 4) :
    UInt32.ofNat (ofBE bs) = v ↔ bs = toBE 4 v.toNat := by
  rw [← ofBE_eq_iff h v.toNat_lt, ← UInt32.toNat_inj,
    UInt32.toNat_ofNat_of_lt' (ofBE_lt_of_length h)]

theorem u64_ofBE_iff {bs : List UInt8} {v : UInt64} (h : bs.length = 8) :
    UInt64.ofNat (ofBE bs) = v ↔ bs = toBE 8 v.toNat := by
  rw [← ofBE_eq_iff h v.toNat_lt, ← UInt64.toNat_inj,
    UInt64.toNat_ofNat_of_lt' (ofBE_lt_of_length h)]

/-- The low bytes of a wider word. -/
theorem drop_toBE (w k n : Nat) : (toBE (k + w) n).drop k = toBE w n := by
  induction k with
  | zero => simp
  | succ k ih =>
      rw [show k + 1 + w = (k + w) + 1 by omega, toBE, List.drop_succ_cons, ih]

end Lib
