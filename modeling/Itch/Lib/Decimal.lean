import Mathlib.Data.Nat.Digits.Defs
import Mathlib.Tactic

/-!
# Decimal numbers in ASCII

`digits` writes a number with its most significant digit first and `read` reads a digit
string, checking after each digit that the number stays below a bound.  Reading what was
written returns every number below the bound, and reading succeeds on no other strings than
those of digits whose value is below it.
-/

namespace Lib

namespace Decimal

/-- The ASCII digit of a number below ten. -/
def digit (d : Nat) : UInt8 :=
  UInt8.ofNat (0x30 + d)

def isDigit (b : UInt8) : Bool :=
  0x30 ≤ b && b ≤ 0x39

/-- The loop that writes the digits of a positive number in front of `acc`. -/
def digitsLoop : Nat → Nat → List UInt8 → List UInt8
  | 0, _, acc => acc
  | fuel + 1, n, acc => if n = 0 then acc else digitsLoop fuel (n / 10) (digit (n % 10) :: acc)

/-- The digits of a number of at most `width` digits. -/
def digits (width n : Nat) : List UInt8 :=
  if n = 0 then [digit 0] else digitsLoop width n []

/-- The number after one more digit. -/
def push (v : Nat) (b : UInt8) : Nat :=
  v * 10 + (b.toNat - 0x30)

theorem toNat_digit {d : Nat} (h : d < 10) : (digit d).toNat = 0x30 + d := by
  rw [digit, UInt8.toNat_ofNat']
  exact Nat.mod_eq_of_lt (by omega)

theorem isDigit_digit {d : Nat} (h : d < 10) : isDigit (digit d) := by
  simp only [isDigit, Bool.and_eq_true, decide_eq_true_eq, UInt8.le_iff_toNat_le, toNat_digit h]
  exact ⟨by simp, by simp; omega⟩

theorem push_digit (v : Nat) {d : Nat} (h : d < 10) : push v (digit d) = v * 10 + d := by
  rw [push, toNat_digit h]
  omega

theorem length_digitsLoop_le (fuel n : Nat) (acc : List UInt8) :
    (digitsLoop fuel n acc).length ≤ fuel + acc.length := by
  induction fuel generalizing n acc with
  | zero => simp [digitsLoop]
  | succ fuel ih =>
      unfold digitsLoop
      split
      next => omega
      next =>
        have hlen := ih (n / 10) (digit (n % 10) :: acc)
        rw [List.length_cons] at hlen
        omega

theorem length_digits_le {width : Nat} (hwidth : 0 < width) (n : Nat) :
    (digits width n).length ≤ width := by
  unfold digits
  split
  next => exact hwidth
  next => simpa using length_digitsLoop_le width n []

theorem isDigit_of_mem_digitsLoop {fuel n : Nat} {acc : List UInt8}
    (hacc : ∀ b ∈ acc, isDigit b) : ∀ b ∈ digitsLoop fuel n acc, isDigit b := by
  induction fuel generalizing n acc with
  | zero => exact hacc
  | succ fuel ih =>
      unfold digitsLoop
      split
      next => exact hacc
      next =>
        refine ih fun b hb => ?_
        rcases List.mem_cons.mp hb with rfl | hb
        · exact isDigit_digit (Nat.mod_lt _ (by decide))
        · exact hacc b hb

theorem isDigit_of_mem_digits {width n : Nat} : ∀ b ∈ digits width n, isDigit b := by
  unfold digits
  split
  next =>
    intro b hb
    rw [List.mem_singleton.mp hb]
    exact isDigit_digit (by decide)
  next => exact isDigit_of_mem_digitsLoop fun b hb => absurd hb List.not_mem_nil

/-- Read a digit string from `v` on.  The first byte that is no digit, or that takes the
number to `bound`, is an error. -/
def read (bound : Nat) : Nat → List UInt8 → Except UInt8 Nat
  | v, [] => .ok v
  | v, b :: bs =>
      if isDigit b = false then .error b
      else if push v b < bound then read bound (push v b) bs
      else .error b

/-- Reading the digits of `n` in front of `acc` is reading `acc` from `n` on. -/
theorem read_digitsLoop {bound fuel n : Nat} {acc : List UInt8} (hfuel : n < 10 ^ fuel)
    (hbound : n < bound) : read bound 0 (digitsLoop fuel n acc) = read bound n acc := by
  induction fuel generalizing n acc with
  | zero =>
      have hzero : n = 0 := by simpa using hfuel
      rw [digitsLoop, hzero]
  | succ fuel ih =>
      unfold digitsLoop
      split
      next h => rw [h]
      next h =>
        have hlt : n % 10 < 10 := Nat.mod_lt _ (by decide)
        have hpush : push (n / 10) (digit (n % 10)) = n := by
          rw [push_digit _ hlt]
          omega
        rw [ih (by rw [Nat.pow_succ] at hfuel; omega) (by omega), read,
          if_neg (by simp [isDigit_digit hlt]), hpush, if_pos hbound]

/-- Reading what was written returns the number. -/
theorem read_digits {bound width n : Nat} (hwidth : n < 10 ^ width) (hbound : n < bound) :
    read bound 0 (digits width n) = .ok n := by
  unfold digits
  split
  next h =>
    subst h
    have hpush : push 0 (digit 0) = 0 := push_digit 0 (by decide)
    rw [read, if_neg (by simp [isDigit_digit]), hpush, if_pos hbound, read]
  next => rw [read_digitsLoop hwidth hbound, read]

/-! ## The value of a digit string -/

/-- The number a digit string stands for. -/
def value (s : List UInt8) : Nat :=
  Nat.ofDigits 10 (s.reverse.map fun b => b.toNat - 0x30)

theorem value_nil : value [] = 0 := rfl

theorem value_concat (s : List UInt8) (b : UInt8) : value (s ++ [b]) = push (value s) b := by
  rw [value, List.reverse_append, List.reverse_singleton, List.singleton_append, List.map_cons,
    Nat.ofDigits_cons, push, value]
  omega

theorem foldl_push (s : List UInt8) : s.foldl push 0 = value s := by
  induction s using List.reverseRecOn with
  | nil => rfl
  | append_singleton s b ih => rw [List.foldl_concat, ih, value_concat]

theorem le_foldl_push (v : Nat) (s : List UInt8) : v ≤ s.foldl push v := by
  induction s generalizing v with
  | nil => exact le_rfl
  | cons b s ih =>
      have hstep : v ≤ push v b := by
        rw [push]
        omega
      exact hstep.trans (ih (push v b))

/-- A string is read exactly if it has digits only and its number stays below the bound. -/
theorem read_eq_ok_iff {bound v n : Nat} {s : List UInt8} (hv : v < bound) :
    read bound v s = .ok n ↔ (∀ b ∈ s, isDigit b) ∧ s.foldl push v = n ∧ n < bound := by
  induction s generalizing v with
  | nil =>
      rw [read, Except.ok.injEq, List.foldl_nil]
      exact ⟨fun h => ⟨fun b hb => absurd hb List.not_mem_nil, h, h ▸ hv⟩, fun h => h.2.1⟩
  | cons b s ih =>
      rw [List.forall_mem_cons, List.foldl_cons, read]
      split
      next hdigit =>
        rw [hdigit]
        exact ⟨nofun, fun h => absurd h.1.1 (by decide)⟩
      next hdigit =>
        rw [Bool.not_eq_false] at hdigit
        split
        next hlt => rw [ih hlt, and_iff_right hdigit]
        next hge =>
          -- the number only grows with the digits to come
          have hgrows := le_foldl_push (push v b) s
          exact ⟨nofun, fun h => absurd h.2.2 (by omega)⟩

/-- The digits of a number stand for it. -/
theorem value_digits {width n : Nat} (hwidth : n < 10 ^ width) : value (digits width n) = n := by
  have hread : read (n + 1) 0 (digits width n) = .ok n := read_digits hwidth (Nat.lt_succ_self n)
  rw [← foldl_push]
  exact ((read_eq_ok_iff (Nat.succ_pos n)).mp hread).2.1

/-- The digits of a positive number start with one that is not zero. -/
theorem digitsLoop_head {fuel n : Nat} {acc : List UInt8} (hpos : 0 < n) (hfuel : n < 10 ^ fuel) :
    ∃ d ds, 0 < d ∧ d < 10 ∧ digitsLoop fuel n acc = digit d :: ds := by
  induction fuel generalizing n acc with
  | zero =>
      rw [Nat.pow_zero] at hfuel
      omega
  | succ fuel ih =>
      rw [digitsLoop, if_neg (Nat.ne_of_gt hpos)]
      by_cases hlast : n / 10 = 0
      · refine ⟨n % 10, acc, by omega, Nat.mod_lt n (by decide), ?_⟩
        rw [hlast]
        cases fuel with
        | zero => rfl
        | succ fuel => rfl
      · rw [Nat.pow_succ] at hfuel
        exact ih (by omega) (by omega)

/-- There is no zero in front of other digits. -/
theorem digits_cases {width n : Nat} (hwidth : n < 10 ^ width) :
    digits width n = [digit 0] ∨
      ∃ d ds, 0 < d ∧ d < 10 ∧ digits width n = digit d :: ds := by
  unfold digits
  split
  next => exact .inl rfl
  next h => exact .inr (digitsLoop_head (Nat.pos_of_ne_zero h) hwidth)

theorem digits_ne_nil {width n : Nat} (hwidth : n < 10 ^ width) : digits width n ≠ [] := by
  rcases digits_cases hwidth with hds | ⟨d, ds, -, -, hds⟩
  · rw [hds]
    exact List.cons_ne_nil _ _
  · rw [hds]
    exact List.cons_ne_nil _ _

theorem digits_of_head {width n : Nat} (hwidth : n < 10 ^ width)
    (hzero : (digits width n).head? = some (digit 0)) : digits width n = [digit 0] := by
  rcases digits_cases hwidth with hds | ⟨d, ds, hpos, hlt, hds⟩
  · exact hds
  · rw [hds, List.head?_cons, Option.some_inj] at hzero
    have hd : 0x30 + d = 0x30 + 0 := by
      rw [← toNat_digit hlt, hzero, toNat_digit (by decide)]
    omega

end Decimal

end Lib
