import Mathlib.Tactic

/-!
# Natural numbers as doubles

A number that is read as a double keeps 53 significant bits and is rounded to the nearest such
number, ties to even.  Up to `2 ^ 53` nothing is lost.  Beyond that different numbers may be
read as the same one, but their order is never turned round.
-/

namespace Lib

namespace Double

/-- The weight of the last bit that is kept. -/
def unit (n : Nat) : Nat :=
  2 ^ (n.log2 - 52)

/-- The double nearest to a natural number. -/
def round (n : Nat) : Nat :=
  let kept := n / unit n
  let dropped := n % unit n
  if unit n < 2 * dropped ∨ 2 * dropped = unit n ∧ kept % 2 = 1 then (kept + 1) * unit n
  else kept * unit n

variable {n m k : Nat}

theorem unit_pos (n : Nat) : 0 < unit n :=
  Nat.two_pow_pos _

theorem round_cases (n : Nat) :
    round n = n / unit n * unit n ∨ round n = (n / unit n + 1) * unit n := by
  unfold round
  dsimp only
  split
  next => exact .inr rfl
  next => exact .inl rfl

theorem unit_of_lt (h : n < 2 ^ 53) : unit n = 1 := by
  have hlog : n.log2 ≤ 52 := by
    by_cases hn : n = 0
    · simp [hn]
    · exact Nat.le_of_lt_succ ((Nat.log2_lt hn).mpr h)
  rw [unit, Nat.sub_eq_zero_of_le hlog, Nat.pow_zero]

/-- Small numbers are doubles. -/
theorem round_of_le (h : n ≤ 2 ^ 53) : round n = n := by
  rcases Nat.lt_or_eq_of_le h with hlt | rfl
  · simp [round, unit_of_lt hlt, Nat.mod_one]
  · decide

/-- The powers of two beyond the last bit that is kept are doubles. -/
theorem unit_dvd (h : n.log2 ≤ k) : unit n ∣ 2 ^ k :=
  pow_dvd_pow 2 (by omega)

theorem round_le_pow (h : n < 2 ^ k) : round n ≤ 2 ^ k := by
  have hlog : n.log2 ≤ k := by
    by_cases hn : n = 0
    · simp [hn]
    · exact ((Nat.log2_lt hn).mpr h).le
  obtain ⟨c, hc⟩ := unit_dvd hlog
  have hkept : n / unit n < c := by
    rw [Nat.div_lt_iff_lt_mul (unit_pos n), Nat.mul_comm]
    omega
  have hbound : round n ≤ c * unit n := by
    rcases round_cases n with hdown | hup
    · rw [hdown]
      exact Nat.mul_le_mul_right _ hkept.le
    · rw [hup]
      exact Nat.mul_le_mul_right _ hkept
  rw [hc, Nat.mul_comm]
  exact hbound

theorem pow_le_round (h : 2 ^ k ≤ n) (hlog : n.log2 = k) : 2 ^ k ≤ round n := by
  obtain ⟨c, hc⟩ := unit_dvd (Nat.le_of_eq hlog)
  have hkept : c ≤ n / unit n := by
    rw [Nat.le_div_iff_mul_le (unit_pos n), Nat.mul_comm]
    omega
  have hbound : c * unit n ≤ round n := by
    rcases round_cases n with hdown | hup
    · rw [hdown]
      exact Nat.mul_le_mul_right _ hkept
    · rw [hup]
      exact Nat.mul_le_mul_right _ (by omega)
  rw [hc, Nat.mul_comm]
  exact hbound

/-- Among numbers that keep the same bits. -/
theorem round_mono_of_unit (h : n ≤ m) (hunit : unit n = unit m) : round n ≤ round m := by
  have hkept : n / unit n ≤ m / unit n := Nat.div_le_div_right h
  rcases Nat.lt_or_eq_of_le hkept with hlt | heq
  · have hn : round n ≤ (n / unit n + 1) * unit n := by
      rcases round_cases n with hdown | hup
      · rw [hdown]
        exact Nat.mul_le_mul_right _ (by omega)
      · rw [hup]
    have hm : m / unit n * unit n ≤ round m := by
      rcases round_cases m with hdown | hup
      · rw [hdown, hunit]
      · rw [hup, hunit]
        exact Nat.mul_le_mul_right _ (by omega)
    exact hn.trans ((Nat.mul_le_mul_right _ hlt).trans hm)
  · -- what is dropped decides, and it is no less for the larger number
    have hdropped : n % unit n ≤ m % unit n := by
      have hn := Nat.div_add_mod n (unit n)
      have hm := Nat.div_add_mod m (unit n)
      rw [← heq] at hm
      omega
    unfold round
    rw [← hunit, ← heq]
    dsimp only
    split
    next hup =>
      rw [if_pos (by omega)]
    next =>
      split
      next => exact Nat.mul_le_mul_right _ (by omega)
      next => exact le_rfl

theorem round_mono (h : n ≤ m) : round n ≤ round m := by
  by_cases hn : n = 0
  · have hzero : round 0 = 0 := by decide
    rw [hn, hzero]
    exact Nat.zero_le _
  have hm : m ≠ 0 := by omega
  rcases Nat.lt_or_ge n.log2 m.log2 with hlt | hge
  · have hpow : 2 ^ m.log2 ≤ m := Nat.log2_self_le hm
    have hlow : n < 2 ^ m.log2 := (Nat.log2_lt hn).mp hlt
    exact (round_le_pow hlow).trans (pow_le_round hpow rfl)
  · have hlog : n.log2 = m.log2 := by
      refine Nat.le_antisymm ?_ hge
      rw [Nat.le_log2 hm]
      exact (Nat.log2_self_le hn).trans h
    exact round_mono_of_unit h (by rw [unit, unit, hlog])

/-- Numbers that are told apart as doubles are in this order. -/
theorem lt_of_round_lt (h : round n < round m) : n < m := by
  by_contra hle
  exact absurd h (Nat.not_lt.mpr (round_mono (Nat.le_of_not_lt hle)))

end Double

end Lib
