import Mathlib.Tactic

/-!
# The delay between two attempts

A client that fails to connect waits before the next attempt.  The delay is chosen between a
lower limit and an upper one that doubles with every failed attempt.  Both are computed in
whole milliseconds, in 64 bits: a lower limit that is not a whole number of milliseconds is
rounded, and a large one loses bits when it is shifted.

Durations are in nanoseconds.
-/

namespace Itch

/-- The limits of the delay. -/
structure BackoffConfig where
  backoffMin : Nat
  backoffMax : Nat
deriving Repr, DecidableEq

namespace BackoffConfig

/-- `Duration::as_millis`, which rounds down. -/
def asMillis (duration : Nat) : Nat := duration / 10 ^ 6

/-- `Duration::from_millis`. -/
def fromMillis (ms : Nat) : Nat := ms * 10 ^ 6

/-- `u64::try_from`, with the largest word for what does not fit. -/
def toU64 (n : Nat) : Nat := min n (2 ^ 64 - 1)

/-- `u64::checked_shl` fails if there are more places than bits; bits that are shifted out
are lost. -/
def checkedShl (v places : Nat) : Option Nat :=
  if places < 64 then some (v * 2 ^ places % 2 ^ 64) else none

def minMs (cfg : BackoffConfig) : Nat :=
  toU64 (max (asMillis cfg.backoffMin) 1)

def maxMs (cfg : BackoffConfig) : Nat :=
  max (toU64 (asMillis cfg.backoffMax)) cfg.minMs

/-- The upper limit, the same for both clients. -/
def upperMs (cfg : BackoffConfig) (attempt : Nat) : Nat :=
  min ((checkedShl cfg.minMs (min attempt 30)).getD (2 ^ 64 - 1)) cfg.maxMs

end BackoffConfig

/-- The delay of the client, with a source of random numbers between two limits. -/
def ResilientSoupClient.backoffDelay (cfg : BackoffConfig) (attempt : Nat)
    (randomRange : Nat → Nat → Nat) : Nat :=
  let chosen :=
    if cfg.upperMs attempt ≤ cfg.minMs then cfg.minMs
    else randomRange cfg.minMs (cfg.upperMs attempt)
  BackoffConfig.fromMillis chosen

/-- The delay of the client for compressed feeds, which takes the middle. -/
def ResilientCompressedSoupClient.backoffDelay (cfg : BackoffConfig) (attempt : Nat) : Nat :=
  if cfg.upperMs attempt ≤ cfg.minMs then BackoffConfig.fromMillis cfg.minMs
  else
    BackoffConfig.fromMillis
      (min (cfg.minMs + (cfg.upperMs attempt - cfg.minMs) / 2) (2 ^ 64 - 1))

namespace BackoffConfig

variable {cfg : BackoffConfig}

/-! ## The limits -/

theorem minMs_pos : 0 < cfg.minMs := by
  unfold minMs toU64
  omega

theorem minMs_lt : cfg.minMs < 2 ^ 64 := by
  unfold minMs toU64
  omega

theorem upperMs_eq (cfg : BackoffConfig) (attempt : Nat) :
    cfg.upperMs attempt = min (cfg.minMs * 2 ^ min attempt 30 % 2 ^ 64) cfg.maxMs := by
  rw [upperMs, checkedShl, if_pos (by omega), Option.getD_some]

/-- The upper limit at no failed attempt is the lower one. -/
theorem upperMs_zero : cfg.upperMs 0 = cfg.minMs := by
  have hle : cfg.minMs ≤ cfg.maxMs := Nat.le_max_right _ _
  rw [upperMs_eq, Nat.zero_min, Nat.pow_zero, Nat.mul_one, Nat.mod_eq_of_lt minMs_lt,
    Nat.min_eq_left hle]

/-- The lower limit is a positive number of milliseconds that fits 64 bits. -/
def WholeMillis (cfg : BackoffConfig) : Prop :=
  ∃ ms, 0 < ms ∧ ms < 2 ^ 64 ∧ cfg.backoffMin = fromMillis ms

theorem wholeMillis_iff : cfg.WholeMillis ↔ cfg.backoffMin = fromMillis cfg.minMs := by
  constructor
  · rintro ⟨ms, hpos, hlt, hmin⟩
    have hms : cfg.minMs = ms := by
      unfold minMs asMillis toU64
      rw [hmin, fromMillis, Nat.mul_div_cancel _ (by decide)]
      omega
    rw [hms, hmin]
  · intro hmin
    exact ⟨cfg.minMs, minMs_pos, minMs_lt, hmin⟩

/-- The limits in milliseconds are those of the settings. -/
theorem fromMillis_maxMs_le (hwhole : cfg.WholeMillis) (hle : cfg.backoffMin ≤ cfg.backoffMax) :
    fromMillis cfg.maxMs ≤ cfg.backoffMax := by
  have hfits : toU64 (asMillis cfg.backoffMax) ≤ asMillis cfg.backoffMax := Nat.min_le_left _ _
  have hround : fromMillis (asMillis cfg.backoffMax) ≤ cfg.backoffMax := Nat.div_mul_le_self _ _
  unfold maxMs
  rcases Nat.le_total (toU64 (asMillis cfg.backoffMax)) cfg.minMs with hcap | hcap
  · rw [Nat.max_eq_right hcap, ← wholeMillis_iff.mp hwhole]
    exact hle
  · rw [Nat.max_eq_left hcap]
    exact (Nat.mul_le_mul_right _ hfits).trans hround

/-! ## The interval -/

/-- The delays a client may choose stay in the documented interval, and its upper end does
not shrink from one attempt to the next. -/
structure StaysWithin (cfg : BackoffConfig) (Delay : Nat → Nat → Prop) : Prop where
  interval : ∀ attempt d, Delay attempt d → cfg.backoffMin ≤ d ∧
    d ≤ min cfg.backoffMax (cfg.backoffMin * 2 ^ min attempt 30)
  upper_mono : ∀ a b, a ≤ b → cfg.upperMs a ≤ cfg.upperMs b

/-- A choice between the limits as they are computed. -/
structure Chooses (cfg : BackoffConfig) (Delay : Nat → Nat → Prop) : Prop where
  first : Delay 0 (fromMillis cfg.minMs)
  between : ∀ attempt d, Delay attempt d → ∃ ms, d = fromMillis ms ∧ cfg.minMs ≤ ms ∧
    ms ≤ max cfg.minMs (cfg.upperMs attempt)

variable {Delay : Nat → Nat → Prop}

theorem interval_iff (hchooses : cfg.Chooses Delay) (hle : cfg.backoffMin ≤ cfg.backoffMax) :
    (∀ attempt d, Delay attempt d → cfg.backoffMin ≤ d ∧
      d ≤ min cfg.backoffMax (cfg.backoffMin * 2 ^ min attempt 30)) ↔ cfg.WholeMillis := by
  constructor
  · intro h
    obtain ⟨hlower, hupper⟩ := h 0 _ hchooses.first
    rw [Nat.zero_min, Nat.pow_zero, Nat.mul_one] at hupper
    exact wholeMillis_iff.mpr (Nat.le_antisymm hlower (hupper.trans (Nat.min_le_right _ _)))
  · intro hwhole attempt d hd
    obtain ⟨ms, rfl, hlower, hupper⟩ := hchooses.between attempt d hd
    have hmin := wholeMillis_iff.mp hwhole
    have hmax := fromMillis_maxMs_le hwhole hle
    have hgrows : 1 ≤ 2 ^ min attempt 30 := Nat.one_le_two_pow
    have hscaled : cfg.minMs ≤ cfg.minMs * 2 ^ min attempt 30 := Nat.le_mul_of_pos_right _ hgrows
    have hshifted := Nat.mod_le (cfg.minMs * 2 ^ min attempt 30) (2 ^ 64)
    have hcap : cfg.minMs ≤ cfg.maxMs := Nat.le_max_right _ _
    rw [upperMs_eq] at hupper
    refine ⟨?_, Nat.le_min.mpr ⟨?_, ?_⟩⟩
    · rw [hmin]
      exact Nat.mul_le_mul_right _ hlower
    · exact (Nat.mul_le_mul_right _ (by omega)).trans hmax
    · rw [hmin, fromMillis, fromMillis, Nat.mul_right_comm]
      exact Nat.mul_le_mul_right _ (by omega)

/-- Where bits are lost, what is left of the lower limit still reaches the cap. -/
def KeepsCap (cfg : BackoffConfig) : Prop :=
  ∀ places ≤ 30, 2 ^ 64 ≤ cfg.minMs * 2 ^ places →
    cfg.maxMs ≤ cfg.minMs * 2 ^ places % 2 ^ 64

theorem KeepsCap.upper_mono (h : cfg.KeepsCap) {a b : Nat} (hab : a ≤ b) :
    cfg.upperMs a ≤ cfg.upperMs b := by
  rw [upperMs_eq, upperMs_eq]
  have hpow : 2 ^ min a 30 ≤ 2 ^ min b 30 := Nat.pow_le_pow_right (by decide) (by omega)
  have hscaled : cfg.minMs * 2 ^ min a 30 ≤ cfg.minMs * 2 ^ min b 30 :=
    Nat.mul_le_mul_left _ hpow
  by_cases hlost : 2 ^ 64 ≤ cfg.minMs * 2 ^ min b 30
  · rw [Nat.min_eq_right (h _ (by omega) hlost)]
    exact Nat.min_le_right _ _
  · have hkept := Nat.mod_eq_of_lt (Nat.lt_of_not_le hlost)
    have hkept' := Nat.mod_eq_of_lt (hscaled.trans_lt (Nat.lt_of_not_le hlost))
    omega

/-- The first bit that is lost takes more than half of the limit with it, so a limit that does
not shrink was at the cap before. -/
theorem keepsCap_of_mono (h : ∀ a b, a ≤ b → cfg.upperMs a ≤ cfg.upperMs b) : cfg.KeepsCap := by
  intro places hplaces
  induction places with
  | zero =>
      intro hlost
      rw [Nat.pow_zero, Nat.mul_one] at hlost
      exact absurd minMs_lt (Nat.not_lt.mpr hlost)
  | succ places ih =>
      intro hlost
      have hstep := h places (places + 1) (Nat.le_succ places)
      rw [upperMs_eq, upperMs_eq, Nat.min_eq_left (by omega : places ≤ 30),
        Nat.min_eq_left hplaces] at hstep
      have hdouble : cfg.minMs * 2 ^ (places + 1) = cfg.minMs * 2 ^ places * 2 := by
        rw [Nat.pow_succ, Nat.mul_assoc]
      rw [hdouble] at hlost hstep ⊢
      by_cases hbefore : 2 ^ 64 ≤ cfg.minMs * 2 ^ places
      · have hcap := ih (by omega) hbefore
        omega
      · omega

theorem upper_mono_iff :
    (∀ a b, a ≤ b → cfg.upperMs a ≤ cfg.upperMs b) ↔ cfg.KeepsCap :=
  ⟨keepsCap_of_mono, fun h _ _ => h.upper_mono⟩

theorem staysWithin_iff (hchooses : cfg.Chooses Delay) (hle : cfg.backoffMin ≤ cfg.backoffMax) :
    cfg.StaysWithin Delay ↔ cfg.WholeMillis ∧ cfg.KeepsCap := by
  rw [← interval_iff hchooses hle, ← upper_mono_iff]
  exact ⟨fun h => ⟨h.interval, h.upper_mono⟩, fun h => ⟨h.1, h.2⟩⟩

end BackoffConfig

/-! ## The two clients -/

/-- `random_range` returns a number between its limits. -/
def RandomRange (randomRange : Nat → Nat → Nat) : Prop :=
  ∀ lo hi, lo ≤ hi → lo ≤ randomRange lo hi ∧ randomRange lo hi ≤ hi

/-- What the client may return. -/
def ResilientSoupClient.Delays (cfg : BackoffConfig) (attempt d : Nat) : Prop :=
  ∃ randomRange, RandomRange randomRange ∧ backoffDelay cfg attempt randomRange = d

def ResilientCompressedSoupClient.Delays (cfg : BackoffConfig) (attempt d : Nat) : Prop :=
  backoffDelay cfg attempt = d

theorem ResilientSoupClient.backoffDelay_of_le {cfg : BackoffConfig} {attempt : Nat}
    (h : cfg.upperMs attempt ≤ cfg.minMs) (randomRange : Nat → Nat → Nat) :
    backoffDelay cfg attempt randomRange = BackoffConfig.fromMillis cfg.minMs := by
  rw [backoffDelay, if_pos h]

theorem ResilientSoupClient.chooses (cfg : BackoffConfig) : cfg.Chooses (Delays cfg) where
  first := by
    refine ⟨fun lo _ => lo, fun _ _ h => ⟨le_rfl, h⟩, ?_⟩
    exact backoffDelay_of_le BackoffConfig.upperMs_zero.le _
  between attempt d := by
    rintro ⟨randomRange, hrandom, rfl⟩
    refine ⟨_, rfl, ?_⟩
    split
    next => exact ⟨le_rfl, Nat.le_max_left _ _⟩
    next hlt =>
      obtain ⟨hlo, hhi⟩ := hrandom _ _ (Nat.le_of_not_le hlt)
      exact ⟨hlo, hhi.trans (Nat.le_max_right _ _)⟩

theorem ResilientCompressedSoupClient.chooses (cfg : BackoffConfig) : cfg.Chooses (Delays cfg) where
  first := by
    rw [Delays, backoffDelay, BackoffConfig.upperMs_zero, if_pos le_rfl]
  between attempt d := by
    rintro rfl
    have hmin : cfg.minMs < 2 ^ 64 := BackoffConfig.minMs_lt
    unfold backoffDelay
    split
    next => exact ⟨_, rfl, le_rfl, Nat.le_max_left _ _⟩
    next => exact ⟨_, rfl, by omega, by omega⟩

namespace BackoffConfig

/-- The delays of both clients stay in the documented interval exactly if the lower limit is a
positive number of whole milliseconds and the shift loses no bit that matters. -/
theorem backoff_within_iff (cfg : BackoffConfig) (hle : cfg.backoffMin ≤ cfg.backoffMax) :
    (cfg.StaysWithin (ResilientSoupClient.Delays cfg) ↔ cfg.WholeMillis ∧ cfg.KeepsCap) ∧
    (cfg.StaysWithin (ResilientCompressedSoupClient.Delays cfg) ↔
      cfg.WholeMillis ∧ cfg.KeepsCap) :=
  ⟨staysWithin_iff (ResilientSoupClient.chooses cfg) hle,
    staysWithin_iff (ResilientCompressedSoupClient.chooses cfg) hle⟩

/-- The defaults of both clients, 100 milliseconds and 30 seconds. -/
def defaults : BackoffConfig where
  backoffMin := 100 * 10 ^ 6
  backoffMax := 30000 * 10 ^ 6

theorem backoff_within_iff_defaults :
    defaults.StaysWithin (ResilientSoupClient.Delays defaults) ∧
      defaults.StaysWithin (ResilientCompressedSoupClient.Delays defaults) := by
  have hcond : defaults.WholeMillis ∧ defaults.KeepsCap := by
    refine ⟨⟨100, by decide, by decide, rfl⟩, fun places hplaces hlost => ?_⟩
    have hpow : 2 ^ places ≤ 2 ^ 30 := Nat.pow_le_pow_right (by decide) hplaces
    have hmin : defaults.minMs = 100 := rfl
    rw [hmin] at hlost
    omega
  obtain ⟨hsoup, hcompressed⟩ := backoff_within_iff defaults (by decide)
  exact ⟨hsoup.mpr hcond, hcompressed.mpr hcond⟩

/-- With both limits at a millisecond and a half the delay is one millisecond, with both at
zero too.  With a lower limit of `2 ^ 40` milliseconds the upper one falls to zero. -/
theorem backoff_leaves_interval :
    ((∀ randomRange, ResilientSoupClient.backoffDelay ⟨1500000, 1500000⟩ 1 randomRange = 1000000) ∧
      ¬ StaysWithin ⟨1500000, 1500000⟩ (ResilientSoupClient.Delays ⟨1500000, 1500000⟩)) ∧
    (ResilientCompressedSoupClient.backoffDelay ⟨1500000, 1500000⟩ 1 = 1000000 ∧
      ¬ StaysWithin ⟨1500000, 1500000⟩ (ResilientCompressedSoupClient.Delays ⟨1500000, 1500000⟩)) ∧
    ((∀ randomRange, ResilientSoupClient.backoffDelay ⟨0, 0⟩ 1 randomRange = 1000000) ∧
      ¬ StaysWithin ⟨0, 0⟩ (ResilientSoupClient.Delays ⟨0, 0⟩)) ∧
    (ResilientCompressedSoupClient.backoffDelay ⟨0, 0⟩ 1 = 1000000 ∧
      ¬ StaysWithin ⟨0, 0⟩ (ResilientCompressedSoupClient.Delays ⟨0, 0⟩)) ∧
    upperMs ⟨fromMillis (2 ^ 40), fromMillis (2 ^ 64 - 1)⟩ 23 = 2 ^ 63 ∧
    upperMs ⟨fromMillis (2 ^ 40), fromMillis (2 ^ 64 - 1)⟩ 24 = 0 ∧
    ∀ Delay, ¬ StaysWithin ⟨fromMillis (2 ^ 40), fromMillis (2 ^ 64 - 1)⟩ Delay := by
  have hrange : RandomRange fun lo _ => lo := fun _ _ hle => ⟨le_rfl, hle⟩
  have hsoup := @ResilientSoupClient.backoffDelay_of_le ⟨1500000, 1500000⟩ 1 (by decide)
  have hzero := @ResilientSoupClient.backoffDelay_of_le ⟨0, 0⟩ 1 (by decide)
  have hcompressed : ResilientCompressedSoupClient.backoffDelay ⟨1500000, 1500000⟩ 1 = 1000000 := by
    decide
  have hcompressedZero : ResilientCompressedSoupClient.backoffDelay ⟨0, 0⟩ 1 = 1000000 := by decide
  refine ⟨⟨hsoup, fun h => ?_⟩, ⟨hcompressed, fun h => ?_⟩, ⟨hzero, fun h => ?_⟩,
    ⟨hcompressedZero, fun h => ?_⟩, by decide, by decide, fun Delay h => ?_⟩
  · exact absurd (h.interval 1 1000000 ⟨_, hrange, hsoup _⟩).1 (by decide)
  · exact absurd (h.interval 1 1000000 hcompressed).1 (by decide)
  · exact absurd (h.interval 1 1000000 ⟨_, hrange, hzero _⟩).2 (by decide)
  · exact absurd (h.interval 1 1000000 hcompressedZero).2 (by decide)
  · exact absurd (h.upper_mono 23 24 (by decide)) (by decide)

end BackoffConfig

end Itch
