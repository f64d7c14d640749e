import Itch.Lib.PollStream
import Itch.Lib.Run
import Itch.Protocol.Messages

/-!
# Paced sources

A paced source takes the messages of an inner stream and gives each out at its time.  A
message that comes before its time is held with a sleep, and the inner stream is not polled
again until the sleep is over.

* `MaxSpeed` gives everything out at once.
* `Fixed` waits until a period has passed since the last message.  The instant of the next
  message is an addition that panics if the sum is not an instant, and the message is gone
  with it.
* `Realtime` waits for the difference of the timestamps.

Instants and durations are in nanoseconds.  The clock is read up to three times in a poll,
and nothing is assumed of what it returns.
-/

namespace Itch

open Lib

inductive Pacing where
  | maxSpeed
  | fixed (period : Nat)
  | realtime
deriving Repr, DecidableEq

/-- The readings of the clock in one poll. -/
structure Readings where
  /-- By the timer, when the sleep is polled. -/
  timer : Nat
  now : Nat
  /-- When a sleep of some length starts. -/
  start : Nat
deriving Repr, DecidableEq

/-- The answer to a poll. -/
inductive PacedPoll (ε : Type) where
  | panics
  | pending
  | ready (item : Option (Except ε Message))

/-- The result, if it is not pending. -/
def PacedPoll.items {ε : Type} : PacedPoll ε → List (Option (Except ε Message))
  | .ready item => [item]
  | .pending | .panics => []

structure PacedSource (σ : Type) where
  inner : σ
  pacing : Pacing
  /-- The message that is held. -/
  pending : Option Message
  /-- The end of the sleep that is under way. -/
  sleep : Option Nat
  lastTsNs : Option UInt64
  lastTick : Option Nat

namespace PacedSource

variable {σ ε : Type}

def paced (inner : σ) (pacing : Pacing) : PacedSource σ where
  inner := inner
  pacing := pacing
  pending := none
  sleep := none
  lastTsNs := none
  lastTick := none

def emit (s : PacedSource σ) (msg : Message) : PacedPoll ε × PacedSource σ :=
  (.ready (some (.ok msg)), { s with lastTsNs := some msg.header.timestamp })

def hold (s : PacedSource σ) (msg : Message) (deadline : Nat) : PacedPoll ε × PacedSource σ :=
  (.pending, { s with pending := some msg, sleep := some deadline })

/-- The end of a `sleep`, in thirty years if the sum is not an instant. -/
def sleepEnd (latest start delay : Nat) : Nat :=
  if start + delay ≤ latest then start + delay else start + 86400 * 365 * 30 * 10 ^ 9

section Poll

variable (latest : Nat)

/-- What becomes of a message, on a platform whose instants end at `latest`. -/
def pace (r : Readings) (s : PacedSource σ) (msg : Message) : PacedPoll ε × PacedSource σ :=
  match s.pacing with
  | .maxSpeed => s.emit msg
  | .fixed period =>
      match s.lastTick with
      | none => { s with lastTick := some r.now }.emit msg
      | some prev =>
          if latest < prev + period then (.panics, s)
          else if prev + period ≤ r.now then { s with lastTick := some r.now }.emit msg
          else { s with lastTick := some (prev + period) }.hold msg (prev + period)
  | .realtime =>
      match s.lastTsNs with
      | none => s.emit msg
      | some prevTs =>
          if msg.header.timestamp ≤ prevTs then s.emit msg
          else s.hold msg (sleepEnd latest r.start (msg.header.timestamp - prevTs).toNat)

variable (poll : σ → Option (Option (Except ε Message)) × σ)

/-- The next item of the inner stream. -/
def pull (r : Readings) (s : PacedSource σ) : PacedPoll ε × PacedSource σ :=
  match poll s.inner with
  | (none, inner) => (.pending, { s with inner := inner })
  | (some none, inner) => (.ready none, { s with inner := inner })
  | (some (some (.error e)), inner) => (.ready (some (.error e)), { s with inner := inner })
  | (some (some (.ok msg)), inner) => pace latest r { s with inner := inner } msg

def pollNext (r : Readings) (s : PacedSource σ) : PacedPoll ε × PacedSource σ :=
  match s.sleep with
  | some deadline =>
      if r.timer < deadline then (.pending, s)
      else match s.pending with
        | some msg => { s with sleep := none, pending := none }.emit msg
        | none => pull latest poll r { s with sleep := none }
  | none => pull latest poll r s

end Poll

/-! ## What a poll does -/

/-- A message is held exactly while a sleep is under way. -/
def Armed (s : PacedSource σ) : Prop :=
  s.pending.isSome ↔ s.sleep.isSome

/-- The next message is pulled when the instant of its emission is out of range. -/
def Overflows (latest : Nat) (poll : σ → Option (Option (Except ε Message)) × σ)
    (s : PacedSource σ) : Prop :=
  s.sleep = none ∧ (∃ msg, (poll s.inner).1 = some (some (.ok msg))) ∧
    ∃ period prev, s.pacing = .fixed period ∧ s.lastTick = some prev ∧ latest < prev + period

/-- What a poll does. -/
inductive Moves (latest : Nat) (poll : σ → Option (Option (Except ε Message)) × σ) (r : Readings)
    (s : PacedSource σ) : PacedPoll ε × PacedSource σ → Prop where
  | asleep {deadline : Nat} : s.sleep = some deadline → r.timer < deadline →
      Moves latest poll r s (.pending, s)
  | woken {deadline : Nat} {msg : Message} {s' : PacedSource σ} :
      s.sleep = some deadline → deadline ≤ r.timer → s.pending = some msg →
      s'.inner = s.inner → s'.sleep = none → s'.pending = none →
      Moves latest poll r s (.ready (some (.ok msg)), s')
  | waited {s' : PacedSource σ} : s.sleep = none → poll s.inner = (none, s'.inner) →
      s'.sleep = none → s'.pending = s.pending → ¬ Overflows latest poll s →
      Moves latest poll r s (.pending, s')
  | passed {item : Option (Except ε Message)} {s' : PacedSource σ} : s.sleep = none →
      poll s.inner = (some item, s'.inner) → s'.sleep = none → s'.pending = s.pending →
      ¬ Overflows latest poll s →
      Moves latest poll r s (.ready item, s')
  | held {msg : Message} {deadline : Nat} {s' : PacedSource σ} : s.sleep = none →
      poll s.inner = (some (some (.ok msg)), s'.inner) → s'.sleep = some deadline →
      s'.pending = some msg → ¬ Overflows latest poll s →
      Moves latest poll r s (.pending, s')
  | panicked {msg : Message} {s' : PacedSource σ} : s.sleep = none →
      poll s.inner = (some (some (.ok msg)), s'.inner) → s'.sleep = none →
      s'.pending = s.pending → Overflows latest poll s →
      Moves latest poll r s (.panics, s')

variable {latest : Nat} {poll : σ → Option (Option (Except ε Message)) × σ} {r : Readings}
  {s : PacedSource σ} {next : PacedPoll ε × PacedSource σ}

/-- Only a fixed period overflows. -/
theorem not_overflows_of_pacing (h : ∀ period, s.pacing ≠ .fixed period) :
    ¬ Overflows latest poll s := by
  rintro ⟨-, -, period, prev, hpacing, -⟩
  exact h period hpacing

theorem pace_moves {msg : Message} {inner : σ} (hsleep : s.sleep = none)
    (hpoll : poll s.inner = (some (some (.ok msg)), inner)) :
    Moves latest poll r s (pace latest r { s with inner := inner } msg) := by
  have hpass (hnot : ¬ Overflows latest poll s) (s' : PacedSource σ) (hinner : s'.inner = inner)
      (hsleep' : s'.sleep = none) (hpending : s'.pending = s.pending) :
      Moves latest poll r s (s'.emit msg) :=
    .passed hsleep (hinner ▸ hpoll) hsleep' hpending hnot
  have hhold (hnot : ¬ Overflows latest poll s) (s' : PacedSource σ) (deadline : Nat)
      (hinner : s'.inner = inner) : Moves latest poll r s (s'.hold msg deadline) :=
    .held hsleep (hinner ▸ hpoll) rfl rfl hnot
  unfold pace
  cases hpacing : s.pacing with
  | maxSpeed =>
      exact hpass (not_overflows_of_pacing (by simp [hpacing])) _ rfl hsleep rfl
  | fixed period =>
      cases htick : s.lastTick with
      | none =>
          refine hpass ?_ _ rfl hsleep rfl
          rintro ⟨-, -, _, prev, -, hprev, -⟩
          cases htick.symm.trans hprev
      | some prev =>
          have hiff : Overflows latest poll s ↔ latest < prev + period := by
            refine ⟨?_, fun hover =>
              ⟨hsleep, ⟨msg, congrArg Prod.fst hpoll⟩, period, prev, hpacing, htick, hover⟩⟩
            rintro ⟨-, -, period', prev', hpacing', hprev', hover⟩
            cases hpacing.symm.trans hpacing'
            cases htick.symm.trans hprev'
            exact hover
          dsimp only
          split
          next hover => exact .panicked hsleep hpoll hsleep rfl (hiff.mpr hover)
          next hfits =>
            split
            next => exact hpass (mt hiff.mp hfits) _ rfl hsleep rfl
            next => exact hhold (mt hiff.mp hfits) _ _ rfl
  | realtime =>
      have hnot : ¬ Overflows latest poll s := not_overflows_of_pacing (by simp [hpacing])
      cases s.lastTsNs with
      | none => exact hpass hnot _ rfl hsleep rfl
      | some prevTs =>
          dsimp only
          split
          next => exact hpass hnot _ rfl hsleep rfl
          next => exact hhold hnot _ _ rfl

theorem pull_moves (hsleep : s.sleep = none) : Moves latest poll r s (pull latest poll r s) := by
  have hnot {answer : Option (Option (Except ε Message))} {inner : σ}
      (hpoll : poll s.inner = (answer, inner)) (hnever : ∀ msg, answer ≠ some (some (.ok msg))) :
      ¬ Overflows latest poll s := by
    rintro ⟨-, ⟨msg, hmsg⟩, -⟩
    rw [hpoll] at hmsg
    exact hnever msg hmsg
  unfold pull
  match hpoll : poll s.inner with
  | (none, inner) => exact .waited hsleep hpoll hsleep rfl (hnot hpoll (by simp))
  | (some none, inner) => exact .passed hsleep hpoll hsleep rfl (hnot hpoll (by simp))
  | (some (some (.error e)), inner) =>
      exact .passed hsleep hpoll hsleep rfl (hnot hpoll (by simp))
  | (some (some (.ok msg)), inner) => exact pace_moves hsleep hpoll

theorem pollNext_moves (harmed : s.Armed) : Moves latest poll r s (pollNext latest poll r s) := by
  unfold pollNext
  cases hsleep : s.sleep with
  | none => exact pull_moves hsleep
  | some deadline =>
      dsimp only
      split
      next hlt => exact .asleep hsleep hlt
      next hge =>
        obtain ⟨msg, hmsg⟩ : ∃ msg, s.pending = some msg := by
          rw [← Option.isSome_iff_exists]
          exact harmed.mpr (by rw [hsleep]; rfl)
        rw [hmsg]
        exact .woken hsleep (Nat.le_of_not_lt hge) hmsg rfl rfl rfl

theorem Armed.pending_eq_none (h : s.Armed) (hsleep : s.sleep = none) : s.pending = none := by
  rw [← Option.not_isSome_iff_eq_none]
  intro hsome
  have hslept := h.mp hsome
  rw [hsleep] at hslept
  cases hslept

theorem Moves.armed (hmoves : Moves latest poll r s next) (h : s.Armed) : next.2.Armed := by
  cases hmoves with
  | asleep => exact h
  | woken _ _ _ _ hsleep hpending =>
      rw [Armed, hpending, hsleep]
      exact Iff.rfl
  | waited hsleep _ hsleep' hpending | passed hsleep _ hsleep' hpending
  | panicked hsleep _ hsleep' hpending =>
      rw [Armed, hpending, hsleep', h.pending_eq_none hsleep]
      exact Iff.rfl
  | held _ _ hsleep hpending =>
      rw [Armed, hpending, hsleep]
      exact Iff.rfl

/-! ## Any schedule of polls -/

/-- A source over a stream with a log, and what it has returned so far. -/
structure Polled (σ ε : Type) where
  source : PacedSource (σ × List (Option (Except ε Message)))
  returned : List (Option (Except ε Message))

namespace Polled

/-- What the inner stream has returned so far. -/
def pulled (p : Polled σ ε) : List (Option (Except ε Message)) := p.source.inner.2

/-- The message that is held, as it will be returned. -/
def held (p : Polled σ ε) : List (Option (Except ε Message)) :=
  (p.source.pending.map fun msg => some (.ok msg)).toList

def start (inner : σ) (pacing : Pacing) : Polled σ ε where
  source := paced (inner, []) pacing
  returned := []

def record (p : Polled σ ε)
    (next : PacedPoll ε × PacedSource (σ × List (Option (Except ε Message)))) : Polled σ ε where
  source := next.2
  returned := p.returned ++ next.1.items

variable (latest poll) in
def step (p : Polled σ ε) (r : Readings) : Polled σ ε :=
  p.record (pollNext latest (logged poll) r p.source)

/-- The results are those of the inner stream, in order and each once, up to a message that
is held; and one is held exactly if a sleep is armed. -/
structure Faithful (p : Polled σ ε) : Prop where
  exact : p.returned ++ p.held = p.pulled
  armed : p.source.Armed

theorem faithful_start (inner : σ) (pacing : Pacing) :
    (start inner pacing : Polled σ ε).Faithful :=
  ⟨rfl, Iff.rfl⟩

variable {p : Polled σ ε}

theorem held_eq_nil (h : p.source.pending = none) : p.held = [] := by
  rw [held, h]
  rfl

theorem held_eq_singleton {msg : Message} (h : p.source.pending = some msg) :
    p.held = [some (.ok msg)] := by
  rw [held, h]
  rfl

/-- A poll keeps the results those of the inner stream exactly if it does not overflow. -/
theorem Faithful.record_iff {next : PacedPoll ε × PacedSource (σ × List (Option (Except ε Message)))}
    (h : p.Faithful) (hmoves : Moves latest (logged poll) r p.source next) :
    (p.record next).Faithful ↔ ¬ Overflows latest (logged poll) p.source := by
  have hexact := h.exact
  have harmed : (p.record next).source.Armed := hmoves.armed h.armed
  have hidle (hsleep : p.source.sleep = none) : p.returned = p.pulled := by
    rw [held_eq_nil (h.armed.pending_eq_none hsleep), List.append_nil] at hexact
    exact hexact
  have hawake {deadline : Nat} (hsleep : p.source.sleep = some deadline) :
      ¬ Overflows latest (logged poll) p.source := by
    rintro ⟨hnone, -⟩
    cases hsleep.symm.trans hnone
  cases hmoves with
  | asleep hsleep =>
      refine iff_of_true ⟨?_, harmed⟩ (hawake hsleep)
      exact (congrArg (· ++ p.held) (List.append_nil _)).trans hexact
  | woken hsleep _ hpending hinner _ hpending' =>
      refine iff_of_true ⟨?_, harmed⟩ (hawake hsleep)
      rw [held_eq_nil hpending', List.append_nil, pulled]
      rw [held_eq_singleton hpending] at hexact
      exact hexact.trans (congrArg Prod.snd hinner.symm)
  | waited hsleep hpoll _ hpending hnot =>
      refine iff_of_true ⟨?_, harmed⟩ hnot
      rw [held_eq_nil (hpending.trans (h.armed.pending_eq_none hsleep)), List.append_nil]
      exact (List.append_nil _).trans ((hidle hsleep).trans
        ((List.append_nil _).symm.trans (log_of_logged hpoll).symm))
  | passed hsleep hpoll _ hpending hnot =>
      refine iff_of_true ⟨?_, harmed⟩ hnot
      rw [held_eq_nil (hpending.trans (h.armed.pending_eq_none hsleep)), List.append_nil]
      exact (congrArg (· ++ _) (hidle hsleep)).trans (log_of_logged hpoll).symm
  | held hsleep hpoll _ hpending hnot =>
      refine iff_of_true ⟨?_, harmed⟩ hnot
      rw [held_eq_singleton hpending]
      have hreturned : p.returned ++ [] = p.pulled := (List.append_nil _).trans (hidle hsleep)
      exact (congrArg (· ++ _) hreturned).trans (log_of_logged hpoll).symm
  | panicked hsleep hpoll _ hpending hover =>
      -- the message was pulled and is neither returned nor held
      refine iff_of_false (fun hfaithful => ?_) (not_not_intro hover)
      have hlost := hfaithful.exact
      rw [held_eq_nil (hpending.trans (h.armed.pending_eq_none hsleep)), List.append_nil, pulled,
        show (p.record _).source.inner.2 = _ from log_of_logged hpoll] at hlost
      have hlen := congrArg List.length (hlost.symm.trans ((List.append_nil _).trans (hidle hsleep)))
      rw [List.length_append] at hlen
      exact absurd hlen (Nat.succ_ne_self _)

theorem faithful_step_iff (h : p.Faithful) (r : Readings) :
    (p.step latest poll r).Faithful ↔ ¬ Overflows latest (logged poll) p.source :=
  h.record_iff (pollNext_moves h.armed)

/-- The results stay those of the inner stream exactly as long as no poll overflows. -/
theorem faithful_iff (inner : σ) (pacing : Pacing) (schedule : List Readings) :
    (∀ polls, polls <+: schedule →
      (polls.foldl (step latest poll) (start inner pacing)).Faithful) ↔
    Along (step latest poll) (fun p _ => ¬ Overflows latest (logged poll) p.source)
      (start inner pacing) schedule := by
  have hany : Along (step latest poll) (fun _ _ => True) (start inner pacing) schedule :=
    along_of_forall fun _ _ => trivial
  exact forall_prefix_iff_along hany (faithful_start inner pacing) (fun _ h => h)
    (fun _ r h _ hnot => (faithful_step_iff h r).mpr hnot)
    (fun _ r h _ hstep => (faithful_step_iff h r).mp hstep)

end Polled

/-! ## Polling to the end -/

section ToTheEnd

variable (latest poll) in
/-- The source as a stream, polled again and again with the readings of a clock. -/
def pollOn : PacedSource σ × (Nat → Readings) →
    Option (Option (Except ε Message)) × PacedSource σ × (Nat → Readings)
  | (s, clock) =>
      let (result, s) := pollNext latest poll (clock 0) s
      (result.items.head?, s, fun n => clock (n + 1))

/-- The timer gets past every instant. -/
def TimePasses (clock : Nat → Readings) : Prop :=
  ∀ deadline n, ∃ k, deadline ≤ (clock (n + k)).timer

theorem TimePasses.tail {clock : Nat → Readings} (h : TimePasses clock) :
    TimePasses fun n => clock (n + 1) := by
  intro deadline n
  obtain ⟨k, hk⟩ := h deadline (n + 1)
  rw [Nat.add_right_comm] at hk
  exact ⟨k, hk⟩

variable (latest poll) in
/-- No poll overflows, however often the source is polled. -/
def NeverOverflows (s : PacedSource σ) (clock : Nat → Readings) : Prop :=
  ∀ n, ¬ Overflows latest poll ((fun p => (pollOn latest poll p).2)^[n] (s, clock)).1

variable {clock : Nat → Readings} {s' : PacedSource σ} {items : List (Except ε Message)}

theorem NeverOverflows.tail {result : PacedPoll ε} (h : NeverOverflows latest poll s clock)
    (hnext : pollNext latest poll (clock 0) s = (result, s')) :
    NeverOverflows latest poll s' fun n => clock (n + 1) := by
  intro n
  have hn := h (n + 1)
  rw [Function.iterate_succ_apply, pollOn, hnext] at hn
  exact hn

theorem pollOn_eq {result : PacedPoll ε} (hnext : pollNext latest poll (clock 0) s = (result, s')) :
    pollOn latest poll (s, clock) = (result.items.head?, s', fun n => clock (n + 1)) := by
  rw [pollOn, hnext]

theorem pacing_pollNext (r : Readings) (s : PacedSource σ) :
    (pollNext latest poll r s).2.pacing = s.pacing := by
  have hpace (s : PacedSource σ) (msg : Message) :
      (pace latest r s msg : PacedPoll ε × PacedSource σ).2.pacing = s.pacing := by
    unfold pace
    repeat' split
    all_goals rfl
  have hpull (s : PacedSource σ) : (pull latest poll r s).2.pacing = s.pacing := by
    unfold pull
    split
    next => rfl
    next => rfl
    next => rfl
    next => exact hpace _ _
  unfold pollNext
  split
  next =>
    split
    next => rfl
    next =>
      split
      next => rfl
      next => exact hpull _
  next => exact hpull _

theorem neverOverflows_of_pacing (h : ∀ period, s.pacing ≠ .fixed period) :
    NeverOverflows latest poll s clock := by
  intro n
  refine not_overflows_of_pacing ?_
  suffices hsame : ((fun p => (pollOn latest poll p).2)^[n] (s, clock)).1.pacing = s.pacing by
    rw [hsame]
    exact h
  induction n with
  | zero => rfl
  | succ n ih =>
      rw [Function.iterate_succ_apply']
      exact (pacing_pollNext _ _).trans ih

/-- A message that is held is returned once its time has come. -/
theorem yields_of_held {msg : Message} {deadline : Nat} (hsleep : s.sleep = some deadline)
    (hpending : s.pending = some msg) (htime : TimePasses clock)
    (hnever : NeverOverflows latest poll s clock)
    (hrest : ∀ s' clock', s'.inner = s.inner → s'.Armed → s'.sleep = none → TimePasses clock' →
      NeverOverflows latest poll s' clock' → Yields (pollOn latest poll) (s', clock') items) :
    Yields (pollOn latest poll) (s, clock) (.ok msg :: items) := by
  have hpoll (r : Readings) : pollNext latest poll r s =
      if r.timer < deadline then (.pending, s)
      else { s with sleep := none, pending := none }.emit msg := by
    rw [pollNext, hsleep, hpending]
  obtain ⟨k, hk⟩ := htime deadline 0
  rw [Nat.zero_add] at hk
  induction k generalizing clock with
  | zero =>
      have hnext := hpoll (clock 0)
      rw [if_neg (Nat.not_lt.mpr hk)] at hnext
      exact .item (pollOn_eq hnext) (hrest _ _ rfl Iff.rfl rfl htime.tail (hnever.tail hnext))
  | succ k ih =>
      have hnext := hpoll (clock 0)
      split at hnext
      next => exact .pending (pollOn_eq hnext) (ih htime.tail (hnever.tail hnext) hk)
      next =>
        exact .item (pollOn_eq hnext) (hrest _ _ rfl Iff.rfl rfl htime.tail (hnever.tail hnext))

/-- A poll of a source that does not sleep passes the answer of the inner stream on, or holds
its message. -/
theorem pollNext_awake {answer : Option (Option (Except ε Message))} {inner : σ}
    (harmed : s.Armed) (hsleep : s.sleep = none) (hnot : ¬ Overflows latest poll s)
    (hpoll : poll s.inner = (answer, inner)) (r : Readings) :
    ∃ result s', pollNext latest poll r s = (result, s') ∧ s'.inner = inner ∧
      (result.items.head? = answer ∧ s'.Armed ∧ s'.sleep = none ∨
        ∃ msg deadline, result = .pending ∧ answer = some (some (.ok msg)) ∧
          s'.sleep = some deadline ∧ s'.pending = some msg) := by
  have hmoves : Moves latest poll r s (pollNext latest poll r s) := pollNext_moves harmed
  have harmed' := hmoves.armed harmed
  generalize pollNext latest poll r s = next at hmoves harmed'
  cases hmoves with
  | asleep hsleep' | woken hsleep' => cases hsleep.symm.trans hsleep'
  | waited _ hpoll' hsleep' | passed _ hpoll' hsleep' =>
      cases hpoll.symm.trans hpoll'
      exact ⟨_, _, rfl, rfl, .inl ⟨rfl, harmed', hsleep'⟩⟩
  | held _ hpoll' hsleep' hpending =>
      cases hpoll.symm.trans hpoll'
      exact ⟨_, _, rfl, rfl, .inr ⟨_, _, rfl, rfl, hsleep', hpending⟩⟩
  | panicked _ _ _ _ hover => exact absurd hover hnot

/-- A source that is polled to the end yields what its inner stream does. -/
theorem yields_of_inner {inner : σ} (hinner : Yields poll inner items) (heq : s.inner = inner)
    (harmed : s.Armed) (hsleep : s.sleep = none) (htime : TimePasses clock)
    (hnever : NeverOverflows latest poll s clock) :
    Yields (pollOn latest poll) (s, clock) items := by
  induction hinner generalizing s clock with
  | done hpoll =>
      obtain ⟨result, s', hnext, -, ⟨hresult, -⟩ | ⟨_, _, -, hanswer, -⟩⟩ :=
        pollNext_awake harmed hsleep (hnever 0) (heq ▸ hpoll) (clock 0)
      · exact .done (hresult ▸ pollOn_eq hnext)
      · cases hanswer
  | item hpoll _ ih =>
      obtain ⟨result, s', hnext, hinner, ⟨hresult, harmed', hsleep'⟩ |
          ⟨msg, deadline, rfl, hanswer, hsleep', hpending⟩⟩ :=
        pollNext_awake harmed hsleep (hnever 0) (heq ▸ hpoll) (clock 0)
      · exact .item (hresult ▸ pollOn_eq hnext)
          (ih hinner harmed' hsleep' htime.tail (hnever.tail hnext))
      · cases hanswer
        refine .pending (pollOn_eq hnext)
          (yields_of_held hsleep' hpending htime.tail (hnever.tail hnext) ?_)
        exact fun _ _ hsame harmed hsleep htime hnever =>
          ih (hsame.trans hinner) harmed hsleep htime hnever
  | pending hpoll _ ih =>
      obtain ⟨result, s', hnext, hinner, ⟨hresult, harmed', hsleep'⟩ | ⟨_, _, -, hanswer, -⟩⟩ :=
        pollNext_awake harmed hsleep (hnever 0) (heq ▸ hpoll) (clock 0)
      · exact .pending (hresult ▸ pollOn_eq hnext)
          (ih hinner harmed' hsleep' htime.tail (hnever.tail hnext))
      · cases hanswer

end ToTheEnd

/-- Pacing loses, repeats and reorders nothing, for every schedule of polls, exactly as long as
the instant of the next message is in range whenever one is pulled.  And polled to the end, a
source yields what its inner stream does. -/
theorem pacing_exact_iff (latest : Nat) (poll : σ → Option (Option (Except ε Message)) × σ)
    (inner : σ) (pacing : Pacing) :
    (∀ schedule : List Readings,
      (∀ polls, polls <+: schedule →
        (polls.foldl (Polled.step latest poll) (Polled.start inner pacing)).Faithful) ↔
      Along (Polled.step latest poll) (fun p _ => ¬ Overflows latest (logged poll) p.source)
        (Polled.start inner pacing) schedule) ∧
    ∀ (clock : Nat → Readings) (items : List (Except ε Message)), TimePasses clock →
      NeverOverflows latest poll (paced inner pacing) clock → Yields poll inner items →
      Yields (pollOn latest poll) (paced inner pacing, clock) items :=
  ⟨fun schedule => Polled.faithful_iff inner pacing schedule,
    fun _ _ htime hnever hinner => yields_of_inner hinner rfl Iff.rfl rfl htime hnever⟩

/-- A stream that is always ready. -/
def pollList : List (Except Unit Message) →
    Option (Option (Except Unit Message)) × List (Except Unit Message)
  | [] => (some none, [])
  | item :: items => (some (some item), items)

def stamped (ns : UInt64) : Message :=
  .systemEvent { header := { stockLocate := 0, trackingNumber := 0, timestamp := ns },
                 eventCode := .startOfMessages }

/-- Two messages, one after the other, with the gap between their timestamps. -/
theorem pacing_exact_iff_realtime :
    Yields (pollOn 100 pollList) (paced [.ok (stamped 0), .ok (stamped 5)] .realtime,
      fun n => { timer := n, now := n, start := n }) [.ok (stamped 0), .ok (stamped 5)] := by
  refine (pacing_exact_iff 100 pollList _ .realtime).2 _ _ (fun deadline n => ⟨deadline, ?_⟩)
    (neverOverflows_of_pacing nofun) (.item rfl (.item rfl (.done rfl)))
  exact Nat.le_add_left deadline n

/-- The largest duration as the period, on a platform whose instants have 63 bits of seconds:
the second message is pulled, and neither returned nor held. -/
theorem longest_period_loses_message :
    let r : Readings := { timer := 0, now := 0, start := 0 }
    let p := [r, r].foldl (Polled.step ((2 ^ 63 - 1) * 10 ^ 9 + 999999999) pollList)
      (Polled.start [.ok (stamped 0), .ok (stamped 5)]
        (.fixed ((2 ^ 64 - 1) * 10 ^ 9 + 999999999)))
    p.pulled = [some (.ok (stamped 0)), some (.ok (stamped 5))] ∧
      p.returned = [some (.ok (stamped 0))] ∧ p.held = [] :=
  ⟨rfl, rfl, rfl⟩

end PacedSource

end Itch
