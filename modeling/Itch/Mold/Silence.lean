import Itch.Mold.GapRecovery

/-!
# The silence timer

`poll_next` once more, with its clock: the stream remembers when it saw the last packet, and a
timer expires when nothing has come for the time of a warning and then of a dead link.  In the
model of the recovery client a poll is told when the link is dead; here the timer finds out.

A turn of the loop reads the socket and, when there is nothing to read, polls the timer.  The
timer branch either returns, or re-arms the timer and loops.  Before the dead link is reported
the new deadline lies in the future.  Afterwards it is the one that has passed already, so that
the next expiry makes the poll spin.
-/

namespace Itch

open Lib

/-- The thresholds of `MoldConfig`, in the units of the clock. -/
structure SilenceConfig where
  silenceWarning : Nat
  silenceDeadLink : Nat
deriving Repr, DecidableEq

/-- A stream with the fields that drive the timer. -/
structure TimedStream where
  stream : MoldStream
  lastSeen : Nat
  softWarned : Bool
  /-- The deadline of the sleep. -/
  silenceTimer : Nat

/-- What the socket has for a turn of the loop. -/
inductive SocketRead where
  | datagram (bytes : Bytes)
  | ioError
deriving Repr, DecidableEq

/-- What a turn of the loop finds: the socket, and the readings of the clock in their order. -/
structure Turn where
  /-- `none` when the socket is pending. -/
  socket : Option SocketRead
  first : Nat
  second : Nat
  third : Nat
  first_le : first ≤ second
  second_le : second ≤ third

namespace TimedStream

/-- The construction reads the clock for `last_seen` and once more for the sleep. -/
def fromSocket (cfg : SilenceConfig) (mold : MoldConfig) (first second : Nat) : TimedStream where
  stream := .new mold
  lastSeen := first
  softWarned := false
  silenceTimer := second + cfg.silenceWarning

/-- Reset the silence timer to "just received a packet". -/
def touchPacket (cfg : SilenceConfig) (s : TimedStream) (now : Nat) : TimedStream :=
  { stream := { s.stream with deadLinkPending := false }
    lastSeen := now
    softWarned := false
    silenceTimer := now + cfg.silenceWarning }

/-- Re-arm the timer to the next deadline. -/
def rearmSilenceTimer (cfg : SilenceConfig) (s : TimedStream) : TimedStream :=
  { s with
    silenceTimer :=
      if !s.softWarned then s.lastSeen + cfg.silenceWarning
      else s.lastSeen + cfg.silenceDeadLink }

def checkSilence (cfg : SilenceConfig) (s : TimedStream) (now : Nat) :
    Option MoldError × TimedStream :=
  let elapsed := now - s.lastSeen
  let s := if !s.softWarned && decide (elapsed ≥ cfg.silenceWarning) then
      { s with softWarned := true }
    else s
  if decide (elapsed ≥ cfg.silenceDeadLink) && !s.stream.deadLinkPending then
    (some .peerSilent, { s with stream := { s.stream with deadLinkPending := true } })
  else (none, s)

/-- The part of a turn that polls the timer.  Without a result the loop goes on. -/
def silenceTurn (cfg : SilenceConfig) (s : TimedStream) (t : Turn) :
    Option (Poll (Option (Except MoldError MoldEvent))) × TimedStream :=
  if s.silenceTimer ≤ t.first then
    match s.checkSilence cfg t.second with
    | (some err, s) =>
        (some (.ready (some (.error err))), { s with silenceTimer := t.third + cfg.silenceDeadLink })
    | (none, s) => (none, s.rearmSilenceTimer cfg)
  else (some .pending, s)

/-- A turn of the loop of `poll_next`. -/
def turn (cfg : SilenceConfig) (s : TimedStream) (t : Turn) :
    Option (Poll (Option (Except MoldError MoldEvent))) × TimedStream :=
  match t.socket with
  | some (.datagram bytes) =>
      let s := s.touchPacket cfg t.first
      match MoldPacket.decode (bytes.take recvBufferLen) with
      | .error err => (some (.ready (some (.error err))), s)
      | .ok pkt =>
          let stream := { s.stream with state := s.stream.state.ingest pkt }
          match stream.popEvent with
          | some (event, stream) => (some (.ready (some event)), { s with stream := stream })
          -- a late packet: try another receive
          | none => (none, { s with stream := stream })
  | some .ioError => (some (.ready (some (.error .io))), s)
  | none => s.silenceTurn cfg t

/-- The loop.  It has no result while it still runs. -/
def readLoop (cfg : SilenceConfig) : TimedStream → List Turn →
    Option (Poll (Option (Except MoldError MoldEvent))) × TimedStream
  | s, [] => (none, s)
  | s, t :: ts =>
      match s.turn cfg t with
      | (some answer, s) => (some answer, s)
      | (none, s) => readLoop cfg s ts

def pollNext (cfg : SilenceConfig) (s : TimedStream) (ts : List Turn) :
    Option (Poll (Option (Except MoldError MoldEvent))) × TimedStream :=
  if s.stream.finished then (some (.ready none), s)
  else
    match s.stream.popEvent with
    | some (event, stream) => (some (.ready (some event)), { s with stream := stream })
    | none => s.readLoop cfg ts

def ingestRetransmit (cfg : SilenceConfig) (s : TimedStream) (frames : List CachedFrame)
    (now : Nat) : TimedStream :=
  { s with stream := s.stream.ingestRetransmit frames }.touchPacket cfg now

/-! ## The timer branch -/

variable {cfg : SilenceConfig} {mold : MoldConfig} {s s' : TimedStream} {t : Turn}

/-- Whether the warning has been given once the clock stands at `now`. -/
def warnedAt (cfg : SilenceConfig) (s : TimedStream) (now : Nat) : Bool :=
  s.softWarned || decide (cfg.silenceWarning ≤ now - s.lastSeen)

theorem checkSilence_eq (cfg : SilenceConfig) (s : TimedStream) (now : Nat) :
    s.checkSilence cfg now =
      if cfg.silenceDeadLink ≤ now - s.lastSeen ∧ s.stream.deadLinkPending = false then
        (some .peerSilent,
          { s with
            stream := { s.stream with deadLinkPending := true }
            softWarned := s.warnedAt cfg now })
      else (none, { s with softWarned := s.warnedAt cfg now }) := by
  have hwarned : (if !s.softWarned && decide (now - s.lastSeen ≥ cfg.silenceWarning) then
      { s with softWarned := true } else s) = { s with softWarned := s.warnedAt cfg now } := by
    obtain ⟨stream, lastSeen, softWarned, silenceTimer⟩ := s
    unfold warnedAt
    dsimp only
    cases softWarned with
    | true => rfl
    | false =>
        by_cases h : cfg.silenceWarning ≤ now - lastSeen
        · simp [h]
        · simp [h]
  unfold checkSilence
  dsimp only
  rw [hwarned]
  refine if_congr ?_ rfl rfl
  rw [Bool.and_eq_true, decide_eq_true_iff, Bool.not_eq_true']

/-- The branch waits for the deadline, reports the dead link once, or re-arms. -/
theorem silenceTurn_eq (cfg : SilenceConfig) (s : TimedStream) (t : Turn) :
    s.silenceTurn cfg t =
      if s.silenceTimer ≤ t.first then
        if cfg.silenceDeadLink ≤ t.second - s.lastSeen ∧ s.stream.deadLinkPending = false then
          (some (.ready (some (.error .peerSilent))),
            { stream := { s.stream with deadLinkPending := true }
              lastSeen := s.lastSeen
              softWarned := s.warnedAt cfg t.second
              silenceTimer := t.third + cfg.silenceDeadLink })
        else
          (none,
            { stream := s.stream
              lastSeen := s.lastSeen
              softWarned := s.warnedAt cfg t.second
              silenceTimer :=
                if s.warnedAt cfg t.second then s.lastSeen + cfg.silenceDeadLink
                else s.lastSeen + cfg.silenceWarning })
      else (some .pending, s) := by
  unfold silenceTurn
  rw [checkSilence_eq]
  by_cases hdead : cfg.silenceDeadLink ≤ t.second - s.lastSeen ∧ s.stream.deadLinkPending = false
  · rw [if_pos hdead, if_pos hdead]
  · rw [if_neg hdead, if_neg hdead]
    unfold rearmSilenceTimer
    dsimp only
    cases s.warnedAt cfg t.second with
    | true => rfl
    | false => rfl

/-! ## The stream without its clock -/

/-- The untimed loop comes to the same result on some items, or reads them and goes on from
the same state. -/
def Follows (stream : MoldStream) :
    Option (Poll (Option (Except MoldError MoldEvent))) × TimedStream → Prop
  | (some answer, s) => ∃ items, stream.readLoop items = (answer, s.stream)
  | (none, s) => ∃ items, ∀ rest, stream.readLoop (items ++ rest) = s.stream.readLoop rest

theorem follows_turn (cfg : SilenceConfig) (s : TimedStream) (t : Turn) :
    Follows s.stream (s.turn cfg t) := by
  unfold turn
  cases t.socket with
  | none =>
      dsimp only
      rw [silenceTurn_eq]
      split
      next =>
        split
        next h =>
          refine ⟨[.silence], ?_⟩
          rw [MoldStream.readLoop, h.2]
          rfl
        next => exact ⟨[], fun rest => rfl⟩
      next => exact ⟨[], rfl⟩
  | some read =>
      cases read with
      | ioError => exact ⟨[.ioError], rfl⟩
      | datagram bytes =>
          dsimp only [touchPacket]
          cases hdecode : MoldPacket.decode (bytes.take recvBufferLen) with
          | error err =>
              refine ⟨[.datagram bytes], ?_⟩
              rw [MoldStream.readLoop, hdecode]
          | ok pkt =>
              dsimp only
              cases hpop : MoldStream.popEvent
                  { s.stream with
                    deadLinkPending := false
                    state := s.stream.state.ingest pkt } with
              | none =>
                  refine ⟨[.datagram bytes], fun rest => ?_⟩
                  rw [List.singleton_append, MoldStream.readLoop, hdecode]
                  dsimp only
                  rw [hpop]
              | some popped =>
                  refine ⟨[.datagram bytes], ?_⟩
                  rw [MoldStream.readLoop, hdecode]
                  dsimp only
                  rw [hpop]

theorem follows_readLoop (cfg : SilenceConfig) (s : TimedStream) (ts : List Turn) :
    Follows s.stream (s.readLoop cfg ts) := by
  induction ts generalizing s with
  | nil => exact ⟨[], fun rest => rfl⟩
  | cons t ts ih =>
      rw [readLoop]
      have hturn := follows_turn cfg s t
      generalize s.turn cfg t = result at hturn
      obtain ⟨_ | answer, s₁⟩ := result
      · obtain ⟨items, hitems⟩ := hturn
        have hrest := ih s₁
        dsimp only
        generalize s₁.readLoop cfg ts = result at hrest
        obtain ⟨_ | answer, s₂⟩ := result
        · obtain ⟨more, hmore⟩ := hrest
          refine ⟨items ++ more, fun rest => ?_⟩
          rw [List.append_assoc, hitems, hmore]
        · obtain ⟨more, hmore⟩ := hrest
          exact ⟨items ++ more, by rw [hitems, hmore]⟩
      · exact hturn

/-- A poll that returns is a poll of the stream without its clock. -/
theorem pollNext_refines {ts : List Turn}
    {answer : Poll (Option (Except MoldError MoldEvent))}
    (h : s.pollNext cfg ts = (some answer, s')) :
    ∃ items, s.stream.pollNext items = (answer, s'.stream) := by
  unfold pollNext at h
  unfold MoldStream.pollNext
  split at h
  next hfinished =>
    cases h
    exact ⟨[], if_pos hfinished⟩
  next hfinished =>
    simp only [hfinished]
    cases hpop : s.stream.popEvent with
    | some popped =>
        rw [hpop] at h
        cases h
        exact ⟨[], rfl⟩
    | none =>
        rw [hpop] at h
        have hloop := follows_readLoop cfg s ts
        rwa [show s.readLoop cfg ts = _ from h] at hloop

/-! ## The states that are reached -/

/-- The readings of the turns come in order after `now`, and `later` comes after them. -/
def InOrder : Nat → List Turn → Nat → Prop
  | now, [], later => now ≤ later
  | now, t :: ts, later => now ≤ t.first ∧ InOrder t.third ts later

theorem InOrder.le {ts : List Turn} {now later : Nat} (h : InOrder now ts later) :
    now ≤ later := by
  induction ts generalizing now with
  | nil => exact h
  | cons t ts ih => exact h.1.trans (t.first_le.trans (t.second_le.trans (ih h.2)))

/-- A stream at a reading of the clock: made from a socket, polled and fed with
retransmissions. -/
inductive Reached (cfg : SilenceConfig) (mold : MoldConfig) : Nat → TimedStream → Prop where
  | fromSocket {first second : Nat} : first ≤ second →
      Reached cfg mold second (fromSocket cfg mold first second)
  | pollNext {now later : Nat} {s : TimedStream} {ts : List Turn} : Reached cfg mold now s →
      InOrder now ts later → Reached cfg mold later (s.pollNext cfg ts).2
  | ingestRetransmit {now later : Nat} {s : TimedStream} (frames : List CachedFrame) :
      Reached cfg mold now s → now ≤ later →
      Reached cfg mold later (s.ingestRetransmit cfg frames later)

/-- No warning is overdue, and a dead link has been warned of and is over its threshold. -/
structure Live (cfg : SilenceConfig) (now : Nat) (s : TimedStream) : Prop where
  seen : s.lastSeen ≤ now
  quiet : s.softWarned = false →
    s.lastSeen + cfg.silenceWarning ≤ s.silenceTimer ∧ s.stream.deadLinkPending = false
  dead : s.stream.deadLinkPending = true → s.lastSeen + cfg.silenceDeadLink ≤ now

variable {now later : Nat}

theorem Live.mono (h : Live cfg now s) (hle : now ≤ later) : Live cfg later s :=
  ⟨h.seen.trans hle, h.quiet, fun hdead => (h.dead hdead).trans hle⟩

theorem live_touchPacket (cfg : SilenceConfig) (s : TimedStream) (now : Nat) :
    Live cfg now (s.touchPacket cfg now) :=
  ⟨le_rfl, fun _ => ⟨le_rfl, rfl⟩, nofun⟩

/-- Taking an event off the outbox does not touch the timer. -/
theorem Live.popEvent {popped : Except MoldError MoldEvent × MoldStream} (h : Live cfg now s)
    (hpop : s.stream.popEvent = some popped) : Live cfg now { s with stream := popped.2 } := by
  unfold MoldStream.popEvent at hpop
  split at hpop
  next => cases hpop
  next =>
    cases hpop
    exact ⟨h.seen, h.quiet, h.dead⟩

/-- When the timer expires without a warning the warning is due. -/
theorem Live.warnedAt (h : Live cfg now s) (hexpired : s.silenceTimer ≤ t.first) :
    s.warnedAt cfg t.second = true := by
  unfold TimedStream.warnedAt
  cases hsoft : s.softWarned with
  | true => rfl
  | false =>
      have hquiet := (h.quiet hsoft).1
      have hle := t.first_le
      rw [Bool.false_or, decide_eq_true_iff]
      omega

theorem Live.silenceTurn (h : Live cfg now s) (hle : now ≤ t.first) :
    Live cfg t.third (s.silenceTurn cfg t).2 := by
  have hfirst := t.first_le
  have hsecond := t.second_le
  have hseen := h.seen
  rw [silenceTurn_eq]
  split
  next hexpired =>
    have hwarned := h.warnedAt hexpired
    split
    next hdead =>
      refine ⟨by dsimp only; omega, fun hsoft => absurd (hwarned.symm.trans hsoft) nofun,
        fun _ => ?_⟩
      dsimp only
      omega
    next =>
      refine ⟨by dsimp only; omega, fun hsoft => absurd (hwarned.symm.trans hsoft) nofun,
        fun hdead => ?_⟩
      exact (h.dead hdead).trans (by omega)
  next => exact h.mono (by omega)

theorem Live.turn (h : Live cfg now s) (hle : now ≤ t.first) :
    Live cfg t.third (s.turn cfg t).2 := by
  have hthird : t.first ≤ t.third := t.first_le.trans t.second_le
  unfold TimedStream.turn
  split
  next bytes =>
    have htouched := live_touchPacket cfg s t.first
    dsimp only
    split
    next => exact htouched.mono hthird
    next pkt _ =>
      have hingested : Live cfg t.first
          { s.touchPacket cfg t.first with
            stream :=
              { (s.touchPacket cfg t.first).stream with
                state := (s.touchPacket cfg t.first).stream.state.ingest pkt } } :=
        ⟨htouched.seen, htouched.quiet, htouched.dead⟩
      split
      next hpop => exact (hingested.popEvent hpop).mono hthird
      next => exact hingested.mono hthird
  next => exact h.mono (hle.trans hthird)
  next => exact h.silenceTurn hle

theorem Live.readLoop {ts : List Turn} (h : Live cfg now s) (hts : InOrder now ts later) :
    Live cfg later (s.readLoop cfg ts).2 := by
  induction ts generalizing now s with
  | nil => exact h.mono hts
  | cons t ts ih =>
      obtain ⟨hle, hrest⟩ := hts
      have hturn := h.turn hle
      rw [TimedStream.readLoop]
      generalize s.turn cfg t = result at hturn
      obtain ⟨_ | answer, s'⟩ := result
      · exact ih hturn hrest
      · exact hturn.mono (InOrder.le hrest)

theorem Reached.live (h : Reached cfg mold now s) : Live cfg now s := by
  induction h with
  | fromSocket hle =>
      exact ⟨hle, fun _ => ⟨Nat.add_le_add_right hle _, rfl⟩, nofun⟩
  | @pollNext now later s ts _ hts ih =>
      unfold TimedStream.pollNext
      split
      next => exact ih.mono hts.le
      next =>
        split
        next hpop => exact (ih.popEvent hpop).mono hts.le
        next => exact ih.readLoop hts
  | ingestRetransmit frames _ _ _ => exact live_touchPacket cfg _ _

/-! ## Whether the loop ends -/

/-- The stream waits for a packet, has reported the dead link, and its timer has expired. -/
def Spins (s : TimedStream) (now : Nat) : Prop :=
  s.stream.finished = false ∧ s.stream.state.outbox = [] ∧ s.stream.deadLinkPending = true ∧
    s.silenceTimer ≤ now

/-- The turns of a poll that finds no datagram, after `now`. -/
structure Idle (now : Nat) (turns : Nat → Turn) : Prop where
  pending : ∀ i, (turns i).socket = none
  start : now ≤ (turns 0).first
  next : ∀ i, (turns i).third ≤ (turns (i + 1)).first

theorem Idle.le {turns : Nat → Turn} (h : Idle now turns) (i : Nat) :
    (turns 0).first ≤ (turns i).first := by
  induction i with
  | zero => exact le_rfl
  | succ i ih => exact ih.trans ((turns i).first_le.trans ((turns i).second_le.trans (h.next i)))

theorem turn_of_pending (h : t.socket = none) : s.turn cfg t = s.silenceTurn cfg t := by
  rw [turn, h]

/-- After the report the branch re-arms the timer to a deadline that is over. -/
theorem readLoop_of_spins {ts : List Turn} (hts : ∀ t ∈ ts, t.socket = none ∧ now ≤ t.first)
    (hdead : s.stream.deadLinkPending = true) (hwarned : s.softWarned = true)
    (hover : s.lastSeen + cfg.silenceDeadLink ≤ now) (hexpired : s.silenceTimer ≤ now) :
    (s.readLoop cfg ts).1 = none := by
  induction ts generalizing s with
  | nil => rfl
  | cons t ts ih =>
      obtain ⟨hpending, hle⟩ := hts t List.mem_cons_self
      have hsoft : s.warnedAt cfg t.second = true := by
        rw [warnedAt, hwarned, Bool.true_or]
      have hreported : ¬ (cfg.silenceDeadLink ≤ t.second - s.lastSeen ∧
          s.stream.deadLinkPending = false) := fun h => Bool.eq_false_iff.mp h.2 hdead
      rw [readLoop, turn_of_pending hpending, silenceTurn_eq, if_pos (hexpired.trans hle),
        if_neg hreported]
      refine ih (fun t' ht' => hts t' (List.mem_cons_of_mem t ht')) hdead hsoft hover ?_
      dsimp only
      rwa [if_pos hsoft]

/-- Before the report two turns are enough. -/
theorem readLoop_of_not_dead {t₀ t₁ : Turn} (h : Live cfg now s)
    (hdead : s.silenceTimer ≤ t₀.first → s.stream.deadLinkPending = false)
    (h₀ : t₀.socket = none) (h₁ : t₁.socket = none) : (s.readLoop cfg [t₀, t₁]).1.isSome := by
  rw [readLoop, turn_of_pending h₀, silenceTurn_eq]
  by_cases hexpired : s.silenceTimer ≤ t₀.first
  · have hlive := hdead hexpired
    rw [if_pos hexpired]
    by_cases hover : cfg.silenceDeadLink ≤ t₀.second - s.lastSeen
    · rw [if_pos ⟨hover, hlive⟩]
      rfl
    · rw [if_neg fun h => hover h.1, h.warnedAt hexpired]
      dsimp only
      -- the timer stands at the dead link now
      rw [readLoop, turn_of_pending h₁, silenceTurn_eq]
      dsimp only
      rw [if_pos rfl]
      by_cases hexpired' : s.lastSeen + cfg.silenceDeadLink ≤ t₁.first
      · have hover' : cfg.silenceDeadLink ≤ t₁.second - s.lastSeen := by
          have hfirst := t₁.first_le
          omega
        rw [if_pos hexpired', if_pos ⟨hover', hlive⟩]
        rfl
      · rw [if_neg hexpired']
        rfl
  · rw [if_neg hexpired]
    rfl

/-- The branch re-arms the timer for later exactly if the dead link was not reported before. -/
theorem rearms_later_iff (h : Live cfg now s) (hpending : t.socket = none) (hle : now ≤ t.first) :
    (∀ s', s.turn cfg t = (none, s') → t.second < s'.silenceTimer) ↔
      ¬ (s.stream.deadLinkPending = true ∧ s.silenceTimer ≤ t.first) := by
  have hfirst := t.first_le
  have hseen := h.seen
  rw [turn_of_pending hpending, silenceTurn_eq]
  by_cases hexpired : s.silenceTimer ≤ t.first
  · rw [if_pos hexpired, h.warnedAt hexpired, and_iff_left hexpired, Bool.not_eq_true]
    by_cases hdead : s.stream.deadLinkPending = false
    · refine iff_of_true (fun s' heq => ?_) hdead
      by_cases hover : cfg.silenceDeadLink ≤ t.second - s.lastSeen
      · rw [if_pos ⟨hover, hdead⟩] at heq
        cases heq
      · rw [if_neg fun h => hover h.1] at heq
        cases heq
        dsimp only
        rw [if_pos rfl]
        omega
    · refine iff_of_false (fun hlater => ?_) hdead
      have hreport := h.dead (Bool.eq_true_of_not_eq_false hdead)
      rw [if_neg fun h => hdead h.2] at hlater
      have hlt := hlater _ rfl
      dsimp only at hlt
      rw [if_pos rfl] at hlt
      omega
  · rw [if_neg hexpired]
    refine iff_of_true (fun s' heq => ?_) fun h => hexpired h.2
    cases heq

theorem popEvent_eq_none_iff {stream : MoldStream} :
    stream.popEvent = none ↔ stream.state.outbox = [] := by
  unfold MoldStream.popEvent
  split
  next h => exact iff_of_true rfl h
  next h => exact iff_of_false nofun (h ▸ List.cons_ne_nil _ _)

theorem returns_of_not_spins {turns : Nat → Turn} (h : Live cfg now s) (hidle : Idle now turns)
    (hspins : ¬ s.Spins (turns 0).first) :
    (s.pollNext cfg ((List.range 2).map turns)).1.isSome := by
  unfold pollNext
  split
  next => rfl
  next hfinished =>
    cases hpop : s.stream.popEvent with
    | some popped => rfl
    | none =>
        refine readLoop_of_not_dead h (fun hexpired => ?_) (hidle.pending 0) (hidle.pending 1)
        by_contra hdead
        exact hspins ⟨Bool.eq_false_iff.mpr hfinished, popEvent_eq_none_iff.mp hpop,
          Bool.eq_true_of_not_eq_false hdead, hexpired⟩

theorem pollNext_of_spins {ts : List Turn} (h : Live cfg now s) (hle : now ≤ later)
    (hspins : s.Spins later) (hts : ∀ t ∈ ts, t.socket = none ∧ later ≤ t.first) :
    (s.pollNext cfg ts).1 = none := by
  obtain ⟨hfinished, hempty, hdead, hexpired⟩ := hspins
  have hwarned : s.softWarned = true := by
    by_contra hsoft
    exact Bool.eq_false_iff.mp (h.quiet (Bool.eq_false_iff.mpr hsoft)).2 hdead
  rw [pollNext, if_neg (Bool.eq_false_iff.mp hfinished), popEvent_eq_none_iff.mpr hempty]
  exact readLoop_of_spins hts hdead hwarned ((h.dead hdead).trans hle) hexpired

/-- A poll that finds no datagram returns unless the dead link has been reported and the timer
has expired again; and the timer branch re-arms the timer for later under the same condition. -/
theorem silent_poll_returns_iff (cfg : SilenceConfig) (mold : MoldConfig) (now : Nat)
    (s : TimedStream) (h : Reached cfg mold now s) (turns : Nat → Turn) (hidle : Idle now turns) :
    ((∃ n, (s.pollNext cfg ((List.range n).map turns)).1.isSome) ↔ ¬ s.Spins (turns 0).first) ∧
      ∀ t : Turn, t.socket = none → now ≤ t.first →
        ((∀ s', s.turn cfg t = (none, s') → t.second < s'.silenceTimer) ↔
          ¬ (s.stream.deadLinkPending = true ∧ s.silenceTimer ≤ t.first)) := by
  refine ⟨⟨?_, fun hspins => ⟨2, returns_of_not_spins h.live hidle hspins⟩⟩,
    fun t => rearms_later_iff h.live⟩
  rintro ⟨n, hreturns⟩ hspins
  have hts : ∀ t ∈ (List.range n).map turns, t.socket = none ∧ (turns 0).first ≤ t.first := by
    intro t ht
    obtain ⟨i, -, rfl⟩ := List.mem_map.mp ht
    exact ⟨hidle.pending i, hidle.le i⟩
  rw [pollNext_of_spins h.live hidle.start hspins hts] at hreturns
  exact Bool.false_ne_true hreturns

/-- A turn without a datagram, at a fixed reading of the clock. -/
def idleAt (now : Nat) : Turn :=
  { socket := none, first := now, second := now, third := now, first_le := le_rfl
    second_le := le_rfl }

/-- A stream that was just made. -/
theorem silent_poll_returns_iff_new :
    let cfg : SilenceConfig := { silenceWarning := 1, silenceDeadLink := 2 }
    let s := fromSocket cfg ReceiverState.fromOne 0 0
    (Reached cfg ReceiverState.fromOne 0 s ∧ Idle 0 fun _ => idleAt 0) ∧
    ((∃ n, (s.pollNext cfg ((List.range n).map fun _ => idleAt 0)).1.isSome) ↔
        ¬ s.Spins (idleAt 0).first) ∧
      ∀ t : Turn, t.socket = none → 0 ≤ t.first →
        ((∀ s', s.turn cfg t = (none, s') → t.second < s'.silenceTimer) ↔
          ¬ (s.stream.deadLinkPending = true ∧ s.silenceTimer ≤ t.first)) := by
  intro cfg s
  have hreached : Reached cfg ReceiverState.fromOne 0 s := .fromSocket le_rfl
  have hidle : Idle 0 fun _ => idleAt 0 := ⟨fun _ => rfl, le_rfl, fun _ => le_rfl⟩
  exact ⟨⟨hreached, hidle⟩, silent_poll_returns_iff cfg _ 0 s hreached _ hidle⟩

/-- The stream is warned of a silence at time 1 and reports the dead link at time 2.  At time 4
a poll does not come to an end. -/
theorem poll_spins_after_report :
    let cfg : SilenceConfig := { silenceWarning := 1, silenceDeadLink := 2 }
    let warned := ((fromSocket cfg ReceiverState.fromOne 0 0).pollNext cfg [idleAt 1, idleAt 1]).2
    let reported := warned.pollNext cfg [idleAt 2]
    reported.1 = some (.ready (some (.error .peerSilent))) ∧
      Reached cfg ReceiverState.fromOne 4 reported.2 ∧
      ∀ n, (reported.2.pollNext cfg (List.replicate n (idleAt 4))).1 = none := by
  intro cfg warned reported
  have hwarned : Reached cfg ReceiverState.fromOne 2 warned :=
    .pollNext (.fromSocket (Nat.le_refl 0)) (by simp [InOrder, idleAt])
  have hreported : Reached cfg ReceiverState.fromOne 4 reported.2 :=
    .pollNext hwarned (by simp [InOrder, idleAt])
  have hspins : reported.2.Spins 4 := ⟨rfl, rfl, rfl, le_rfl⟩
  refine ⟨rfl, hreported, fun n => pollNext_of_spins hreported.live le_rfl hspins ?_⟩
  intro t ht
  rw [List.eq_of_mem_replicate ht]
  exact ⟨rfl, le_rfl⟩

end TimedStream

end Itch
