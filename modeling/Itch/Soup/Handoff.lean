import Itch.Soup.Ledger

/-!
# From replay to live

The task of a connection first sends what the store has and then what the channel
brings.  Both are numbered; the invariant here ties the numbers sent, the position of the
receiver and `next_expected` together in every phase of the task.
-/

namespace Itch

open Lib

variable {σ : Type} [LawfulSeqStore σ]

open LawfulSeqStore (view latestSeq)

/-! ## What was sent -/

namespace Trace

/-- The store had the number when the replay first read it. -/
def Retained (t : Trace σ) (r : UInt64) : Prop :=
  ∃ store ∈ t.firstRead, view store r ≠ none

/-- Nothing was sent. -/
structure Quiet (t : Trace σ) : Prop where
  warmed : t.warmed = []
  replayed : t.replayed = []
  forwarded : t.forwarded = []
  firstRead : t.firstRead = none

/-- Numbers of the messages sent after `r` was announced. -/
structure Follows (t : Trace σ) (r : UInt64) : Prop where
  replayed : Numbered r.toNat t.replayed
  forwarded : Numbered (max (r.toNat + t.replayed.length) t.acceptSeq.toNat) t.forwarded
  retained : t.replayed ≠ [] → t.Retained r
  replayed_of_retained : t.forwarded ≠ [] → t.Retained r → t.replayed ≠ []

def Shape (t : Trace σ) : Prop :=
  match t.announced with
  | none => t.Quiet
  | some r => t.Follows r

variable {r : UInt64}

theorem shape_of_follows {t : Trace σ} (ha : t.announced = some r) (h : t.Follows r) :
    t.Shape := by
  rw [Shape, ha]
  exact h

theorem Shape.follows {t : Trace σ} (h : t.Shape) (ha : t.announced = some r) :
    t.Follows r := by
  rw [Shape, ha] at h
  exact h

theorem Shape.quiet {t : Trace σ} (h : t.Shape) (ha : t.announced = none) : t.Quiet := by
  rw [Shape, ha] at h
  exact h

/-- Nothing was sent before the announcement. -/
theorem Quiet.announce {t : Trace σ} (h : t.Quiet) (r : UInt64) :
    Follows { t with announced := some r } r where
  replayed := by
    rw [h.replayed]
    exact .nil
  forwarded := by
    rw [h.forwarded]
    exact .nil
  retained hne := absurd h.replayed hne
  replayed_of_retained hne := absurd h.forwarded hne

/-- A read of the store is the first one as long as nothing was replayed. -/
theorem retained_read_iff {t : Trace σ} {store : σ} :
    Retained { t with
      firstRead := if t.replayed.isEmpty then some store else t.firstRead } r ↔
      if t.replayed = [] then view store r ≠ none else t.Retained r := by
  by_cases hempty : t.replayed = [] <;> simp [Retained, hempty]

theorem Follows.replay {t : Trace σ} {seq : UInt64} {msg : Message} (h : t.Follows r)
    (hforwarded : t.forwarded = []) (hretained : t.Retained r)
    (hseq : seq.toNat = min (r.toNat + t.replayed.length) (2 ^ 64 - 1)) :
    Follows { t with replayed := t.replayed ++ [(seq, msg)] } r where
  replayed := h.replayed.concat hseq
  forwarded := by
    rw [hforwarded]
    exact .nil
  retained _ := hretained
  replayed_of_retained hne := absurd hforwarded hne

theorem Follows.forward {t : Trace σ} {seq : UInt64} {msg : Message} (h : t.Follows r)
    (hretained : t.Retained r → t.replayed ≠ [])
    (hseq : seq.toNat = min (max (r.toNat + t.replayed.length) t.acceptSeq.toNat
      + t.forwarded.length) (2 ^ 64 - 1)) :
    Follows { t with forwarded := t.forwarded ++ [(seq, msg)] } r where
  replayed := h.replayed
  forwarded := h.forwarded.concat hseq
  retained := h.retained
  replayed_of_retained _ := hretained

end Trace

namespace Subscriber

/-- Number of the next message on the channel, for a channel that starts at `start`. -/
def upcoming (start : Nat) (s : Subscriber σ) : Nat :=
  min (start + s.rxPos) (2 ^ 64 - 1)

/-- The task has announced `r` and received nothing from the channel yet. -/
structure Replays (start : Nat) (s : Subscriber σ) (r : UInt64) : Prop where
  announced : s.trace.announced = some r
  nextExpected :
    s.nextExpected.toNat = min (r.toNat + s.trace.replayed.length) (2 ^ 64 - 1)
  forwarded : s.trace.forwarded = []
  acceptSeq : s.trace.acceptSeq.toNat = s.upcoming start

/-- The task receives from the channel. -/
structure Lives (start : Nat) (s : Subscriber σ) (r : UInt64) : Prop where
  announced : s.trace.announced = some r
  retained : s.trace.Retained r → s.trace.replayed ≠ []
  acceptSeq_le : s.trace.acceptSeq.toNat ≤ s.upcoming start
  /-- As long as nothing was forwarded, the receiver only skipped what the replay sent. -/
  waiting : s.trace.forwarded = [] →
    s.nextExpected.toNat = min (r.toNat + s.trace.replayed.length) (2 ^ 64 - 1) ∧
    (s.upcoming start = s.trace.acceptSeq.toNat ∨
      s.upcoming start ≤ r.toNat + s.trace.replayed.length)
  following : s.trace.forwarded ≠ [] →
    s.nextExpected.toNat = s.upcoming start ∧
    s.upcoming start = min (max (r.toNat + s.trace.replayed.length) s.trace.acceptSeq.toNat
      + s.trace.forwarded.length) (2 ^ 64 - 1)

/-- Where the task stands, phase by phase. -/
def Cursor (start : Nat) (s : Subscriber σ) : Phase → Prop
  | .login | .readLatest _ | .accept _ _ =>
      s.trace.announced = none ∧ s.trace.acceptSeq.toNat = s.upcoming start
  | .warmup _ | .warming _ _ =>
      ∃ r, s.Replays start r ∧ s.trace.replayed = [] ∧ s.trace.firstRead = none
  | .replay => ∃ r, s.Replays start r
  | .replaying entries => ∃ r, s.Replays start r ∧ s.trace.Retained r ∧
      Numbered (r.toNat + s.trace.replayed.length) entries ∧
      (entries = [] → s.trace.replayed ≠ [])
  | .live => ∃ r, s.Lives start r
  | .closed => True

variable {cfg : ServerConfig} {first : σ} {start : Nat} {srv srv' : Server σ}
  {s s' : Subscriber σ} {action : SubscriberAction} {r : UInt64}

theorem cursor_live (hphase : s.phase = .live) (h : s.Lives start r) :
    s.Cursor start s.phase := by
  rw [hphase]
  exact ⟨r, h⟩

/-! ## The steps of the task -/

omit [LawfulSeqStore σ] in
/-- A replay that has sent nothing stands at the announced number. -/
theorem Replays.nextExpected_eq (h : s.Replays start r) (hempty : s.trace.replayed = []) :
    s.nextExpected = r := by
  have hnext := h.nextExpected
  have htop := Word64.le_max r
  rw [hempty, List.length_nil] at hnext
  exact Word64.eq_iff.mpr (by omega)

omit [LawfulSeqStore σ] in
/-- The replay sends the next entry of a chunk. -/
theorem Replays.send {seq : UInt64} {msg : Message} {phase : Phase} {out : List SoupPacket}
    (h : s.Replays start r)
    (hseq : seq.toNat = min (r.toNat + s.trace.replayed.length) (2 ^ 64 - 1)) :
    Replays start { s with
      phase := phase
      nextExpected := Word64.saturatingSucc seq
      out := out
      trace := { s.trace with replayed := s.trace.replayed ++ [(seq, msg)] } } r where
  announced := h.announced
  nextExpected := by
    rw [Word64.toNat_saturatingSucc, List.length_append, List.length_singleton]
    omega
  forwarded := h.forwarded
  acceptSeq := h.acceptSeq

/-- The replay is over; the receiver stands where it subscribed. -/
theorem Replays.live {t : Trace σ} (h : s.Replays start r) (ha : t.announced = some r)
    (haccept : t.acceptSeq = s.trace.acceptSeq) (hreplayed : t.replayed = s.trace.replayed)
    (hforwarded : t.forwarded = []) (hretained : t.Retained r → t.replayed ≠ []) :
    Lives start { s with phase := .live, trace := t } r where
  announced := ha
  retained := hretained
  acceptSeq_le := by
    rw [haccept]
    exact h.acceptSeq.le
  waiting _ := by
    rw [haccept, hreplayed]
    exact ⟨h.nextExpected, .inl h.acceptSeq.symm⟩
  following hne := absurd hforwarded hne

/-- A message the replay covers is skipped, which happens before any is forwarded. -/
theorem Lives.skip {seq : UInt64} (h : s.Lives start r) (hseq : seq.toNat = s.upcoming start)
    (hlt : seq < s.nextExpected) : Lives start { s with rxPos := s.rxPos + 1 } r := by
  rw [Word64.lt_iff] at hlt
  have hnext : min (start + (s.rxPos + 1)) (2 ^ 64 - 1) = min (s.upcoming start + 1) (2 ^ 64 - 1) := by
    rw [upcoming]
    omega
  have hempty : s.trace.forwarded = [] := by
    by_contra hne
    have := (h.following hne).1
    omega
  obtain ⟨hexpected, hpos⟩ := h.waiting hempty
  exact {
    announced := h.announced
    retained := h.retained
    acceptSeq_le := by
      have := h.acceptSeq_le
      rw [upcoming, hnext]
      dsimp only
      omega
    waiting := fun _ => ⟨hexpected, .inr (by rw [upcoming, hnext]; dsimp only; omega)⟩
    following := fun hne => absurd hempty hne }

/-- The first message forwarded carries the larger one of the number the replay reached
and the number at which the receiver subscribed; then they come one by one. -/
theorem Lives.toNat_forward {seq : UInt64} (h : s.Lives start r)
    (hseq : seq.toNat = s.upcoming start) (hlt : ¬ seq < s.nextExpected) :
    seq.toNat = min (max (r.toNat + s.trace.replayed.length) s.trace.acceptSeq.toNat
      + s.trace.forwarded.length) (2 ^ 64 - 1) := by
  rw [Word64.lt_iff] at hlt
  by_cases hempty : s.trace.forwarded = []
  · obtain ⟨hexpected, hpos⟩ := h.waiting hempty
    have hle := h.acceptSeq_le
    have htop := Word64.le_max s.trace.acceptSeq
    have hup := Nat.min_le_right (start + s.rxPos) (2 ^ 64 - 1)
    rw [← upcoming] at hup
    rw [hempty, List.length_nil]
    omega
  · rw [hseq]
    exact (h.following hempty).2

theorem Lives.forward {seq : UInt64} {msg : Message} {out : List SoupPacket}
    (h : s.Lives start r) (hseq : seq.toNat = s.upcoming start)
    (hlt : ¬ seq < s.nextExpected) :
    Lives start { s with
      rxPos := s.rxPos + 1
      nextExpected := Word64.saturatingSucc seq
      out := out
      trace := { s.trace with forwarded := s.trace.forwarded ++ [(seq, msg)] } } r := by
  have hnext : min (start + (s.rxPos + 1)) (2 ^ 64 - 1) = min (s.upcoming start + 1) (2 ^ 64 - 1) := by
    rw [upcoming]
    omega
  have hnumber := h.toNat_forward hseq hlt
  have hne : s.trace.forwarded ++ [(seq, msg)] ≠ [] := by simp
  exact {
    announced := h.announced
    retained := h.retained
    acceptSeq_le := by
      have := h.acceptSeq_le
      have := Word64.le_max s.trace.acceptSeq
      rw [upcoming, hnext]
      dsimp only
      omega
    waiting := fun hempty => absurd hempty hne
    following := fun _ => by
      rw [upcoming, hnext, Word64.toNat_saturatingSucc, List.length_append,
        List.length_singleton]
      dsimp only
      omega }

/-- A read of the store, from `next_expected` on. -/
theorem range_eq (srv : Server σ) (n : UInt64) :
    SeqStore.range srv.store n replayChunk = some (consecutive (view srv.store) replayChunk n) :=
  LawfulSeqStore.range_eq _ _ _

theorem accept_shape (h : srv.Ledger first start) :
    (accept srv).trace.Shape ∧ (accept srv).Cursor start (accept srv).phase :=
  ⟨⟨rfl, rfl, rfl, rfl⟩, rfl, h.nextSeq⟩

theorem Move.shape (hmove : Move cfg srv s action s') (hledger : srv.Ledger first start)
    (hshape : s.trace.Shape) (hcursor : s.Cursor start s.phase) :
    s'.trace.Shape ∧ s'.Cursor start s'.phase := by
  cases hmove with
  | close => exact ⟨hshape, trivial⟩
  | ignore => exact ⟨hshape, hcursor⟩
  | passLogin hphase =>
      rw [hphase] at hcursor
      exact ⟨hshape, hcursor⟩
  | readLatest hphase =>
      rw [hphase] at hcursor
      exact ⟨hshape, hcursor⟩
  | @accept latest resumeFrom hphase =>
      rw [hphase] at hcursor
      obtain ⟨hannounced, haccept⟩ := hcursor
      have hquiet := hshape.quiet hannounced
      have htop := Word64.le_max resumeFrom
      refine ⟨Trace.shape_of_follows rfl (hquiet.announce resumeFrom), resumeFrom,
        ⟨rfl, ?_, hquiet.forwarded, haccept⟩, hquiet.replayed, hquiet.firstRead⟩
      show resumeFrom.toNat = min (_ + s.trace.replayed.length) _
      rw [hquiet.replayed, List.length_nil]
      omega
  | warmup hphase =>
      rw [hphase] at hcursor
      obtain ⟨r, hreplays, hrest⟩ := hcursor
      exact ⟨hshape, r, ⟨hreplays.announced, hreplays.nextExpected, hreplays.forwarded,
        hreplays.acceptSeq⟩, hrest⟩
  | warm hphase =>
      rw [hphase] at hcursor
      obtain ⟨r, hreplays, hrest⟩ := hcursor
      have h := hshape.follows hreplays.announced
      exact ⟨Trace.shape_of_follows hreplays.announced ⟨h.replayed, h.forwarded, h.retained,
        h.replayed_of_retained⟩, r, ⟨hreplays.announced, hreplays.nextExpected,
        hreplays.forwarded, hreplays.acceptSeq⟩, hrest⟩
  | startReplay hphase =>
      rw [hphase] at hcursor
      obtain ⟨r, hreplays, -⟩ := hcursor
      exact ⟨hshape, r, hreplays.announced, hreplays.nextExpected, hreplays.forwarded,
        hreplays.acceptSeq⟩
  | startLive hphase =>
      rw [hphase] at hcursor
      obtain ⟨r, hreplays, -, hfirst⟩ := hcursor
      refine ⟨hshape, r, hreplays.live hreplays.announced rfl rfl hreplays.forwarded ?_⟩
      rintro ⟨store, hstore, -⟩
      rw [hfirst] at hstore
      cases hstore
  | @readChunk entries hphase hrange hne =>
      rw [hphase] at hcursor
      obtain ⟨r, hreplays⟩ := hcursor
      have h := hshape.follows hreplays.announced
      rw [range_eq, Option.some_inj] at hrange
      have hnext := hreplays.nextExpected
      have hretained : Trace.Retained { s.trace with
          firstRead := if s.trace.replayed.isEmpty then some srv.store
            else s.trace.firstRead } r := by
        rw [Trace.retained_read_iff]
        split
        next hempty =>
          -- the first chunk starts at the announced number
          rw [hreplays.nextExpected_eq hempty] at hrange
          exact fun hnone => hne (hrange.symm.trans (consecutive_eq_nil_iff.mpr hnone))
        next hsome => exact h.retained hsome
      refine ⟨Trace.shape_of_follows hreplays.announced ⟨h.replayed, h.forwarded, fun _ => hretained,
        fun hforwarded => absurd hreplays.forwarded hforwarded⟩, r, ⟨hreplays.announced, hnext,
        hreplays.forwarded, hreplays.acceptSeq⟩, hretained, ?_, fun hnil => absurd hnil hne⟩
      rw [← hrange]
      exact (longestRun_consecutive _ _ _).consecutive.numbered.congr (by dsimp only; omega)
  | endReplay hphase hrange =>
      rw [hphase] at hcursor
      obtain ⟨r, hreplays⟩ := hcursor
      have h := hshape.follows hreplays.announced
      rw [range_eq, Option.some_inj] at hrange
      have hretained : Trace.Retained { s.trace with
          firstRead := if s.trace.replayed.isEmpty then some srv.store
            else s.trace.firstRead } r → s.trace.replayed ≠ [] := by
        intro hread hempty
        rw [Trace.retained_read_iff, if_pos hempty, ← hreplays.nextExpected_eq hempty] at hread
        exact hread (consecutive_eq_nil_iff.mp hrange)
      refine ⟨Trace.shape_of_follows hreplays.announced ⟨h.replayed, h.forwarded, fun hne => ?_,
        fun hforwarded => absurd hreplays.forwarded hforwarded⟩, r,
        hreplays.live hreplays.announced rfl rfl hreplays.forwarded hretained⟩
      rw [Trace.retained_read_iff, if_neg hne]
      exact h.retained hne
  | replay hphase =>
      rw [hphase] at hcursor
      obtain ⟨r, hreplays, hretained, hnum, -⟩ := hcursor
      obtain ⟨hseq, hrest⟩ := Numbered.cons_iff.mp hnum
      refine ⟨Trace.shape_of_follows hreplays.announced
        ((hshape.follows hreplays.announced).replay hreplays.forwarded hretained hseq), r,
        hreplays.send hseq, hretained, ?_, fun _ => by simp⟩
      simpa [Nat.add_assoc] using hrest
  | nextChunk hphase =>
      rw [hphase] at hcursor
      obtain ⟨r, hreplays, -⟩ := hcursor
      exact ⟨hshape, r, hreplays.announced, hreplays.nextExpected, hreplays.forwarded,
        hreplays.acceptSeq⟩
  | skip hphase hget hlt =>
      rw [hphase] at hcursor
      obtain ⟨r, hlives⟩ := hcursor
      exact ⟨hshape, cursor_live hphase (hlives.skip (hledger.channel _ _ hget) hlt)⟩
  | forward hphase hget hlt =>
      rw [hphase] at hcursor
      obtain ⟨r, hlives⟩ := hcursor
      have hseq := hledger.channel _ _ hget
      exact ⟨Trace.shape_of_follows hlives.announced
        ((hshape.follows hlives.announced).forward hlives.retained
          (hlives.toNat_forward hseq hlt)),
        cursor_live hphase (hlives.forward hseq hlt)⟩

/-! ## What is sent was stored -/

/-- What the replay has read and not sent yet. -/
def pending : Phase → List (UInt64 × Message)
  | .replaying entries => entries
  | _ => []

/-- Everything sent or about to be sent was stored under its number. -/
structure Files (first : σ) (srv : Server σ) (s : Subscriber σ) : Prop where
  sent : ∀ e ∈ s.trace.sent, srv.WasStored first e.1 e.2
  pending : ∀ e ∈ pending s.phase, srv.WasStored first e.1 e.2

/-- A move that sends nothing and reads nothing. -/
theorem Files.of_sent_eq (h : s.Files first srv) (hsent : s'.trace.sent = s.trace.sent)
    (hphase : Subscriber.pending s'.phase = []) : s'.Files first srv where
  sent := by
    rw [hsent]
    exact h.sent
  pending := by
    rw [hphase]
    exact fun e he => absurd he List.not_mem_nil

theorem Move.files (hmove : Move cfg srv s action s') (hledger : srv.Ledger first start)
    (hcursor : s.Cursor start s.phase) (h : s.Files first srv) : s'.Files first srv := by
  cases hmove with
  | close => exact h.of_sent_eq rfl rfl
  | ignore => exact h
  | passLogin => exact h.of_sent_eq rfl rfl
  | readLatest => exact h.of_sent_eq rfl rfl
  | accept => exact h.of_sent_eq rfl rfl
  | warmup => exact h.of_sent_eq rfl rfl
  | warm => exact h.of_sent_eq rfl rfl
  | startReplay => exact h.of_sent_eq rfl rfl
  | startLive => exact h.of_sent_eq rfl rfl
  | readChunk _ hrange =>
      rw [range_eq, Option.some_inj] at hrange
      subst hrange
      refine ⟨h.sent, fun e he => hledger.wasStored_of_view _ _ ?_⟩
      exact (longestRun_consecutive _ _ _).bound e he
  | endReplay => exact h.of_sent_eq rfl rfl
  | @replay seq msg entries hphase =>
      have hpending := h.pending
      rw [hphase] at hpending hcursor
      obtain ⟨r, hreplays, -⟩ := hcursor
      refine ⟨fun e he => ?_, fun e he => hpending e (List.mem_cons_of_mem _ he)⟩
      have he : e ∈ s.trace.replayed ++ [(seq, msg)] ++ s.trace.forwarded := he
      rw [hreplays.forwarded, List.append_nil] at he
      rcases List.mem_append.mp he with hold | hnew
      · exact h.sent e (List.mem_append_left _ hold)
      · exact List.mem_singleton.mp hnew ▸ hpending _ List.mem_cons_self
  | nextChunk => exact h.of_sent_eq rfl rfl
  | skip => exact ⟨h.sent, h.pending⟩
  | @forward seq msg hphase hget hlt =>
      refine ⟨fun e he => ?_, h.pending⟩
      have he : e ∈ s.trace.replayed ++ (s.trace.forwarded ++ [(seq, msg)]) := he
      rw [← List.append_assoc] at he
      rcases List.mem_append.mp he with hold | hnew
      · exact h.sent e hold
      · rw [List.mem_singleton.mp hnew]
        exact .inr (hledger.written_of_channel _ (List.mem_of_getElem? hget))

/-! ## What the store no longer has -/

/-- A number between the end of the replay and the subscription to the channel is not in
the store, and never will be. -/
def Frontier (store : σ) (s : Subscriber σ) : Phase → Prop
  | .accept latest _ | .warmup latest | .warming latest _ =>
      ∀ n : UInt64, latest.toNat < n.toNat → n.toNat < s.trace.acceptSeq.toNat →
        view store n = none
  | .live => ∀ r n : UInt64, s.trace.announced = some r →
      n.toNat = r.toNat + s.trace.replayed.length → n.toNat < s.trace.acceptSeq.toNat →
        view store n = none
  | .closed => s.trace.forwarded ≠ [] → ∀ r n : UInt64, s.trace.announced = some r →
      n.toNat = r.toNat + s.trace.replayed.length → n.toNat < s.trace.acceptSeq.toNat →
        view store n = none
  | _ => True

theorem Frontier.close (h : s.Frontier srv.store s.phase) (hshape : s.trace.Shape)
    (hcursor : s.Cursor start s.phase) : s.Frontier srv.store .closed := by
  intro hne
  cases hphase : s.phase with
  | login | readLatest | accept =>
      rw [hphase] at hcursor
      exact absurd (hshape.quiet hcursor.1).forwarded hne
  | warmup | warming | replay | replaying =>
      rw [hphase] at hcursor
      obtain ⟨r, hreplays⟩ := hcursor
      first
        | exact absurd hreplays.forwarded hne
        | exact absurd hreplays.1.forwarded hne
  | live =>
      rw [hphase] at h
      exact h
  | closed =>
      rw [hphase] at h
      exact h hne

theorem Move.frontier (hmove : Move cfg srv s action s') (hshape : s.trace.Shape)
    (hcursor : s.Cursor start s.phase) (h : s.Frontier srv.store s.phase) :
    s'.Frontier srv.store s'.phase := by
  cases hmove with
  | close => exact h.close hshape hcursor
  | ignore => exact h
  | passLogin => trivial
  | readLatest =>
      intro n hlt _
      simp only [LawfulSeqStore.latest_eq, Option.getD_some] at hlt
      by_contra hsome
      obtain ⟨m, hm⟩ := Option.ne_none_iff_exists'.mp hsome
      have := Word64.le_iff.mp (LawfulSeqStore.le_latestSeq _ _ _ hm)
      omega
  | accept hphase =>
      rw [hphase] at h
      exact h
  | warmup hphase =>
      rw [hphase] at h
      exact h
  | warm hphase =>
      rw [hphase] at h
      exact h
  | startReplay => trivial
  | startLive hphase hle =>
      rw [hphase] at h hcursor
      obtain ⟨r, hreplays, hreplayed, -⟩ := hcursor
      intro r' n ha hn hlt
      have hr : r' = r := Option.some.inj (ha.symm.trans hreplays.announced)
      have hnext := hreplays.nextExpected
      have hn : n.toNat = r'.toNat + s.trace.replayed.length := hn
      have htop := Word64.le_max n
      rw [Word64.le_iff] at hle
      refine h n ?_ hlt
      rw [hr] at hn
      omega
  | readChunk => trivial
  | endReplay hphase hrange =>
      rw [hphase] at hcursor
      obtain ⟨r, hreplays⟩ := hcursor
      intro r' n ha hn hlt
      have hr : r' = r := Option.some.inj (ha.symm.trans hreplays.announced)
      have hnext := hreplays.nextExpected
      have hn : n.toNat = r'.toNat + s.trace.replayed.length := hn
      have htop := Word64.le_max n
      have heq : n = s.nextExpected := by
        rw [hr] at hn
        exact Word64.eq_iff.mpr (by omega)
      rw [range_eq, Option.some_inj] at hrange
      rw [heq]
      exact consecutive_eq_nil_iff.mp hrange
  | replay => trivial
  | nextChunk => trivial
  | skip => exact h
  | forward hphase =>
      show Frontier _ _ s.phase
      rw [hphase] at h ⊢
      exact h

/-- The ingest task leaves these numbers alone. -/
theorem Frontier.move_server (h : s.Frontier srv.store s.phase) (hmove : Server.Move srv srv')
    (haccept : s.trace.acceptSeq.toNat ≤ srv.nextSeq.toNat) :
    s.Frontier srv'.store s.phase := by
  cases hphase : s.phase with
  | login | readLatest | replay | replaying => trivial
  | accept | warmup | warming =>
      rw [hphase] at h
      intro n hlatest hlt
      exact hmove.view_eq_none (by omega) (h n hlatest hlt)
  | live =>
      rw [hphase] at h
      intro r n ha hn hlt
      exact hmove.view_eq_none (by omega) (h r n ha hn hlt)
  | closed =>
      rw [hphase] at h
      intro hne r n ha hn hlt
      exact hmove.view_eq_none (by omega) (h hne r n ha hn hlt)

end Subscriber

end Itch
