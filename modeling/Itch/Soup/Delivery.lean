import Itch.Soup.Handoff

/-!
# What a subscriber is sent

The invariant of the whole server, kept by every step of every interleaving, and what it
says about the packets of a connection: they are numbered from the announced number on,
unless the replay could not start there or the largest sequence number is in use.
-/

namespace Itch

open Lib

variable {σ : Type}

/-- The packets of a connection, up to its last words. -/
def Trace.packets (cfg : ServerConfig) (t : Trace σ) : List SoupPacket :=
  match t.announced with
  | none => []
  | some r => .loginAccepted { session := cfg.session, sequence := r } ::
      (t.warmed.map dataPacket ++ t.sent.map fun e => dataPacket e.2)

/-- The last packet of a connection, before or after a number was announced. -/
inductive Farewell : Option UInt64 → List SoupPacket → Prop where
  | silent (announced : Option UInt64) : Farewell announced []
  | rejected (reason : LoginRejectReason) : Farewell none [.loginRejected reason]
  | endOfSession (r : UInt64) : Farewell (some r) [.endOfSession]

theorem Farewell.not_sequenced {announced : Option UInt64} {last : List SoupPacket}
    (h : Farewell announced last) : ∀ p ∈ last, ∀ payload, p ≠ .sequencedData payload := by
  intro p hp payload
  cases h with
  | silent => cases hp
  | rejected reason =>
      rw [List.mem_singleton.mp hp]
      exact SoupPacket.noConfusion
  | endOfSession r =>
      rw [List.mem_singleton.mp hp]
      exact SoupPacket.noConfusion

namespace Subscriber

/-- The packets sent are those of the trace, and the last words once the task has ended. -/
def Sends (cfg : ServerConfig) (s : Subscriber σ) : Prop :=
  if s.phase = .closed then
    ∃ last, Farewell s.trace.announced last ∧ s.out = s.trace.packets cfg ++ last
  else s.out = s.trace.packets cfg

variable {cfg : ServerConfig} {s : Subscriber σ}

theorem sends_of_out (h : s.out = s.trace.packets cfg) : s.Sends cfg := by
  unfold Sends
  split
  next => exact ⟨[], .silent _, by rw [h, List.append_nil]⟩
  next => exact h

theorem Sends.out (h : s.Sends cfg) (hphase : s.phase ≠ .closed) :
    s.out = s.trace.packets cfg := by
  rwa [Sends, if_neg hphase] at h

/-- In every phase the packets are those of the trace and perhaps a farewell. -/
theorem Sends.exists_last (h : s.Sends cfg) :
    ∃ last, Farewell s.trace.announced last ∧ s.out = s.trace.packets cfg ++ last := by
  unfold Sends at h
  split at h
  next => exact h
  next => exact ⟨[], .silent _, by rw [h, List.append_nil]⟩

end Subscriber

variable [LawfulSeqStore σ]

open LawfulSeqStore (view latestSeq)

namespace Subscriber

variable {cfg : ServerConfig} {first : σ} {start : Nat} {srv srv' : Server σ}
  {s s' : Subscriber σ} {action : SubscriberAction} {r : UInt64}

theorem Move.sends (hmove : Move cfg srv s action s') (hshape : s.trace.Shape)
    (hcursor : s.Cursor start s.phase) (h : s.Sends cfg) : s'.Sends cfg := by
  have hopen : s.phase ≠ .closed → s.out = s.trace.packets cfg := h.out
  cases hmove with
  | @close _ last hlast =>
      rw [Sends, if_pos rfl]
      generalize hphase : s.phase = phase at hlast
      rw [hphase] at hcursor
      cases hlast with
      | silent =>
          obtain ⟨last, hlast, hout⟩ := h.exists_last
          exact ⟨last, hlast, by simpa using hout⟩
      | rejected reason =>
          have hannounced : s.trace.announced = none := hcursor.1
          refine ⟨_, ?_, congrArg (· ++ _) (hopen (by simp [hphase]))⟩
          rw [hannounced]
          exact .rejected reason
      | endOfSession =>
          obtain ⟨r, hlives⟩ := hcursor
          refine ⟨_, ?_, congrArg (· ++ _) (hopen (by simp [hphase]))⟩
          rw [hlives.announced]
          exact .endOfSession r
  | ignore => exact h
  | passLogin hphase => exact sends_of_out (hopen (by simp [hphase]))
  | readLatest hphase => exact sends_of_out (hopen (by simp [hphase]))
  | accept hphase =>
      rw [hphase] at hcursor
      have hquiet := hshape.quiet hcursor.1
      refine sends_of_out ?_
      simp [hopen (by simp [hphase]), hcursor.1, Trace.packets, Trace.sent, hquiet.warmed,
        hquiet.replayed, hquiet.forwarded]
  | warmup hphase => exact sends_of_out (hopen (by simp [hphase]))
  | warm hphase =>
      rw [hphase] at hcursor
      obtain ⟨r, hreplays, hreplayed, -⟩ := hcursor
      refine sends_of_out ?_
      simp [hopen (by simp [hphase]), Trace.packets, Trace.sent, hreplays.announced, hreplayed,
        hreplays.forwarded]
  | startReplay hphase => exact sends_of_out (hopen (by simp [hphase]))
  | startLive hphase => exact sends_of_out (hopen (by simp [hphase]))
  | readChunk hphase => exact sends_of_out (hopen (by simp [hphase]))
  | endReplay hphase => exact sends_of_out (hopen (by simp [hphase]))
  | replay hphase =>
      rw [hphase] at hcursor
      obtain ⟨r, hreplays, -⟩ := hcursor
      refine sends_of_out ?_
      simp [hopen (by simp [hphase]), Trace.packets, Trace.sent, hreplays.announced,
        hreplays.forwarded]
  | nextChunk hphase => exact sends_of_out (hopen (by simp [hphase]))
  | skip hphase => exact sends_of_out (hopen (by simp [hphase]))
  | forward hphase =>
      rw [hphase] at hcursor
      obtain ⟨r, hlives⟩ := hcursor
      refine sends_of_out ?_
      simp [hopen (by simp [hphase]), Trace.packets, Trace.sent, hlives.announced]

/-! ## The invariant of a connection -/

structure Sound (cfg : ServerConfig) (first : σ) (start : Nat) (srv : Server σ)
    (s : Subscriber σ) : Prop where
  shape : s.trace.Shape
  cursor : s.Cursor start s.phase
  files : s.Files first srv
  frontier : s.Frontier srv.store s.phase
  sends : s.Sends cfg
  acceptSeq_le : s.trace.acceptSeq.toNat ≤ srv.nextSeq.toNat

theorem sound_accept (h : srv.Ledger first start) :
    (accept srv).Sound cfg first start srv where
  shape := (accept_shape h).1
  cursor := (accept_shape h).2
  files := ⟨fun _ he => absurd he List.not_mem_nil, fun _ he => absurd he List.not_mem_nil⟩
  frontier := trivial
  sends := sends_of_out rfl
  acceptSeq_le := le_rfl

theorem Move.acceptSeq_eq (hmove : Move cfg srv s action s') :
    s'.trace.acceptSeq = s.trace.acceptSeq := by
  cases hmove <;> rfl

theorem Sound.move (h : s.Sound cfg first start srv) (hledger : srv.Ledger first start)
    (hmove : Move cfg srv s action s') : s'.Sound cfg first start srv where
  shape := (hmove.shape hledger h.shape h.cursor).1
  cursor := (hmove.shape hledger h.shape h.cursor).2
  files := hmove.files hledger h.cursor h.files
  frontier := hmove.frontier h.shape h.cursor h.frontier
  sends := hmove.sends h.shape h.cursor h.sends
  acceptSeq_le := hmove.acceptSeq_eq ▸ h.acceptSeq_le

theorem Sound.move_server (h : s.Sound cfg first start srv) (hmove : Server.Move srv srv') :
    s.Sound cfg first start srv' where
  shape := h.shape
  cursor := h.cursor
  files := ⟨fun e he => (h.files.sent e he).move hmove,
    fun e he => (h.files.pending e he).move hmove⟩
  frontier := h.frontier.move_server hmove h.acceptSeq_le
  sends := h.sends
  acceptSeq_le := h.acceptSeq_le.trans hmove.nextSeq_le

end Subscriber

namespace System

structure Sound (cfg : ServerConfig) (first : σ) (start : Nat) (sys : System σ) : Prop where
  ledger : sys.server.Ledger first start
  subscriber : ∀ s, sys.subscriber = some s → s.Sound cfg first start sys.server

variable {cfg : ServerConfig} {first : σ} {start : Nat} {sys sys' : System σ}

theorem sound_start (cfg : ServerConfig) (first : σ) (startSequence : UInt64) :
    (System.start first startSequence).Sound cfg first
      (Server.start first startSequence).nextSeq.toNat :=
  ⟨Server.ledger_start first startSequence, fun _ hs => nomatch hs⟩

theorem Sound.step {action : Action} (h : sys.Sound cfg first start)
    (hstep : sys.step cfg action = some sys') : sys'.Sound cfg first start := by
  rcases step_cases hstep with ⟨hmove, hsub⟩ | ⟨hnone, rfl⟩ | ⟨s, s', action, hs, hmove, rfl⟩
  · refine ⟨h.ledger.move hmove, fun s hs => ?_⟩
    rw [hsub] at hs
    exact (h.subscriber s hs).move_server hmove
  · refine ⟨h.ledger, fun s hs => ?_⟩
    cases hs
    exact Subscriber.sound_accept h.ledger
  · refine ⟨h.ledger, fun t ht => ?_⟩
    cases ht
    exact (h.subscriber s hs).move h.ledger hmove

/-- Every state of every run satisfies the invariant. -/
theorem sound_of_run {P : System σ → Prop} {startSequence : UInt64}
    (h : Run (System.step cfg) P (System.start first startSequence) sys) :
    sys.Sound cfg first (Server.start first startSequence).nextSeq.toNat :=
  h.invariant (fun _ => sound_start cfg first startSequence)
    fun _ _ _ _ hsound hstep _ => hsound.step hstep

end System

/-! ## Exactly once -/

namespace Subscriber

variable {cfg : ServerConfig} {first : σ} {start : Nat} {srv : Server σ} {s : Subscriber σ}
  {r : UInt64}

/-- If the store holds everything from the announced number on, the channel was joined
before the replay ended: a number in between would be missing from the store. -/
theorem Sound.acceptSeq_le_replayed (h : s.Sound cfg first start srv)
    (hledger : srv.Ledger first start) (hr : s.trace.announced = some r)
    (hne : s.trace.forwarded ≠ [])
    (hretains : ∀ n : UInt64, r ≤ n → n ≤ latestSeq srv.store → view srv.store n ≠ none) :
    s.trace.acceptSeq.toNat ≤ r.toNat + s.trace.replayed.length := by
  by_contra hgap
  have htop := Word64.le_max s.trace.acceptSeq
  obtain ⟨e, rest, hcons⟩ := List.exists_cons_of_ne_nil hne
  have hseq := (h.shape.follows hr).forwarded 0 e (by rw [hcons]; rfl)
  have hmem : e ∈ s.trace.sent := List.mem_append_right _ (hcons ▸ List.mem_cons_self)
  have hlatest := hledger.le_latest _ _ (h.files.sent e hmem)
  have hn : (UInt64.ofNat (r.toNat + s.trace.replayed.length)).toNat =
      r.toNat + s.trace.replayed.length := Word64.toNat_ofNat (by omega)
  have hnone := h.frontier.close h.shape h.cursor hne r _ hr hn (by omega)
  exact hretains _ (Word64.le_iff.mpr (by omega)) (Word64.le_iff.mpr (by omega)) hnone

/-- Then everything sent is numbered from the announced number on. -/
theorem Sound.numbered_sent (h : s.Sound cfg first start srv)
    (hledger : srv.Ledger first start) (hr : s.trace.announced = some r)
    (hretains : ∀ n : UInt64, r ≤ n → n ≤ latestSeq srv.store → view srv.store n ≠ none) :
    Numbered r.toNat s.trace.sent := by
  have hfollows := h.shape.follows hr
  refine hfollows.replayed.append ?_
  by_cases hne : s.trace.forwarded = []
  · rw [hne]
    exact .nil
  · have hle := h.acceptSeq_le_replayed hledger hr hne hretains
    exact hfollows.forwarded.congr (by omega)

/-- A subscriber that has received everything on the channel was sent every number the
store has, from the announced one on. -/
theorem Sound.latest_lt_of_caughtUp (h : s.Sound cfg first start srv)
    (hledger : srv.Ledger first start) (hr : s.trace.announced = some r)
    (hretains : ∀ n : UInt64, r ≤ n → n ≤ latestSeq srv.store → view srv.store n ≠ none)
    (hlt : (latestSeq srv.store).toNat < 2 ^ 64 - 1) (hphase : s.phase = .live)
    (hpos : s.rxPos = srv.channel.length) (hstored : srv.stored = none) :
    (latestSeq srv.store).toNat < r.toNat + s.trace.sent.length := by
  have hlatest := hledger.latest_lt hlt hstored
  have hupcoming : s.upcoming start = srv.nextSeq.toNat := by
    rw [upcoming, hpos, ← hledger.nextSeq]
  have hlength : s.trace.sent.length = s.trace.replayed.length + s.trace.forwarded.length :=
    List.length_append
  have hcursor := h.cursor
  have hfrontier := h.frontier
  rw [hphase] at hcursor hfrontier
  obtain ⟨r', hlives⟩ := hcursor
  obtain rfl : r' = r := Option.some.inj (hlives.announced.symm.trans hr)
  by_cases hne : s.trace.forwarded = []
  · rw [hne, List.length_nil] at hlength
    by_contra hgap
    -- the number after the replay is in the store, so the receiver stands before it
    have hn : (UInt64.ofNat (r'.toNat + s.trace.replayed.length)).toNat =
        r'.toNat + s.trace.replayed.length := Word64.toNat_ofNat (by omega)
    rcases (hlives.waiting hne).2 with haccept | hpast
    · exact hretains _ (Word64.le_iff.mpr (by omega)) (Word64.le_iff.mpr (by omega))
        (hfrontier r' _ hr hn (by omega))
    · omega
  · have hle := h.acceptSeq_le_replayed hledger hr hne hretains
    have hnext := (hlives.following hne).2
    omega

/-- So every message stored from the announced number on was sent. -/
theorem Sound.mem_sent_of_caughtUp {n : UInt64} {m : Message} (h : s.Sound cfg first start srv)
    (hledger : srv.Ledger first start) (hr : s.trace.announced = some r)
    (hretains : ∀ n : UInt64, r ≤ n → n ≤ latestSeq srv.store → view srv.store n ≠ none)
    (hlt : (latestSeq srv.store).toNat < 2 ^ 64 - 1) (hphase : s.phase = .live)
    (hpos : s.rxPos = srv.channel.length) (hstored : srv.stored = none) (hle : r ≤ n)
    (hwas : srv.WasStored first n m) : (n, m) ∈ s.trace.sent := by
  have hreach := h.latest_lt_of_caughtUp hledger hr hretains hlt hphase hpos hstored
  have hlatest := hledger.le_latest _ _ hwas
  have hview := hretains n hle (Word64.le_iff.mpr hlatest)
  rw [Word64.le_iff] at hle
  obtain ⟨e, he⟩ : ∃ e, s.trace.sent[n.toNat - r.toNat]? = some e :=
    ⟨_, List.getElem?_eq_getElem (by omega)⟩
  have hmem := List.mem_of_getElem? he
  have hseq := h.numbered_sent hledger hr hretains _ e he
  have hn : e.1 = n := Word64.eq_iff.mpr (by omega)
  have hm : view srv.store n = some e.2 := by
    rw [← hn] at hview ⊢
    exact (hledger.view_of_wasStored hlt _ _ (h.files.sent e hmem)).resolve_right hview
  have heq := (hledger.view_of_wasStored hlt _ _ hwas).resolve_right hview
  rw [← hn, Option.some.inj (heq.symm.trans hm)]
  exact hmem

theorem Sound.announced_of_sent (h : s.Sound cfg first start srv) (hne : s.trace.sent ≠ []) :
    ∃ r, s.trace.announced = some r := by
  refine Option.ne_none_iff_exists'.mp fun hnone => hne ?_
  have hquiet := h.shape.quiet hnone
  rw [Trace.sent, hquiet.replayed, hquiet.forwarded]
  rfl

end Subscriber

namespace System

/-- The store holds every number from the announced one up to its latest. -/
def Retains (sys : System σ) : Prop :=
  ∀ s ∈ sys.subscriber, ∀ r ∈ s.trace.announced, ∀ n : UInt64, r ≤ n →
    n ≤ latestSeq sys.server.store → view sys.server.store n ≠ none

/-- The largest sequence number was not stored. -/
def BelowMax (sys : System σ) : Prop :=
  latestSeq sys.server.store ≠ Word64.max

instance (sys : System σ) : Decidable sys.BelowMax :=
  inferInstanceAs (Decidable (latestSeq sys.server.store ≠ Word64.max))

instance (sys : System σ) : Decidable sys.Retains :=
  decidable_of_iff ((sys.subscriber.all fun s => s.trace.announced.all fun r =>
      decide (∀ i < (latestSeq sys.server.store).toNat + 1 - r.toNat,
        view sys.server.store (UInt64.ofNat (r.toNat + i)) ≠ none)) = true) <| by
    simp only [Option.all_eq_true, decide_eq_true_eq]
    refine forall₂_congr fun s _ => forall₂_congr fun r _ => ?_
    have htop := Word64.le_max (latestSeq sys.server.store)
    constructor
    · intro h n hle hlatest
      rw [Word64.le_iff] at hle hlatest
      have hview := h (n.toNat - r.toNat) (by omega)
      rwa [Nat.add_sub_cancel' hle, UInt64.ofNat_toNat] at hview
    · intro h i hi
      have hn : (UInt64.ofNat (r.toNat + i)).toNat = r.toNat + i := Word64.toNat_ofNat (by omega)
      exact h _ (Word64.le_iff.mpr (by omega)) (Word64.le_iff.mpr (by omega))

variable {sys : System σ} {s : Subscriber σ}

/-- In every interleaving in which the store keeps what is to be replayed and the largest
sequence number is not in use, a subscriber is sent the stored messages under the
announced number and the ones after it, in order and each once.  Once it has received all
that was broadcast, it was sent all of them. -/
theorem replay_then_live_exactly_once (cfg : ServerConfig) (first : σ) (startSequence : UInt64)
    (hrun : Run (System.step cfg) (fun sys => sys.Retains ∧ sys.BelowMax)
      (System.start first startSequence) sys) (hs : sys.subscriber = some s) :
    (∃ last, s.out = s.trace.packets cfg ++ last ∧
      ∀ p ∈ last, ∀ payload, p ≠ .sequencedData payload) ∧
    (∀ i e, s.trace.sent[i]? = some e → ∃ r, s.trace.announced = some r ∧
      e.1.toNat = r.toNat + i ∧ view sys.server.store e.1 = some e.2 ∧
      sys.server.WasStored first e.1 e.2) ∧
    (s.phase = .live → s.rxPos = sys.server.channel.length → sys.server.stored = none →
      ∀ r ∈ s.trace.announced, ∀ n m, r ≤ n → sys.server.WasStored first n m →
        (n, m) ∈ s.trace.sent) := by
  have hsound := (sound_of_run hrun).subscriber s hs
  have hledger := (sound_of_run hrun).ledger
  obtain ⟨hretains, hmax⟩ := hrun.good
  have hlt : (latestSeq sys.server.store).toNat < 2 ^ 64 - 1 :=
    Nat.lt_sub_of_add_lt (Word64.succ_lt_of_ne_max hmax)
  refine ⟨?_, ?_, ?_⟩
  · obtain ⟨last, hlast, hout⟩ := hsound.sends.exists_last
    exact ⟨last, hout, hlast.not_sequenced⟩
  · intro i e he
    have hmem := List.mem_of_getElem? he
    obtain ⟨r, hr⟩ := hsound.announced_of_sent (List.ne_nil_of_mem hmem)
    have hkeeps := hretains s hs r hr
    have hseq := hsound.numbered_sent hledger hr hkeeps i e he
    have hwas := hsound.files.sent e hmem
    have hle := hledger.le_latest _ _ hwas
    refine ⟨r, hr, by omega, ?_, hwas⟩
    refine (hledger.view_of_wasStored hlt _ _ hwas).resolve_right ?_
    exact hkeeps _ (Word64.le_iff.mpr (by omega)) (Word64.le_iff.mpr hle)
  · intro hphase hpos hstored r hr n m hle hwas
    exact hsound.mem_sent_of_caughtUp hledger hr (hretains s hs r hr) hlt hphase hpos hstored hle
      hwas

end System

/-! ## Runs -/

/-- A message with nothing in it. -/
def emptyEvent (code : EventCode) : Message :=
  .systemEvent { header := { stockLocate := 0, trackingNumber := 0, timestamp := 0 }
                 eventCode := code }

/-- A server that accepts everyone. -/
def openServer : ServerConfig where
  session := []
  check _ _ := none

/-- A login that asks for a sequence number. -/
def loginFor (requested : UInt64) : SubscriberAction :=
  .packet (some (.ok (.loginRequest
    { username := [], password := [], requestedSession := [], requestedSequence := requested })))

/-- A connection from its login up to the end of its warmup. -/
def connect (requested : UInt64) (warmup : List Message) : List Action :=
  .accept :: List.map .subscriber
    ([loginFor requested, .proceed, .proceed, .warmup (some warmup)]
      ++ List.replicate (warmup.length + 1) .proceed)

/-- A buffer with one message under the number. -/
def oneStored (n : UInt64) : RingBufferSeqStore :=
  (RingBufferSeqStore.withCapacity 4).put n (emptyEvent .startOfMessages)

/-- The task of the connection goes on for some steps. -/
def proceeds (n : Nat) : List Action :=
  List.replicate n (.subscriber .proceed)

/-- The ingest task stores and broadcasts a message. -/
def ingest (code : EventCode) : List Action :=
  List.map .ingest [.store (emptyEvent code) false, .broadcast]

namespace System

omit [LawfulSeqStore σ] in
/-- A run that reaches a connection of which something can be computed. -/
theorem exists_run {β : Type} [SeqStore σ] (cfg : ServerConfig) (first : σ)
    (startSequence : UInt64) (P : System σ → Prop) [DecidablePred P] (actions : List Action)
    (f : Server σ → Subscriber σ → β) {x : β} (hstart : P (System.start first startSequence))
    (h : ((exec (System.step cfg) P (System.start first startSequence) actions).bind
      fun sys => sys.subscriber.map (f sys.server)) = some x) :
    ∃ sys s, Run (System.step cfg) P (System.start first startSequence) sys ∧
      sys.subscriber = some s ∧ f sys.server s = x := by
  obtain ⟨sys, hsys, hsub⟩ := Option.bind_eq_some_iff.mp h
  obtain ⟨s, hs, hf⟩ := Option.map_eq_some_iff.mp hsub
  exact ⟨sys, s, (Run.start hstart).exec hsys, hs, hf⟩

/-- Message 1 is replayed.  Message 2 is stored and broadcast while that happens, so it is
replayed and then skipped.  Message 3 is received from the channel. -/
theorem replay_then_live_exactly_once_oneStored :
    ∃ sys s, Run (System.step openServer) (fun sys => sys.Retains ∧ sys.BelowMax)
        (System.start (oneStored 1) 1) sys ∧ sys.subscriber = some s ∧
      s.trace.sent = [(1, emptyEvent .startOfMessages), (2, emptyEvent .startOfMarketHours),
        (3, emptyEvent .endOfMessages)] ∧
      (∃ last, s.out = s.trace.packets openServer ++ last ∧
        ∀ p ∈ last, ∀ payload, p ≠ .sequencedData payload) ∧
      (∀ i e, s.trace.sent[i]? = some e → ∃ r, s.trace.announced = some r ∧
        e.1.toNat = r.toNat + i ∧ view sys.server.store e.1 = some e.2 ∧
        sys.server.WasStored (oneStored 1) e.1 e.2) ∧
      ∀ n m, 1 ≤ n → sys.server.WasStored (oneStored 1) n m → (n, m) ∈ s.trace.sent := by
  obtain ⟨sys, s, hrun, hs, heq⟩ := exists_run openServer (oneStored 1) 1
    (fun sys => sys.Retains ∧ sys.BelowMax)
    (connect 1 [] ++ proceeds 2 ++ ingest .startOfMarketHours ++ proceeds 6
      ++ ingest .endOfMessages ++ proceeds 1)
    (fun srv s => (s.trace.sent, s.trace.announced, s.phase,
      decide (s.rxPos = srv.channel.length), srv.stored)) (by decide +kernel)
    (show _ = some ([(1, emptyEvent .startOfMessages), (2, emptyEvent .startOfMarketHours),
      (3, emptyEvent .endOfMessages)], some 1, .live, true, none) by decide +kernel)
  simp only [Prod.mk.injEq, decide_eq_true_eq] at heq
  obtain ⟨hsent, hannounced, hphase, hpos, hstored⟩ := heq
  obtain ⟨hout, heach, hall⟩ := replay_then_live_exactly_once openServer (oneStored 1) 1 hrun hs
  exact ⟨sys, s, hrun, hs, hsent, hout, heach, hall hphase hpos hstored 1 hannounced⟩

/-- The replay counts on with a saturating addition, so it sends the largest sequence
number again and again. -/
theorem largest_sequence_replayed_twice :
    ∃ sys s, Run (System.step openServer) System.Retains (System.start (oneStored Word64.max) 1)
        sys ∧ sys.subscriber = some s ∧ s.trace.announced = some Word64.max ∧
      s.trace.sent = [(Word64.max, emptyEvent .startOfMessages),
        (Word64.max, emptyEvent .startOfMessages)] := by
  obtain ⟨sys, s, hrun, hs, heq⟩ := exists_run openServer (oneStored Word64.max) 1 System.Retains
    (connect Word64.max [] ++ proceeds 5) (fun _ s => (s.trace.announced, s.trace.sent))
    (by decide +kernel)
    (show _ = some (some Word64.max, [(Word64.max, emptyEvent .startOfMessages),
      (Word64.max, emptyEvent .startOfMessages)]) by decide +kernel)
  exact ⟨sys, s, hrun, hs, Prod.mk.inj heq⟩

/-! ## The announced number -/

variable {sys : System σ} {s : Subscriber σ} {r n : UInt64} {m : Message}

/-- The first message sent after the warmup is the one stored under the announced number
exactly if the store still had that number when the replay first read it, or the ingest
task had not passed it when the connection was accepted. -/
theorem first_sent_is_announced_iff (cfg : ServerConfig) (first : σ) (startSequence : UInt64)
    (hrun : Run (System.step cfg) (fun _ => True) (System.start first startSequence) sys)
    (hs : sys.subscriber = some s) (hr : s.trace.announced = some r)
    (hsent : s.trace.sent.head? = some (n, m)) :
    s.out[s.trace.warmed.length + 1]? = some (dataPacket m) ∧
    ((n = r ∧ sys.server.WasStored first r m) ↔
      (s.trace.Retained r ∨ s.trace.acceptSeq ≤ r)) := by
  have hsound := (sound_of_run hrun).subscriber s hs
  have hfollows := hsound.shape.follows hr
  have hmem : (n, m) ∈ s.trace.sent := List.mem_of_mem_head? hsent
  have hwas := hsound.files.sent _ hmem
  have hrmax := Word64.le_max r
  have hamax := Word64.le_max s.trace.acceptSeq
  constructor
  · obtain ⟨last, -, hout⟩ := hsound.sends.exists_last
    rw [hout, Trace.packets, hr]
    obtain ⟨rest, hcons⟩ := List.head?_eq_some_iff.mp hsent
    simp [hcons]
  · have hiff : n = r ↔ s.trace.Retained r ∨ s.trace.acceptSeq ≤ r := by
      rw [Word64.eq_iff, Word64.le_iff]
      by_cases hne : s.trace.replayed = []
      · rw [Trace.sent, hne, List.nil_append] at hsent
        obtain ⟨rest, hcons⟩ := List.head?_eq_some_iff.mp hsent
        have hseq := hfollows.forwarded 0 (n, m) (by rw [hcons]; rfl)
        rw [hne, List.length_nil] at hseq
        have hnot : ¬ s.trace.Retained r := fun h =>
          hfollows.replayed_of_retained (by simp [hcons]) h hne
        rw [or_iff_right hnot]
        dsimp only at hseq
        omega
      · obtain ⟨e, rest, hcons⟩ := List.exists_cons_of_ne_nil hne
        have heq : e = (n, m) := by simpa [Trace.sent, hcons] using hsent
        have hseq := hfollows.replayed 0 e (by rw [hcons]; rfl)
        rw [heq] at hseq
        dsimp only at hseq
        exact iff_of_true (by omega) (.inl (hfollows.retained hne))
    constructor
    · rintro ⟨heq, -⟩
      exact hiff.mp heq
    · intro h
      have heq := hiff.mpr h
      exact ⟨heq, heq ▸ hwas⟩

/-- A connection to an empty store that catches a message from the channel. -/
theorem first_sent_is_announced_iff_live :
    ∃ sys s m, Run (System.step openServer) (fun _ => True)
        (System.start (RingBufferSeqStore.withCapacity 4) 1) sys ∧ sys.subscriber = some s ∧
      s.trace.announced = some 1 ∧ s.trace.sent.head? = some (1, m) ∧
      s.out[s.trace.warmed.length + 1]? = some (dataPacket m) ∧
      (((1 : UInt64) = 1 ∧
          sys.server.WasStored (RingBufferSeqStore.withCapacity 4) 1 m) ↔
        (s.trace.Retained 1 ∨ s.trace.acceptSeq ≤ 1)) := by
  obtain ⟨sys, s, hrun, hs, heq⟩ := exists_run openServer (RingBufferSeqStore.withCapacity 4) 1
    (fun _ => True) (connect 0 [] ++ ingest .startOfMessages ++ proceeds 1)
    (fun _ s => (s.trace.announced, s.trace.sent.head?)) trivial
    (show _ = some (some 1, some (1, emptyEvent .startOfMessages)) by decide +kernel)
  obtain ⟨hannounced, hsent⟩ := Prod.mk.inj heq
  exact ⟨sys, s, _, hrun, hs, hannounced, hsent, first_sent_is_announced_iff openServer
    (RingBufferSeqStore.withCapacity 4) 1 hrun hs hannounced hsent⟩

/-- A server that starts at sequence number 100 with an empty store announces 1 and sends
100; one that has evicted message 1 announces 1 and sends 4, although the store has
messages 2 and 3. -/
theorem announced_one_not_sent :
    (∃ sys s, Run (System.step openServer) (fun _ => True)
        (System.start (RingBufferSeqStore.withCapacity 4) 100) sys ∧
      sys.subscriber = some s ∧ s.trace.announced = some 1 ∧
      s.trace.sent = [(100, emptyEvent .startOfMessages)]) ∧
    (∃ sys s, Run (System.step openServer) (fun _ => True)
        (System.start (RingBufferSeqStore.withCapacity 2) 1) sys ∧
      sys.subscriber = some s ∧ s.trace.announced = some 1 ∧
      s.trace.sent = [(4, emptyEvent .endOfMessages)]) := by
  constructor
  · obtain ⟨sys, s, hrun, hs, heq⟩ := exists_run openServer (RingBufferSeqStore.withCapacity 4)
      100 (fun _ => True) (connect 0 [] ++ ingest .startOfMessages ++ proceeds 1)
      (fun _ s => (s.trace.announced, s.trace.sent)) trivial
      (show _ = some (some 1, [(100, emptyEvent .startOfMessages)]) by decide +kernel)
    exact ⟨sys, s, hrun, hs, Prod.mk.inj heq⟩
  · obtain ⟨sys, s, hrun, hs, heq⟩ := exists_run openServer (RingBufferSeqStore.withCapacity 2)
      1 (fun _ => True) (ingest .startOfMessages ++ ingest .startOfSystemHours
        ++ ingest .startOfMarketHours ++ connect 1 [] ++ proceeds 1 ++ ingest .endOfMessages
        ++ proceeds 1)
      (fun _ s => (s.trace.announced, s.trace.sent)) trivial
      (show _ = some (some 1, [(4, emptyEvent .endOfMessages)]) by decide +kernel)
    exact ⟨sys, s, hrun, hs, Prod.mk.inj heq⟩

end System

end Itch
