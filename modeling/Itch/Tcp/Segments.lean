import Itch.Lib.Numbered
import Itch.Tcp.Server

/-!
# What a connection is sent

The channel holds what was stored, in the order of the stores and at most one message
behind.  The bytes written to a connection are the frames of the warmup messages and then
of a part of the channel that begins where the connection subscribed.

`serve` returns without looking at the connections.  Only a connection that has ended is
done, and before `serve` returns none has ended because the channel is closed.
-/

namespace Itch

open Lib

/-! ## The ingest task -/

namespace Server

variable {σ : Type} [SeqStore σ] {first : Nat} {srv srv' : Server σ}

/-- The numbers go up from `first`, and what is stored is broadcast next. -/
structure Records (first : Nat) (srv : Server σ) : Prop where
  written : srv.written = srv.channel ++ (srv.stored.map (srv.nextSeq, ·)).toList
  nextSeq : srv.nextSeq.toNat = min (first + srv.channel.length) (2 ^ 64 - 1)
  numbered : Numbered first srv.written

theorem records_start (store : σ) (startSequence : UInt64) :
    Records (Server.start store startSequence).nextSeq.toNat
      (Server.start store startSequence) where
  written := rfl
  nextSeq := (Nat.min_eq_left (Word64.le_max _)).symm
  numbered := .nil

theorem Records.move (h : Records first srv) (hmove : Move srv srv') : Records first srv' := by
  cases hmove with
  | drop => exact h
  | close => exact ⟨h.written, h.nextSeq, h.numbered⟩
  | store hstored hstore =>
      have hwritten : srv.written = srv.channel := by
        rw [h.written, hstored]
        exact List.append_nil _
      refine ⟨?_, h.nextSeq, h.numbered.concat ?_⟩
      · rw [hwritten]
        rfl
      · rw [hwritten]
        exact h.nextSeq
  | broadcast hstored =>
      refine ⟨?_, ?_, h.numbered⟩
      · rw [h.written, hstored]
        exact (List.append_nil _).symm
      · have hnext := h.nextSeq
        show (Word64.saturatingSucc srv.nextSeq).toNat = _
        rw [Word64.toNat_saturatingSucc, List.length_append, List.length_singleton]
        omega

omit [SeqStore σ] in
theorem Records.channel_le (h : Records first srv) : srv.channel <+: srv.written :=
  ⟨_, h.written.symm⟩

end Server

/-! ## The task of a connection -/

namespace TcpSubscriber

variable {σ : Type} {srv : Server σ} {s s' : TcpSubscriber} {channel : List (UInt64 × Message)}

/-- The moves of the task of a connection. -/
inductive Move (srv : Server σ) (s : TcpSubscriber) : TcpSubscriber → Prop where
  | warmup {messages : List Message} : s.phase = .warmup →
      Move srv s { s with phase := .warming messages, policy := messages }
  | warmupFailed : s.phase = .warmup → Move srv s (s.finish .warmupFailed)
  | warm {msg : Message} {messages : List Message} : s.phase = .warming (msg :: messages) →
      Move srv s { s with
        phase := .warming messages
        written := s.written ++ Framing.frame msg.wireImage
        warmed := s.warmed ++ [msg] }
  | warmingFailed {messages : List Message} : s.phase = .warming messages →
      Move srv s (s.finish .sendFailed)
  | startLive : s.phase = .warming [] → Move srv s { s with phase := .live }
  | forward {entry : UInt64 × Message} : s.phase = .live →
      srv.channel[s.rxPos]? = some entry →
      Move srv s { s with
        rxPos := s.rxPos + 1
        written := s.written ++ Framing.frame entry.2.wireImage
        forwarded := s.forwarded ++ [entry] }
  | liveFailed {reason : EndReason} : s.phase = .live → reason ≠ .warmupFailed →
      reason ≠ .closed → Move srv s (s.finish reason)
  | closed : s.phase = .live → srv.closed = true → Move srv s (s.finish .closed)

theorem proceed_move (h : s.proceed srv = some s') : Move srv s s' := by
  unfold proceed at h
  split at h
  next hphase =>
    cases h
    exact .startLive hphase
  next hphase =>
    cases h
    rw [sendWarmup, ItchCodec.encode_eq]
    exact .warm hphase
  next hphase =>
    split at h
    next entry hentry =>
      cases h
      rw [forward, ItchCodec.encode_eq]
      exact .forward hphase hentry
    next =>
      obtain ⟨hclosed, heq⟩ := Option.ite_none_right_eq_some.mp h
      cases heq
      exact .closed hphase hclosed
  next => cases h
  next => cases h

theorem step_move {action : TcpAction} (h : s.step srv action = some s') : Move srv s s' := by
  cases action with
  | proceed => exact proceed_move h
  | warmup result =>
      simp only [step] at h
      split at h
      next hphase =>
        cases h
        exact .warmup hphase
      next hphase =>
        cases h
        exact .warmupFailed hphase
      next => cases h
  | lagged =>
      simp only [step] at h
      split at h
      next hphase =>
        cases h
        exact .liveFailed hphase nofun nofun
      next => cases h
  | sendFailed =>
      simp only [step] at h
      split at h
      next hphase =>
        cases h
        exact .warmingFailed hphase
      next hphase =>
        obtain ⟨-, heq⟩ := Option.ite_none_right_eq_some.mp h
        cases heq
        exact .liveFailed hphase nofun nofun
      next => cases h

/-- A connection ends because of a closed channel only if the channel is closed. -/
theorem Move.not_closed (h : Move srv s s') (hopen : srv.closed = false)
    (hne : s.phase ≠ .ended .closed) : s'.phase ≠ .ended .closed := by
  cases h with
  | forward => exact hne
  | liveFailed _ _ hreason => exact fun heq => hreason (TcpPhase.ended.inj heq)
  | closed _ hclosed => exact absurd hclosed (Bool.eq_false_iff.mp hopen)
  | _ => nofun

/-- Which messages a connection in a phase was sent: those of the policy, those of the
warmup, and those of the channel. -/
inductive Progress : TcpPhase → List Message → List Message → List (UInt64 × Message) → Prop where
  | warmup : Progress .warmup [] [] []
  | warming (warmed messages : List Message) :
      Progress (.warming messages) (warmed ++ messages) warmed []
  | live (policy : List Message) (forwarded : List (UInt64 × Message)) :
      Progress .live policy policy forwarded
  /-- The task has ended within the warmup. -/
  | cut (reason : EndReason) (warmed messages : List Message) :
      Progress (.ended reason) (warmed ++ messages) warmed []
  | done (reason : EndReason) (policy : List Message) (forwarded : List (UInt64 × Message)) :
      reason ≠ .warmupFailed → Progress (.ended reason) policy policy forwarded

namespace Progress

variable {policy warmed messages : List Message} {forwarded : List (UInt64 × Message)}

theorem of_warmup (h : Progress .warmup policy warmed forwarded) :
    policy = [] ∧ warmed = [] ∧ forwarded = [] := by
  cases h
  exact ⟨rfl, rfl, rfl⟩

theorem of_warming (h : Progress (.warming messages) policy warmed forwarded) :
    policy = warmed ++ messages ∧ forwarded = [] := by
  cases h
  exact ⟨rfl, rfl⟩

theorem of_live (h : Progress .live policy warmed forwarded) : warmed = policy := by
  cases h
  rfl

theorem of_warmupFailed (h : Progress (.ended .warmupFailed) policy warmed forwarded) :
    forwarded = [] := by
  cases h with
  | cut => rfl
  | done _ _ _ hreason => exact absurd rfl hreason

theorem warmed_or {phase : TcpPhase} (h : Progress phase policy warmed forwarded) :
    warmed <+: policy ∧ (warmed = policy ∨ forwarded = [] ∧ phase ≠ .live) := by
  cases h with
  | warmup => exact ⟨List.prefix_rfl, .inl rfl⟩
  | warming => exact ⟨List.prefix_append _ _, .inr ⟨rfl, nofun⟩⟩
  | live => exact ⟨List.prefix_rfl, .inl rfl⟩
  | cut => exact ⟨List.prefix_append _ _, .inr ⟨rfl, nofun⟩⟩
  | done => exact ⟨List.prefix_rfl, .inl rfl⟩

end Progress

/-- The invariant of a connection. -/
structure Sends (channel : List (UInt64 × Message)) (s : TcpSubscriber) : Prop where
  bytes : ItchCodec.encodeAll (s.warmed ++ s.forwarded.map Prod.snd) = .ok s.written
  progress : Progress s.phase s.policy s.warmed s.forwarded
  start_le : s.start ≤ channel.length
  rxPos : s.rxPos = s.start + s.forwarded.length
  segment : s.forwarded <+: channel.drop s.start

theorem sends_accept (srv : Server σ) : Sends srv.channel (accept srv) where
  bytes := rfl
  progress := .warmup
  start_le := le_rfl
  rxPos := rfl
  segment := List.nil_prefix

theorem Sends.mono {channel' : List (UInt64 × Message)} (h : Sends channel s)
    (hchannel : channel <+: channel') : Sends channel' s :=
  ⟨h.bytes, h.progress, h.start_le.trans hchannel.length_le, h.rxPos,
    h.segment.trans (hchannel.drop s.start)⟩

theorem encodeAll_concat {msgs : List Message} {bytes : Bytes} (msg : Message)
    (h : ItchCodec.encodeAll msgs = .ok bytes) :
    ItchCodec.encodeAll (msgs ++ [msg]) = .ok (bytes ++ Framing.frame msg.wireImage) := by
  rw [ItchCodec.encodeAll_eq] at h ⊢
  cases h
  simp [Framing.frames]

theorem Sends.warm {msg : Message} {messages : List Message} (h : Sends channel s)
    (hphase : s.phase = .warming (msg :: messages)) :
    Sends channel { s with
      phase := .warming messages
      written := s.written ++ Framing.frame msg.wireImage
      warmed := s.warmed ++ [msg] } := by
  obtain ⟨hpolicy, hforwarded⟩ := (hphase ▸ h.progress).of_warming
  have hbytes := h.bytes
  rw [hforwarded, List.map_nil, List.append_nil] at hbytes
  refine ⟨?_, ?_, h.start_le, h.rxPos, h.segment⟩
  · dsimp only
    rw [hforwarded, List.map_nil, List.append_nil]
    exact encodeAll_concat msg hbytes
  · dsimp only
    rw [hpolicy, hforwarded, List.append_cons]
    exact .warming _ _

theorem Sends.forward {entry : UInt64 × Message} (h : Sends channel s) (hphase : s.phase = .live)
    (hentry : channel[s.rxPos]? = some entry) :
    Sends channel { s with
      rxPos := s.rxPos + 1
      written := s.written ++ Framing.frame entry.2.wireImage
      forwarded := s.forwarded ++ [entry] } := by
  have hwarmed := (hphase ▸ h.progress).of_live
  obtain ⟨rest, hrest⟩ := h.segment
  -- what follows the part that was sent begins with the entry
  have hhead : rest[0]? = some entry := by
    rw [h.rxPos, ← List.getElem?_drop, ← hrest, List.getElem?_append_right le_rfl,
      Nat.sub_self] at hentry
    exact hentry
  obtain ⟨rest', rfl⟩ : ∃ rest', rest = entry :: rest' := by
    cases rest with
    | nil => cases hhead
    | cons head rest' =>
        cases hhead
        exact ⟨rest', rfl⟩
  refine ⟨?_, ?_, h.start_le, ?_, ⟨rest', ?_⟩⟩
  · dsimp only
    rw [List.map_append, ← List.append_assoc]
    exact encodeAll_concat entry.2 h.bytes
  · dsimp only
    rw [hphase, hwarmed]
    exact .live _ _
  · have hpos := h.rxPos
    simp only [List.length_append, List.length_singleton]
    omega
  · rw [← hrest, List.append_assoc]
    rfl

/-- A move that sends nothing. -/
theorem Sends.quiet (h : Sends channel s) {phase : TcpPhase} {policy : List Message}
    (hprogress : Progress phase policy s.warmed s.forwarded) :
    Sends channel { s with phase := phase, policy := policy } :=
  ⟨h.bytes, hprogress, h.start_le, h.rxPos, h.segment⟩

theorem Sends.move (h : Sends srv.channel s) (hmove : Move srv s s') : Sends srv.channel s' := by
  cases hmove with
  | warmup hphase =>
      obtain ⟨-, hwarmed, hforwarded⟩ := (hphase ▸ h.progress).of_warmup
      refine h.quiet ?_
      rw [hwarmed, hforwarded]
      exact .warming [] _
  | warmupFailed hphase =>
      obtain ⟨hpolicy, hwarmed, hforwarded⟩ := (hphase ▸ h.progress).of_warmup
      refine h.quiet ?_
      rw [hpolicy, hwarmed, hforwarded]
      exact .cut _ [] []
  | warm hphase => exact h.warm hphase
  | warmingFailed hphase =>
      obtain ⟨hpolicy, hforwarded⟩ := (hphase ▸ h.progress).of_warming
      refine h.quiet ?_
      rw [hpolicy, hforwarded]
      exact .cut _ _ _
  | startLive hphase =>
      obtain ⟨hpolicy, -⟩ := (hphase ▸ h.progress).of_warming
      refine h.quiet ?_
      rw [hpolicy, List.append_nil]
      exact .live _ _
  | forward hphase hentry => exact h.forward hphase hentry
  | liveFailed hphase hreason =>
      have hwarmed := (hphase ▸ h.progress).of_live
      refine h.quiet ?_
      rw [hwarmed]
      exact .done _ _ _ hreason
  | closed hphase =>
      have hwarmed := (hphase ▸ h.progress).of_live
      refine h.quiet ?_
      rw [hwarmed]
      exact .done _ _ _ nofun

end TcpSubscriber

/-! ## The system -/

namespace TcpServer

variable {σ : Type} [SeqStore σ] {s s' : Serve σ}

theorem serve_move {action : TcpServeAction} (h : serve s action = some s') : Serve.Move s s' := by
  cases action with
  | ingest action => exact .ingest h
  | ingestSeen =>
      obtain ⟨hphase, heq⟩ := Option.ite_none_right_eq_some.mp h
      cases heq
      exact .goOn (by simp [hphase.1])
  | joined =>
      obtain ⟨-, heq⟩ := Option.ite_none_right_eq_some.mp h
      cases heq
      exact .ret

/-- The invariant of a connection of the server. -/
structure Serves (s : Serve σ) (c : TcpSubscriber) : Prop where
  sends : c.Sends s.server.channel
  not_closed : s.phase ≠ .returned → c.phase ≠ .ended .closed

theorem records_move {first : Nat} (h : s.server.Records first) (hmove : Serve.Move s s') :
    s'.server.Records first ∧ s.server.channel <+: s'.server.channel := by
  cases hmove with
  | ingest hingest =>
      have hserver := Serve.ingest_move hingest
      exact ⟨h.move hserver, hserver.channel_le⟩
  | goOn => exact ⟨h, List.prefix_rfl⟩
  | ret => exact ⟨⟨h.written, h.nextSeq, h.numbered⟩, List.prefix_rfl⟩

variable {store : σ} {sys sys' : Hub (Serve σ) TcpSubscriber}

theorem holds_of_run (hrun : Run step (fun _ => True) (start store) sys) :
    Hub.Holds (fun s => s.server.Records (start store).shared.server.nextSeq.toNat ∧ s.Open)
      Serves sys := by
  refine Hub.Holds.run hrun ⟨⟨Server.records_start store 1, fun _ => rfl⟩,
    fun c hc => absurd hc List.not_mem_nil⟩ ?_ ?_ ?_
  · rintro s action s' ⟨hrecords, hopen⟩ hserve
    have hmove := serve_move hserve
    obtain ⟨hrecords', hchannel⟩ := records_move hrecords hmove
    obtain ⟨hopen', hback⟩ := hopen.move hmove
    exact ⟨⟨hrecords', hopen'⟩, fun c hc => ⟨hc.sends.mono hchannel,
      fun hne => hc.not_closed (hback hne)⟩⟩
  · intro s c _ hjoin
    obtain ⟨-, heq⟩ := Option.ite_none_right_eq_some.mp hjoin
    cases heq
    exact ⟨TcpSubscriber.sends_accept s.server, fun _ => nofun⟩
  · rintro s c action c' ⟨-, hopen⟩ hc hact
    have hmove := TcpSubscriber.step_move hact
    exact ⟨hc.sends.move hmove, fun hne => hmove.not_closed (hopen hne) (hc.not_closed hne)⟩

/-- What is stored carries consecutive numbers, up to the largest one, and is broadcast in
that order.  A connection is sent a prefix of the warmup, or all of it and then the stored
messages from the first one on that was broadcast after it subscribed. -/
theorem sends_segments (store : σ) (sys : Hub (Serve σ) TcpSubscriber)
    (hrun : Run step (fun _ => True) (start store) sys) :
    let srv := sys.shared.server
    Numbered (start store).shared.server.nextSeq.toNat srv.written ∧
    srv.channel <+: srv.written ∧
    ∀ s ∈ sys.parties,
      ItchCodec.encodeAll (s.warmed ++ s.forwarded.map Prod.snd) = .ok s.written ∧
      s.warmed <+: s.policy ∧ (s.warmed = s.policy ∨ s.forwarded = [] ∧ s.phase ≠ .live) ∧
      s.forwarded <+: srv.written.drop s.start ∧
      s.start + s.forwarded.length ≤ srv.channel.length := by
  obtain ⟨⟨hrecords, -⟩, hparties⟩ := holds_of_run hrun
  refine ⟨hrecords.numbered, hrecords.channel_le, fun s hs => ?_⟩
  have hsends := (hparties s hs).sends
  obtain ⟨hbegin, hwarmed⟩ := hsends.progress.warmed_or
  refine ⟨hsends.bytes, hbegin, hwarmed,
    hsends.segment.trans (hrecords.channel_le.drop s.start), ?_⟩
  have hlen := hsends.segment.length_le
  have hstart := hsends.start_le
  rw [List.length_drop] at hlen
  omega

/-- One message is broadcast before a connection subscribes and one after it. -/
def twoStored : List (HubAction TcpServeAction TcpAction) :=
  [.shared (.ingest (.store (emptyEvent .startOfMessages) false)), .shared (.ingest .broadcast),
    .join, .party 0 (.warmup (some [])), .party 0 .proceed,
    .shared (.ingest (.store (emptyEvent .endOfMessages) false)), .shared (.ingest .broadcast),
    .party 0 .proceed]

/-- The connection is sent the second message. -/
theorem sends_segments_twoStored :
    ∃ sys s, Run step (fun _ => True) (start (RingBufferSeqStore.withCapacity 4)) sys ∧
      s ∈ sys.parties ∧ s.start = 1 ∧ s.forwarded = [(2, emptyEvent .endOfMessages)] ∧
      s.forwarded <+: sys.shared.server.written.drop s.start := by
  obtain ⟨sys, hrun, heq⟩ := exists_run_of_exec twoStored
    (fun sys => sys.parties.map fun s => (s.start, s.forwarded)) trivial
    (show (exec step (fun _ => True) (start (RingBufferSeqStore.withCapacity 4)) twoStored).map _ =
      some [(1, [((2 : UInt64), emptyEvent .endOfMessages)])] by decide +kernel)
  obtain ⟨s, hs, hfields⟩ := List.map_eq_singleton_iff.mp heq
  obtain ⟨hstart, hforwarded⟩ := Prod.mk.inj hfields
  have hmem : s ∈ sys.parties := hs ▸ List.mem_singleton_self s
  obtain ⟨-, -, hall⟩ := sends_segments (RingBufferSeqStore.withCapacity 4) sys hrun
  obtain ⟨-, -, -, hsegment, -⟩ := hall s hmem
  exact ⟨sys, s, hrun, hmem, hstart, hforwarded, hsegment⟩

/-- A message is stored twice. -/
def storedTwice : List (HubAction TcpServeAction TcpAction) :=
  [.shared (.ingest (.store (emptyEvent .startOfMessages) false)), .shared (.ingest .broadcast),
    .shared (.ingest (.store (emptyEvent .startOfMessages) false))]

/-- The second write of a warmup fails. -/
def warmupCut : List (HubAction TcpServeAction TcpAction) :=
  [.join, .party 0 (.warmup (some [emptyEvent .startOfMessages, emptyEvent .startOfSystemHours])),
    .party 0 .proceed, .party 0 .sendFailed]

/-- The numbers stay at the largest one, and a write may fail within the warmup. -/
theorem segments_at_limits :
    (∃ sys, Run step (fun _ => True) (start (oneStored Word64.max)) sys ∧
      sys.shared.server.written = [(Word64.max, emptyEvent .startOfMessages),
        (Word64.max, emptyEvent .startOfMessages)]) ∧
    ∃ sys s, Run step (fun _ => True) (start (RingBufferSeqStore.withCapacity 4)) sys ∧
      sys.parties = [s] ∧
      s.policy = [emptyEvent .startOfMessages, emptyEvent .startOfSystemHours] ∧
      s.warmed = [emptyEvent .startOfMessages] ∧ s.phase = .ended .sendFailed := by
  constructor
  · obtain ⟨sys, hrun, heq⟩ := exists_run_of_exec storedTwice
      (fun sys => sys.shared.server.written) trivial
      (show (exec step (fun _ => True) (start (oneStored Word64.max)) storedTwice).map _ =
        some [(Word64.max, emptyEvent .startOfMessages),
          (Word64.max, emptyEvent .startOfMessages)] by decide +kernel)
    exact ⟨sys, hrun, heq⟩
  · obtain ⟨sys, hrun, heq⟩ := exists_run_of_exec warmupCut
      (fun sys => sys.parties.map fun s => (s.policy, s.warmed, s.phase)) trivial
      (show (exec step (fun _ => True) (start (RingBufferSeqStore.withCapacity 4)) warmupCut).map _
        = some [([emptyEvent .startOfMessages, emptyEvent .startOfSystemHours],
          [emptyEvent .startOfMessages], .ended .sendFailed)] by decide +kernel)
    obtain ⟨s, hs, hfields⟩ := List.map_eq_singleton_iff.mp heq
    obtain ⟨hpolicy, hrest⟩ := Prod.mk.inj hfields
    exact ⟨sys, s, hrun, hs, hpolicy, Prod.mk.inj hrest⟩

/-! ## When `serve` returns -/

/-- The connection has ended, and was sent all that was broadcast after it subscribed. -/
def Served (srv : Server σ) (s : TcpSubscriber) : Prop :=
  (∃ reason, s.phase = .ended reason) ∧ s.forwarded = srv.channel.drop s.start

omit [SeqStore σ] in
/-- A connection that was refused its warmup was sent nothing. -/
theorem Serves.served_iff_nothing {c : TcpSubscriber} (h : Serves s c)
    (hphase : c.phase = .ended .warmupFailed) :
    Served s.ret.server c ↔ s.server.channel.length = c.start := by
  have hforwarded := (hphase ▸ h.sends.progress).of_warmupFailed
  have hstart := h.sends.start_le
  have hdrop : Served s.ret.server c ↔ [] = s.server.channel.drop c.start :=
    ⟨fun hserved => hforwarded ▸ hserved.2, fun hnil => ⟨⟨_, hphase⟩, hforwarded.trans hnil⟩⟩
  rw [hdrop, eq_comm, List.drop_eq_nil_iff]
  omega

/-- When `serve` returns, every connection that has neither lagged nor failed on a write is
served exactly if each connection has lagged, has failed on a write, or was refused its
warmup and nothing was broadcast since it subscribed. -/
theorem served_iff (store : σ) (sys sys' : Hub (Serve σ) TcpSubscriber)
    (hrun : Run step (fun _ => True) (start store) sys)
    (hret : step sys (.shared .joined) = some sys') :
    (∀ s ∈ sys'.parties, s.phase ≠ .ended .lagged → s.phase ≠ .ended .sendFailed →
        Served sys'.shared.server s) ↔
      ∀ s ∈ sys.parties, s.phase = .ended .lagged ∨ s.phase = .ended .sendFailed ∨
        s.phase = .ended .warmupFailed ∧ sys.shared.server.channel.length = s.start := by
  obtain ⟨srv, hsrv, rfl⟩ := Option.map_eq_some_iff.mp hret
  obtain ⟨⟨hjoining, -⟩, heq⟩ := Option.ite_none_right_eq_some.mp hsrv
  cases heq
  obtain ⟨-, hparties⟩ := holds_of_run hrun
  have hne : sys.shared.phase ≠ .returned := by simp [hjoining]
  refine forall₂_congr fun s hs => ?_
  have hserves := hparties s hs
  constructor
  · intro hserved
    by_cases hlagged : s.phase = .ended .lagged
    · exact .inl hlagged
    by_cases hfailed : s.phase = .ended .sendFailed
    · exact .inr (.inl hfailed)
    have h := hserved hlagged hfailed
    obtain ⟨reason, hreason⟩ := h.1
    cases reason with
    | warmupFailed => exact .inr (.inr ⟨hreason, (hserves.served_iff_nothing hreason).mp h⟩)
    | sendFailed => exact absurd hreason hfailed
    | lagged => exact absurd hreason hlagged
    | closed => exact absurd hreason (hserves.not_closed hne)
  · rintro (hlagged | hfailed | ⟨hphase, hlength⟩) hnlagged hnfailed
    · exact absurd hlagged hnlagged
    · exact absurd hfailed hnfailed
    · exact (hserves.served_iff_nothing hphase).mpr hlength

/-- A connection is live, one message is broadcast, and then the source is over. -/
def oneBroadcast : List (HubAction TcpServeAction TcpAction) :=
  [.join, .party 0 (.warmup (some [])), .party 0 .proceed,
    .shared (.ingest (.store (emptyEvent .startOfMessages) false)), .shared (.ingest .broadcast),
    .shared (.ingest .close), .shared .ingestSeen]

/-- The connection then. -/
def behind : TcpSubscriber :=
  { phase := .live, rxPos := 0, written := [], start := 0, policy := [], warmed := []
    forwarded := [] }

theorem exists_run_oneBroadcast :
    ∃ sys, Run step (fun _ => True) (start (RingBufferSeqStore.withCapacity 4)) sys ∧
      step sys (.shared .joined) = some { sys with shared := sys.shared.ret } ∧
      sys.parties = [behind] ∧
      sys.shared.server.channel = [(1, emptyEvent .startOfMessages)] := by
  obtain ⟨sys, hrun, heq⟩ := exists_run_of_exec oneBroadcast
    (fun sys => (sys.shared.phase, sys.shared.ingestEnded, sys.parties, sys.shared.server.channel))
    trivial
    (show (exec step (fun _ => True) (start (RingBufferSeqStore.withCapacity 4)) oneBroadcast).map _
      = some (.joining, true, [behind], [((1 : UInt64), emptyEvent .startOfMessages)])
      by decide +kernel)
  simp only [Prod.mk.injEq] at heq
  obtain ⟨hphase, hended, hparties, hchannel⟩ := heq
  exact ⟨sys, hrun, by simp [step, Hub.step, serve, hphase, hended], hparties, hchannel⟩

theorem served_iff_oneBroadcast :
    ∃ sys sys', Run step (fun _ => True) (start (RingBufferSeqStore.withCapacity 4)) sys ∧
      step sys (.shared .joined) = some sys' ∧
      ((∀ s ∈ sys'.parties, s.phase ≠ .ended .lagged → s.phase ≠ .ended .sendFailed →
          Served sys'.shared.server s) ↔
        ∀ s ∈ sys.parties, s.phase = .ended .lagged ∨ s.phase = .ended .sendFailed ∨
          s.phase = .ended .warmupFailed ∧ sys.shared.server.channel.length = s.start) := by
  obtain ⟨sys, hrun, hret, -⟩ := exists_run_oneBroadcast
  exact ⟨sys, _, hrun, hret, served_iff _ sys _ hrun hret⟩

/-- `serve` returns although the connection was not sent the message yet. -/
theorem returns_before_message_sent :
    ∃ sys sys', Run step (fun _ => True) (start (RingBufferSeqStore.withCapacity 4)) sys ∧
      step sys (.shared .joined) = some sys' ∧
      ∃ s ∈ sys'.parties, s.phase = .live ∧ s.forwarded = [] ∧
        sys'.shared.server.channel.drop s.start = [(1, emptyEvent .startOfMessages)] ∧
        ¬ Served sys'.shared.server s := by
  obtain ⟨sys, hrun, hret, hparties, hchannel⟩ := exists_run_oneBroadcast
  refine ⟨sys, _, hrun, hret, behind, hparties ▸ List.mem_singleton_self behind, rfl, rfl,
    hchannel, ?_⟩
  rintro ⟨⟨reason, hreason⟩, -⟩
  cases hreason

end TcpServer

end Itch
