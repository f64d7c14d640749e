import Itch.Protocol.RoundTrip
import Itch.Soup.Server

/-!
# The moves of the server

What one step of a task can do to its state, case by case.  The invariants of the server
are proved from these cases.
-/

namespace Itch

open Lib

/-- Encoding into a buffer of the right length succeeds. -/
theorem encodeMessage_eq (msg : Message) : encodeMessage msg = some msg.wireImage := by
  rw [encodeMessage, msg.encode_fresh]

/-- The packet of a message. -/
def dataPacket (msg : Message) : SoupPacket :=
  .sequencedData msg.wireImage

namespace Server

variable {σ : Type} [SeqStore σ]

/-- The moves of the ingest task. -/
inductive Move (srv : Server σ) : Server σ → Prop where
  /-- The frame is dropped. -/
  | drop : Move srv srv
  | store {msg : Message} {store : σ} : srv.stored = none →
      SeqStore.store srv.store srv.nextSeq msg = some store →
      Move srv { srv with
        store := store
        stored := some msg
        written := srv.written ++ [(srv.nextSeq, msg)] }
  | broadcast {msg : Message} : srv.stored = some msg →
      Move srv { srv with
        channel := srv.channel ++ [(srv.nextSeq, msg)]
        nextSeq := Word64.saturatingSucc srv.nextSeq
        stored := none }
  | close : srv.stored = none → Move srv { srv with closed := true }

theorem step_move {srv srv' : Server σ} {action : IngestAction}
    (h : srv.step action = some srv') : Move srv srv' := by
  cases action with
  | store msg fails =>
      simp only [step] at h
      split at h
      next hstored _ =>
        split at h
        next =>
          cases h
          exact .drop
        next =>
          split at h
          next =>
            cases h
            exact .drop
          next store hstore =>
            cases h
            exact .store hstored hstore
      next => cases h
  | broadcast =>
      simp only [step] at h
      split at h
      next msg hstored =>
        cases h
        exact .broadcast hstored
      next => cases h
  | close =>
      simp only [step] at h
      split at h
      next hstored =>
        cases h
        exact .close hstored
      next => cases h

theorem Move.channel_le {srv srv' : Server σ} (h : Move srv srv') :
    srv.channel <+: srv'.channel := by
  cases h with
  | drop => exact List.prefix_rfl
  | store => exact List.prefix_rfl
  | broadcast => exact List.prefix_append _ _
  | close => exact List.prefix_rfl

end Server

namespace Subscriber

variable {σ : Type} [SeqStore σ]

/-- What the task of a connection may send before it ends. -/
inductive LastWords : Phase → List SoupPacket → Prop where
  | silent (phase : Phase) : LastWords phase []
  | rejected (reason : LoginRejectReason) : LastWords .login [.loginRejected reason]
  | endOfSession : LastWords .live [.endOfSession]

/-- The moves of the task of a connection. -/
inductive Move (cfg : ServerConfig) (srv : Server σ) (s : Subscriber σ) :
    SubscriberAction → Subscriber σ → Prop where
  /-- The connection ends, perhaps with a last packet. -/
  | close {action : SubscriberAction} {last : List SoupPacket} : LastWords s.phase last →
      Move cfg srv s action { s with phase := .closed, out := s.out ++ last }
  /-- A packet of the client that changes nothing. -/
  | ignore {action : SubscriberAction} : s.phase = .live → Move cfg srv s action s
  | passLogin {req : LoginRequest} : s.phase = .login →
      Move cfg srv s (.packet (some (.ok (.loginRequest req))))
        { s with phase := .readLatest req.requestedSequence }
  | readLatest {requested : UInt64} : s.phase = .readLatest requested →
      Move cfg srv s .proceed { s with
        phase := .accept ((SeqStore.latest srv.store).getD 0)
          (if requested = 0 then Word64.saturatingSucc ((SeqStore.latest srv.store).getD 0)
            else requested) }
  | accept {latest resumeFrom : UInt64} : s.phase = .accept latest resumeFrom →
      Move cfg srv s .proceed { s with
        phase := .warmup latest
        nextExpected := resumeFrom
        out := s.out ++ [.loginAccepted { session := cfg.session, sequence := resumeFrom }]
        trace := { s.trace with announced := some resumeFrom } }
  | warmup {latest : UInt64} {messages : List Message} : s.phase = .warmup latest →
      Move cfg srv s (.warmup (some messages)) { s with phase := .warming latest messages }
  | warm {latest : UInt64} {msg : Message} {messages : List Message} :
      s.phase = .warming latest (msg :: messages) →
      Move cfg srv s .proceed { s with
        phase := .warming latest messages
        out := s.out ++ [dataPacket msg]
        trace := { s.trace with warmed := s.trace.warmed ++ [msg] } }
  | startReplay {latest : UInt64} : s.phase = .warming latest [] → s.nextExpected ≤ latest →
      Move cfg srv s .proceed { s with phase := .replay }
  | startLive {latest : UInt64} : s.phase = .warming latest [] → ¬ s.nextExpected ≤ latest →
      Move cfg srv s .proceed { s with phase := .live }
  | readChunk {entries : List (UInt64 × Message)} : s.phase = .replay →
      SeqStore.range srv.store s.nextExpected replayChunk = some entries → entries ≠ [] →
      Move cfg srv s .proceed { s with
        phase := .replaying entries
        trace := { s.trace with
          firstRead := if s.trace.replayed.isEmpty then some srv.store
            else s.trace.firstRead } }
  | endReplay : s.phase = .replay →
      SeqStore.range srv.store s.nextExpected replayChunk = some [] →
      Move cfg srv s .proceed { s with
        phase := .live
        trace := { s.trace with
          firstRead := if s.trace.replayed.isEmpty then some srv.store
            else s.trace.firstRead } }
  | replay {seq : UInt64} {msg : Message} {entries : List (UInt64 × Message)} :
      s.phase = .replaying ((seq, msg) :: entries) →
      Move cfg srv s .proceed { s with
        phase := .replaying entries
        nextExpected := Word64.saturatingSucc seq
        out := s.out ++ [dataPacket msg]
        trace := { s.trace with replayed := s.trace.replayed ++ [(seq, msg)] } }
  | nextChunk : s.phase = .replaying [] → Move cfg srv s .proceed { s with phase := .replay }
  | skip {seq : UInt64} {msg : Message} : s.phase = .live →
      srv.channel[s.rxPos]? = some (seq, msg) → seq < s.nextExpected →
      Move cfg srv s .proceed { s with rxPos := s.rxPos + 1 }
  | forward {seq : UInt64} {msg : Message} : s.phase = .live →
      srv.channel[s.rxPos]? = some (seq, msg) → ¬ seq < s.nextExpected →
      Move cfg srv s .proceed { s with
        rxPos := s.rxPos + 1
        nextExpected := Word64.saturatingSucc seq
        out := s.out ++ [dataPacket msg]
        trace := { s.trace with forwarded := s.trace.forwarded ++ [(seq, msg)] } }

variable {cfg : ServerConfig} {srv : Server σ} {s s' : Subscriber σ}
  {action : SubscriberAction}

theorem Move.silent : Move cfg srv s action s.close := by
  have h : Move cfg srv s action { s with phase := .closed, out := s.out ++ [] } :=
    .close (.silent s.phase)
  rwa [List.append_nil] at h

theorem Move.reject (h : s.phase = .login) (reason : LoginRejectReason) :
    Move cfg srv s action (s.send (.loginRejected reason)).close :=
  .close (h ▸ .rejected reason)

theorem login_move (h : s.phase = .login) (item : Option (Except SoupError SoupPacket)) :
    Move cfg srv s (.packet item) (s.login cfg item) := by
  unfold login
  split
  next req =>
    split
    next reason _ => exact .reject h reason
    next =>
      dsimp only
      split
      next => exact .reject h _
      next => exact .passLogin h
  next => exact .silent

theorem read_move (h : s.phase = .live) (item : Option (Except SoupError SoupPacket)) :
    Move cfg srv s (.packet item) (s.read item) := by
  unfold read
  split
  next => exact .ignore h
  next => exact .ignore h
  next => exact .ignore h
  next => exact .silent

theorem readChunk_move (h : s.phase = .replay) : Move cfg srv s .proceed (s.readChunk srv.store) := by
  unfold readChunk
  split
  next => exact .silent
  next entries hrange =>
    cases entries with
    | nil => exact .endReplay h hrange
    | cons e entries => exact .readChunk h hrange (List.cons_ne_nil e entries)

theorem proceed_move (h : s.proceed cfg srv = some s') : Move cfg srv s .proceed s' := by
  unfold proceed at h
  split at h
  next requested hphase =>
    cases h
    exact .readLatest hphase
  next latest resumeFrom hphase =>
    cases h
    exact .accept hphase
  next latest messages hphase =>
    cases h
    cases messages with
    | nil =>
        rw [warm]
        split
        next hle => exact .startReplay hphase hle
        next hle => exact .startLive hphase hle
    | cons msg messages =>
        simp only [warm, encodeMessage_eq]
        exact .warm hphase
  next hphase =>
    cases h
    exact readChunk_move hphase
  next entries hphase =>
    cases h
    match entries, hphase with
    | [], hphase => exact .nextChunk hphase
    | (seq, msg) :: entries, hphase =>
        simp only [sendReplay, encodeMessage_eq]
        exact .replay hphase
  next hphase =>
    split at h
    next seq msg hget =>
      cases h
      unfold forward
      split
      next hlt => exact .skip hphase hget hlt
      next hlt =>
        rw [encodeMessage_eq]
        exact .forward hphase hget hlt
    next =>
      split at h
      next =>
        cases h
        exact .close (hphase ▸ .endOfSession)
      next => cases h
  next => cases h
  next => cases h
  next => cases h

theorem step_move (h : s.step cfg srv action = some s') : Move cfg srv s action s' := by
  cases action with
  | packet item =>
      simp only [step] at h
      split at h
      next hphase =>
        cases h
        exact login_move hphase item
      next hphase =>
        cases h
        exact read_move hphase item
      next => cases h
  | warmup result =>
      simp only [step] at h
      split at h
      next latest messages hphase =>
        cases h
        exact .warmup hphase
      next =>
        cases h
        exact .silent
      next => cases h
  | proceed => exact proceed_move h
  | lagged =>
      simp only [step] at h
      split at h
      next =>
        cases h
        exact .silent
      next => cases h
  | sendFailed =>
      simp only [step] at h
      split at h
      next => cases h
      next =>
        cases h
        exact .silent

theorem step_closed (h : s.phase = .closed) : s.step cfg srv action = none := by
  cases action <;> simp [step, proceed, h]

/-! ## The end of the session -/

omit [SeqStore σ] in
theorem out_read (s : Subscriber σ) (item : Option (Except SoupError SoupPacket)) :
    (s.read item).out = s.out := by
  unfold read
  split
  next => rfl
  next => rfl
  next => rfl
  next => rfl

omit [SeqStore σ] in
theorem out_forward (s : Subscriber σ) (seq : UInt64) (msg : Message) :
    (s.forward seq msg).out = s.out ∨ (s.forward seq msg).out = s.out ++ [dataPacket msg] := by
  unfold forward
  split
  next => exact .inl rfl
  next =>
    rw [encodeMessage_eq]
    exact .inr rfl

/-- A live connection that says the end of the session finds the channel closed and nothing
more on it. -/
theorem live_endOfSession (hphase : s.phase = .live) (h : s.step cfg srv action = some s')
    (hout : s'.out = s.out ++ [.endOfSession]) :
    srv.channel[s.rxPos]? = none ∧ srv.closed = true := by
  cases action with
  | packet item =>
      simp only [step, hphase, Option.some_inj] at h
      rw [← h, out_read] at hout
      simp at hout
  | warmup result => simp [step, hphase] at h
  | proceed =>
      simp only [step, proceed, hphase] at h
      split at h
      next seq msg hget =>
        obtain rfl := Option.some.inj h
        rcases out_forward s seq msg with hsame | hdata
        · simp [hsame] at hout
        · simp [hdata, dataPacket] at hout
      next hnone =>
        split at h
        next hclosed => exact ⟨hnone, hclosed⟩
        next => cases h
  | lagged =>
      simp only [step, hphase, Option.some_inj] at h
      simp [← h, close] at hout
  | sendFailed =>
      simp only [step, hphase, Option.some_inj] at h
      simp [← h, close] at hout

/-- The step that says the end of the session is the last one. -/
theorem caughtUp_of_endOfSession (h : s.step cfg srv action = some s')
    (hold : .endOfSession ∉ s.out) (hnew : .endOfSession ∈ s'.out) :
    s.phase = .live ∧ srv.channel[s.rxPos]? = none ∧ srv.closed = true ∧
      s'.phase = .closed ∧ s'.trace = s.trace := by
  have hmove := step_move h
  cases hmove with
  | @close _ last hlast =>
      generalize hphase : s.phase = phase at hlast
      cases hlast with
      | silent => simp [hold] at hnew
      | rejected reason => simp [hold] at hnew
      | endOfSession =>
          obtain ⟨hnone, hclosed⟩ := live_endOfSession hphase h rfl
          exact ⟨rfl, hnone, hclosed, rfl, rfl⟩
  | ignore => exact absurd hnew hold
  | accept => simp [hold] at hnew
  | warm => simp [hold, dataPacket] at hnew
  | replay => simp [hold, dataPacket] at hnew
  | forward => simp [hold, dataPacket] at hnew
  | _ => exact absurd hnew hold

end Subscriber

namespace System

variable {σ : Type} [SeqStore σ]

/-- A step of the system moves the ingest task, accepts the connection or moves its task. -/
theorem step_cases {cfg : ServerConfig} {sys sys' : System σ} {action : Action}
    (h : sys.step cfg action = some sys') :
    (Server.Move sys.server sys'.server ∧ sys'.subscriber = sys.subscriber) ∨
    (sys.subscriber = none ∧ sys' = { sys with subscriber := some (.accept sys.server) }) ∨
    (∃ s s' action, sys.subscriber = some s ∧ Subscriber.Move cfg sys.server s action s' ∧
      sys' = { sys with subscriber := some s' }) := by
  cases action with
  | ingest action =>
      obtain ⟨srv, hsrv, rfl⟩ := Option.map_eq_some_iff.mp h
      exact .inl ⟨Server.step_move hsrv, rfl⟩
  | accept =>
      simp only [step] at h
      split at h
      next hnone =>
        cases h
        exact .inr (.inl ⟨hnone, rfl⟩)
      next => cases h
  | subscriber action =>
      simp only [step] at h
      split at h
      next => cases h
      next s hs =>
        obtain ⟨s', hs', rfl⟩ := Option.map_eq_some_iff.mp h
        exact .inr (.inr ⟨s, s', action, hs, Subscriber.step_move hs', rfl⟩)

end System

end Itch
