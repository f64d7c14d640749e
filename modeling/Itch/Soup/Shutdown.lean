import Itch.Lib.Hub
import Itch.Soup.Delivery

/-!
# The end of `serve`

The accept loop around the ingest task and the tasks of the connections.  The channel has
two senders: the ingest task drops its own when the source is over, and the accept loop
keeps the other in a local variable of `serve_with_shutdown`, which lives until that
returns.  A receiver sees the channel closed only when both are gone.

So no connection has learnt of the end of the session when `serve` returns, however long
the grace it waits for them.
-/

namespace Itch

open Lib

/-- Where `serve` stands. -/
inductive ServePhase where
  | accepting
  /-- Waits for the ingest task. -/
  | joining
  /-- Waits for the tasks of the connections, up to the grace. -/
  | draining
  | returned
deriving Repr, DecidableEq

structure Serve (σ : Type) where
  server : Server σ
  /-- Whether the ingest task has ended and dropped its sender. -/
  ingestEnded : Bool
  phase : ServePhase

inductive ServeAction where
  /-- A step of the ingest task.  It ends with `close`. -/
  | ingest (action : IngestAction)
  /-- The external shutdown signal. -/
  | signal
  /-- The accept loop sees that the ingest task has ended. -/
  | ingestSeen
  | joined
  /-- The tasks of the connections have ended, or the grace is over. -/
  | graceOver
deriving Repr, DecidableEq

namespace Serve

variable {σ : Type} [SeqStore σ]

def start (store : σ) (startSequence : UInt64) : Serve σ where
  server := .start store startSequence
  ingestEnded := false
  phase := .accepting

/-- A step of the ingest task, whose end leaves the sender of the accept loop. -/
def ingest (s : Serve σ) (action : IngestAction) : Option (Serve σ) :=
  if s.ingestEnded then none
  else
    match action with
    | .close =>
        match s.server.stored with
        | none => some { s with ingestEnded := true }
        | some _ => none
    | action => (s.server.step action).map fun server => { s with server := server }

/-- The last sender is dropped as `serve` returns. -/
def ret (s : Serve σ) : Serve σ :=
  { s with phase := .returned, server := { s.server with closed := true } }

def step (s : Serve σ) : ServeAction → Option (Serve σ)
  | .ingest action => s.ingest action
  | .signal => if s.phase = .accepting then some { s with phase := .joining } else none
  | .ingestSeen =>
      if s.phase = .accepting ∧ s.ingestEnded then some { s with phase := .joining } else none
  | .joined =>
      if s.phase = .joining ∧ s.ingestEnded then some { s with phase := .draining } else none
  | .graceOver => if s.phase = .draining then some s.ret else none

/-- Whether a connection is accepted. -/
def accept (s : Serve σ) : Option (Subscriber σ) :=
  if s.phase = .accepting then some (.accept s.server) else none

end Serve

/-! ## The system -/

namespace SoupServer

variable {σ : Type} [SeqStore σ]

def start (store : σ) (startSequence : UInt64) : Hub (Serve σ) (Subscriber σ) where
  shared := .start store startSequence
  parties := []

def step (cfg : ServerConfig) : Hub (Serve σ) (Subscriber σ) →
    HubAction ServeAction SubscriberAction → Option (Hub (Serve σ) (Subscriber σ)) :=
  Hub.step Serve.step Serve.accept fun s => Subscriber.step cfg s.server

end SoupServer

/-! ## The channel stays open -/

namespace Serve

variable {σ : Type} [SeqStore σ] {s s' : Serve σ}

/-- A sender is left until `serve` returns. -/
def Open (s : Serve σ) : Prop :=
  s.phase ≠ .returned → s.server.closed = false

theorem closed_of_server_step {srv srv' : Server σ} {action : IngestAction}
    (h : srv.step action = some srv') (haction : action ≠ .close) : srv'.closed = srv.closed := by
  cases action with
  | store msg fails =>
      simp only [Server.step] at h
      split at h
      next =>
        split at h
        next => cases h; rfl
        next =>
          split at h
          next => cases h; rfl
          next => cases h; rfl
      next => cases h
  | broadcast =>
      simp only [Server.step] at h
      split at h
      next => cases h; rfl
      next => cases h
  | close => exact absurd rfl haction

/-- The ingest task ends, or it makes a step that is not its last. -/
theorem ingest_cases {action : IngestAction} (h : s.ingest action = some s') :
    s' = { s with ingestEnded := true } ∨
      ∃ srv, action ≠ .close ∧ s.server.step action = some srv ∧
        s' = { s with server := srv } := by
  unfold ingest at h
  split at h
  next => cases h
  next =>
    split at h
    next =>
      split at h
      next =>
        cases h
        exact .inl rfl
      next => cases h
    next haction =>
      obtain ⟨srv, hsrv, rfl⟩ := Option.map_eq_some_iff.mp h
      exact .inr ⟨srv, haction, hsrv, rfl⟩

/-- The ingest task does not close the channel. -/
theorem ingest_keeps {action : IngestAction} (h : s.ingest action = some s') :
    s'.phase = s.phase ∧ s'.server.closed = s.server.closed := by
  rcases ingest_cases h with rfl | ⟨srv, haction, hsrv, rfl⟩
  · exact ⟨rfl, rfl⟩
  · exact ⟨rfl, closed_of_server_step hsrv haction⟩

theorem ingest_move {action : IngestAction} (h : s.ingest action = some s') :
    Server.Move s.server s'.server := by
  rcases ingest_cases h with rfl | ⟨srv, -, hsrv, rfl⟩
  · exact .drop
  · exact Server.step_move hsrv

/-- The moves of `serve` and of the ingest task. -/
inductive Move (s : Serve σ) : Serve σ → Prop where
  | ingest {action : IngestAction} {s' : Serve σ} : s.ingest action = some s' → Move s s'
  | goOn {phase : ServePhase} : s.phase ≠ .returned → Move s { s with phase := phase }
  | ret : Move s s.ret

theorem step_move {action : ServeAction} (h : s.step action = some s') : Move s s' := by
  cases action with
  | ingest action => exact .ingest h
  | signal =>
      obtain ⟨hphase, heq⟩ := Option.ite_none_right_eq_some.mp h
      cases heq
      exact .goOn (by simp [hphase])
  | ingestSeen =>
      obtain ⟨hphase, heq⟩ := Option.ite_none_right_eq_some.mp h
      cases heq
      exact .goOn (by simp [hphase.1])
  | joined =>
      obtain ⟨hphase, heq⟩ := Option.ite_none_right_eq_some.mp h
      cases heq
      exact .goOn (by simp [hphase.1])
  | graceOver =>
      obtain ⟨-, heq⟩ := Option.ite_none_right_eq_some.mp h
      cases heq
      exact .ret

theorem Open.move (h : s.Open) (hmove : Move s s') :
    s'.Open ∧ (s'.phase ≠ .returned → s.phase ≠ .returned) := by
  unfold Open at h ⊢
  cases hmove with
  | ingest hingest =>
      obtain ⟨hphase, hclosed⟩ := ingest_keeps hingest
      rw [hphase, hclosed]
      exact ⟨h, id⟩
  | goOn hne => exact ⟨fun _ => h hne, fun _ => hne⟩
  | ret => exact ⟨fun hne => absurd rfl hne, fun hne => absurd rfl hne⟩

end Serve

namespace Subscriber

variable {σ : Type} [SeqStore σ] {cfg : ServerConfig} {srv : Server σ} {s s' : Subscriber σ}

/-- While the channel has a sender, no connection is told of the end of the session. -/
theorem not_mem_step {action : SubscriberAction} (h : .endOfSession ∉ s.out)
    (hopen : srv.closed = false) (hstep : s.step cfg srv action = some s') :
    .endOfSession ∉ s'.out := by
  intro hmem
  obtain ⟨-, -, hclosed, -⟩ := caughtUp_of_endOfSession hstep h hmem
  rw [hopen] at hclosed
  cases hclosed

/-- The login was accepted. -/
def LoggedIn (s : Subscriber σ) : Prop :=
  ∃ accepted, .loginAccepted accepted ∈ s.out

end Subscriber

/-! ## The end of a run -/

namespace SoupServer

variable {σ : Type} [SeqStore σ] {cfg : ServerConfig} {sys sys' : Hub (Serve σ) (Subscriber σ)}

theorem endOfSession_not_sent {store : σ} {startSequence : UInt64}
    (hrun : Run (step cfg) (fun _ => True) (start store startSequence) sys)
    (hphase : sys.shared.phase ≠ .returned) : ∀ s ∈ sys.parties, .endOfSession ∉ s.out := by
  have hinv : Hub.Holds Serve.Open
      (fun srv (s : Subscriber σ) => srv.phase ≠ .returned → .endOfSession ∉ s.out) sys := by
    refine Hub.Holds.run hrun ⟨fun _ => rfl, fun s hs => absurd hs List.not_mem_nil⟩ ?_ ?_ ?_
    · intro srv action srv' hopen hmove
      obtain ⟨hopen', hback⟩ := hopen.move (Serve.step_move hmove)
      exact ⟨hopen', fun s hs hne => hs (hback hne)⟩
    · intro srv s _ hjoin _
      obtain ⟨-, heq⟩ := Option.ite_none_right_eq_some.mp hjoin
      cases heq
      exact List.not_mem_nil
    · intro srv s action s' hopen hs hact hne
      exact Subscriber.not_mem_step (hs hne) (hopen hne) hact
  exact fun s hs => hinv.2 s hs hphase

/-- When `serve` returns, no subscriber has been sent the end of the session.  So those that are
logged in and connected and whose sockets accept writes have been sent it exactly if there are
none. -/
theorem endOfSession_sent_iff (cfg : ServerConfig) (store : σ) (startSequence : UInt64)
    (sys sys' : Hub (Serve σ) (Subscriber σ))
    (hrun : Run (step cfg) (fun _ => True) (start store startSequence) sys)
    (hret : step cfg sys (.shared .graceOver) = some sys') (accepts : Subscriber σ → Prop) :
    (∀ s ∈ sys'.parties, .endOfSession ∉ s.out) ∧
    ((∀ s ∈ sys'.parties, s.LoggedIn → s.phase ≠ .closed → accepts s → .endOfSession ∈ s.out) ↔
      ∀ s ∈ sys.parties, s.LoggedIn → s.phase ≠ .closed → ¬ accepts s) := by
  obtain ⟨srv, hsrv, rfl⟩ := Option.map_eq_some_iff.mp hret
  obtain ⟨hdraining, -⟩ := Option.ite_none_right_eq_some.mp hsrv
  have hnot := endOfSession_not_sent hrun (by rw [hdraining]; decide)
  refine ⟨hnot, ?_⟩
  constructor
  · intro hall s hs hlogin hconnected haccepts
    exact hnot s hs (hall s hs hlogin hconnected haccepts)
  · intro hnone s hs hlogin hconnected haccepts
    exact absurd haccepts (hnone s hs hlogin hconnected)

/-- One client logs in, and then the source is over. -/
def oneClient : List (HubAction ServeAction SubscriberAction) :=
  [.join, .party 0 (loginFor 0), .party 0 .proceed, .party 0 .proceed,
    .party 0 (.warmup (some [])), .party 0 .proceed, .shared (.ingest .close),
    .shared .ingestSeen, .shared .joined]

/-- The client is live while `serve` waits for it. -/
theorem exists_run_oneClient :
    ∃ sys, Run (step openServer) (fun _ => True) (start (RingBufferSeqStore.withCapacity 4) 1)
        sys ∧ sys.shared.phase = .draining ∧ sys.shared.ingestEnded = true ∧
      ∃ s, sys.parties = [s] ∧ s.phase = .live ∧
        s.out = [.loginAccepted { session := [], sequence := 1 }] := by
  obtain ⟨sys, hrun, heq⟩ := exists_run_of_exec oneClient
    (fun sys => (sys.shared.phase, sys.shared.ingestEnded,
      sys.parties.map fun s => (s.phase, s.out))) trivial
    (show (exec (step openServer) (fun _ => True) (start (RingBufferSeqStore.withCapacity 4) 1)
      oneClient).map _ = some (.draining, true,
        [(.live, [.loginAccepted { session := [], sequence := 1 }])]) by decide +kernel)
  obtain ⟨hphase, hrest⟩ := Prod.mk.inj heq
  obtain ⟨hended, hparties⟩ := Prod.mk.inj hrest
  obtain ⟨s, hs, hfields⟩ := List.map_eq_singleton_iff.mp hparties
  exact ⟨sys, hrun, hphase, hended, s, hs, Prod.mk.inj hfields⟩

theorem step_graceOver (cfg : ServerConfig) (h : sys.shared.phase = .draining) :
    step cfg sys (.shared .graceOver) = some { sys with shared := sys.shared.ret } := by
  simp [step, Hub.step, Serve.step, h]

/-- The client is there, so it is not told. -/
theorem endOfSession_sent_iff_oneClient :
    ∃ sys sys', Run (step openServer) (fun _ => True)
        (start (RingBufferSeqStore.withCapacity 4) 1) sys ∧
      step openServer sys (.shared .graceOver) = some sys' ∧
      (∀ s ∈ sys'.parties, .endOfSession ∉ s.out) ∧
      ((∀ s ∈ sys'.parties, s.LoggedIn → s.phase ≠ .closed → True → .endOfSession ∈ s.out) ↔
        ∀ s ∈ sys.parties, s.LoggedIn → s.phase ≠ .closed → ¬ True) := by
  obtain ⟨sys, hrun, hphase, -⟩ := exists_run_oneClient
  have hret := step_graceOver openServer hphase
  exact ⟨sys, _, hrun, hret, endOfSession_sent_iff openServer _ 1 sys _ hrun hret fun _ => True⟩

/-- `serve` returns while a client is live that was not told of the end of the session. -/
theorem live_client_not_told :
    ∃ sys sys', Run (step openServer) (fun _ => True)
        (start (RingBufferSeqStore.withCapacity 4) 1) sys ∧
      step openServer sys (.shared .graceOver) = some sys' ∧ sys.shared.ingestEnded = true ∧
      ∃ s ∈ sys'.parties, s.LoggedIn ∧ s.phase = .live ∧ .endOfSession ∉ s.out := by
  obtain ⟨sys, hrun, hphase, hended, s, hs, hlive, hout⟩ := exists_run_oneClient
  have hmem : s ∈ sys.parties := by
    rw [hs]
    exact List.mem_singleton_self s
  have hlogin : s.LoggedIn := ⟨{ session := [], sequence := 1 }, by simp [hout]⟩
  exact ⟨sys, _, hrun, step_graceOver openServer hphase, hended, s, hmem, hlogin, hlive,
    by simp [hout]⟩

end SoupServer

end Itch
