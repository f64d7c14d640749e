import Itch.Soup.Completion

/-!
# Restarts of the server

A server that stops, at any point, is started again with the store it has written.  The ingest
task goes on after the largest number in the store, whether or not its message was broadcast.  The
client reads what is left of the old connection and connects to the new server after that.

The store is all that connects the two servers.  What the client has returned is in it under the
numbers it was sent with, and that is all the new server has to know of the past.
-/

namespace Itch

open Lib

/-- A network whose server is started again. -/
structure Restarting (σ : Type) where
  /-- The client, with the server of its connection. -/
  net : Net σ
  /-- The server started since, until the client has left the connection to the old one. -/
  next : Option (Server σ)

inductive RestartAction where
  | net (action : NetAction)
  /-- The server stops and is started again. -/
  | crash
  /-- A step of the new server while the client still has the old connection. -/
  | next (action : IngestAction)
  /-- The client turns to the new server. -/
  | moveOn
deriving Repr, DecidableEq

/-- The steps that do not need the server. -/
def NetAction.ofClient : NetAction → Bool
  | .connectFails | .download _ | .clientRead _ | .clientReset | .loginTimeout => true
  | _ => false

namespace Restarting

variable {σ : Type} [SeqStore σ]

def start (rcfg : ResilientSoupConfig) (store : σ) (startSequence : UInt64) : Restarting σ where
  net := .start rcfg store startSequence
  next := none

/-- The server that runs. -/
def running (sys : Restarting σ) : Server σ :=
  sys.next.getD sys.net.server

/-- The client, with the server that runs. -/
def current (sys : Restarting σ) : Net σ :=
  { sys.net with server := sys.running }

def step (cfg : ServerConfig) (rcfg : ResilientSoupConfig) (startSequence : UInt64)
    (sys : Restarting σ) : RestartAction → Option (Restarting σ)
  | .net action =>
      if sys.next.isNone || action.ofClient then
        (sys.net.step cfg rcfg action).map fun net => { sys with net := net }
      else none
  | .crash => some { sys with next := some (.start sys.running.store startSequence) }
  | .next action =>
      sys.next.bind fun srv => (srv.step action).map fun srv => { sys with next := some srv }
  | .moveOn =>
      match sys.next, sys.net.link with
      | some srv, none => some { net := { sys.net with server := srv }, next := none }
      | _, _ => none

end Restarting

/-! ## What the store carries over -/

variable {σ : Type} [LawfulSeqStore σ]

open LawfulSeqStore (view latestSeq)

/-- What one store has under a number, the other has too. -/
def Extends (a b : σ) : Prop :=
  ∀ n m, n ≠ 0 → view a n = some m → view b n = some m

/-- The ingest task writes above what is there. -/
theorem Server.Ledger.extends {net : Net σ} {srv srv' : Server σ} {first a : σ} {start : Nat}
    (hledger : srv.Ledger first start) (hmove : srv.Move srv')
    (hmax : latestSeq srv.store ≠ Word64.max)
    (hkeeps' : ({ net with server := srv' } : Net σ).KeepsLog) (h : Extends a srv.store) :
    Extends a srv'.store := by
  intro n m hn ha
  have hview := h n m hn ha
  cases hmove with
  | store hstored hstore =>
      have hle := LawfulSeqStore.le_latestSeq _ n m hview
      have hlt := hledger.latest_lt (Nat.lt_sub_of_add_lt (Word64.succ_lt_of_ne_max hmax)) hstored
      have hne : n ≠ srv.nextSeq := by
        rintro rfl
        exact absurd (Word64.le_iff.mp hle) (Nat.not_le.mpr hlt)
      have hlatest := LawfulSeqStore.latestSeq_store _ _ _ _ hstore
      rcases LawfulSeqStore.view_store_of_ne _ _ _ _ hstore n hne with hsame | hnone
      · exact hsame.trans hview
      · -- nothing is evicted
        obtain ⟨m', hm', -⟩ := hkeeps' n hn (Word64.le_iff.mpr (by
          rw [hlatest]
          exact (Word64.le_iff.mp hle).trans (Nat.le_max_left _ _)))
        cases hm'.symm.trans hnone
  | _ => exact hview

/-! ## Every run -/

namespace Restarting

variable {cfg : ServerConfig} {rcfg : ResilientSoupConfig} {startSequence : UInt64}
  {sys sys' : Restarting σ}

/-- The stores of both servers keep their logs. -/
def KeepsLog (sys : Restarting σ) : Prop :=
  (sys.net.KeepsLog ∧ sys.net.BelowMax) ∧ sys.current.KeepsLog ∧ sys.current.BelowMax

instance (sys : Restarting σ) : Decidable sys.KeepsLog :=
  inferInstanceAs (Decidable ((sys.net.KeepsLog ∧ sys.net.BelowMax) ∧
    sys.current.KeepsLog ∧ sys.current.BelowMax))

structure Inv (cfg : ServerConfig) (sys : Restarting σ) : Prop where
  net : ∃ first start, sys.net.Inv cfg first start
  next : ∀ srv, sys.next = some srv → (∃ first start, srv.Ledger first start) ∧
    Extends sys.net.server.store srv.store

theorem inv_start (cfg : ServerConfig) (rcfg : ResilientSoupConfig) (first : σ)
    (startSequence : UInt64) : (start rcfg first startSequence).Inv cfg where
  net := ⟨_, _, Net.inv_start cfg rcfg first startSequence⟩
  next := by rintro _ ⟨⟩

theorem Inv.net_step {action : NetAction} (h : sys.Inv cfg) (hkeeps : sys.KeepsLog)
    (hstep : sys.step cfg rcfg startSequence (.net action) = some sys') : sys'.Inv cfg := by
  rw [step] at hstep
  split at hstep
  next henabled =>
    obtain ⟨net, hnet, rfl⟩ := Option.map_eq_some_iff.mp hstep
    obtain ⟨first, start, hinv⟩ := h.net
    refine ⟨⟨first, start, hinv.step hkeeps.1 hnet⟩, fun srv hsrv => ?_⟩
    have hclient : action.ofClient = true := by
      simpa [show sys.next = some srv from hsrv] using henabled
    have hserver : net.server = sys.net.server := by
      refine Net.server_of_step hnet ?_
      rintro a rfl
      cases hclient
    dsimp only
    rw [hserver]
    exact h.next srv hsrv
  next => cases hstep

theorem Inv.crash (h : sys.Inv cfg) (startSequence : UInt64) :
    Inv cfg { sys with next := some (.start sys.running.store startSequence) } := by
  refine ⟨h.net, ?_⟩
  rintro _ ⟨⟩
  refine ⟨⟨_, _, Server.ledger_start _ startSequence⟩, ?_⟩
  show Extends sys.net.server.store sys.running.store
  unfold running
  cases hnext : sys.next with
  | none => exact fun _ _ _ hview => hview
  | some srv => exact (h.next srv hnext).2

/-- The history of the client, told by the new store. -/
theorem Inv.moveOn {srv : Server σ} (h : sys.Inv cfg) (hkeeps : sys.KeepsLog)
    (hnext : sys.next = some srv) (hlink : sys.net.link = none) :
    Inv cfg { net := { sys.net with server := srv }, next := none } := by
  obtain ⟨⟨first', start', hledger⟩, hextends⟩ := h.next srv hnext
  obtain ⟨first, start, hinv⟩ := h.net
  refine ⟨⟨first', start', ?_⟩, by rintro _ ⟨⟩⟩
  exact {
    ledger := hledger
    link := fun link hsome => by
      rw [show sys.net.link = some link from hsome] at hlink
      cases hlink
    progress := fun link hsome => by
      rw [show sys.net.link = some link from hsome] at hlink
      cases hlink
    before := hinv.before
    after := fun r hr => by
      have hhistory := hinv.after r hr
      refine ⟨hhistory.ne_zero, hhistory.nextSequence, fun i m hm => ?_⟩
      obtain ⟨n, hn, hview⟩ := hinv.view_of_returned hkeeps.1 hr hm
      have hne : n ≠ 0 := by
        rintro rfl
        rw [UInt64.toNat_zero] at hn
        exact hhistory.ne_zero (Word64.eq_iff.mpr (by rw [UInt64.toNat_zero]; omega))
      exact ⟨n, hn, hledger.wasStored_of_view n m (hextends n m hne hview)⟩ }

theorem Inv.step {action : RestartAction} (h : sys.Inv cfg) (hkeeps : sys.KeepsLog)
    (hkeeps' : sys'.KeepsLog) (hstep : sys.step cfg rcfg startSequence action = some sys') :
    sys'.Inv cfg := by
  cases action with
  | net action => exact h.net_step hkeeps hstep
  | crash =>
      cases hstep
      exact h.crash startSequence
  | next action =>
      obtain ⟨srv, hnext, hmap⟩ := Option.bind_eq_some_iff.mp hstep
      obtain ⟨srv', hsrv, rfl⟩ := Option.map_eq_some_iff.mp hmap
      obtain ⟨⟨first, start, hledger⟩, hextends⟩ := h.next srv hnext
      have hmove := Server.step_move hsrv
      have hmax : latestSeq srv.store ≠ Word64.max := by
        have hrunning : latestSeq sys.running.store ≠ Word64.max := hkeeps.2.2
        rwa [running, hnext] at hrunning
      refine ⟨h.net, ?_⟩
      rintro _ ⟨⟩
      exact ⟨⟨first, start, hledger.move hmove⟩,
        hledger.extends hmove hmax hkeeps'.2.1 hextends⟩
  | moveOn =>
      simp only [Restarting.step] at hstep
      split at hstep
      next srv hnext hlink =>
        cases hstep
        exact h.moveOn hkeeps hnext hlink
      next => cases hstep

/-- What a client returns across restarts of the server is the log of the store that the running
server has, from the number of its first login on, in order and each message once. -/
theorem restarted_server_resumes_log (cfg : ServerConfig) (rcfg : ResilientSoupConfig) (first : σ)
    (startSequence : UInt64) (sys : Restarting σ)
    (hrun : Run (step cfg rcfg startSequence) KeepsLog (start rcfg first startSequence) sys) :
    (sys.net.firstAccepted = none → sys.net.messages = []) ∧
    ∀ r, sys.net.firstAccepted = some r → ∀ i m, sys.net.messages[i]? = some m →
      ∃ n : UInt64, n.toNat = r.toNat + i ∧ view sys.running.store n = some m := by
  have hinv : sys.Inv cfg := hrun.invariant (fun _ => inv_start cfg rcfg first startSequence)
    fun _ _ _ hkeeps h hstep hkeeps' => h.step hkeeps hkeeps' hstep
  obtain ⟨first', start', hnet⟩ := hinv.net
  refine ⟨fun hnone => (hnet.before hnone).1, fun r hr i m hm => ?_⟩
  obtain ⟨n, hn, hview⟩ := hnet.view_of_returned hrun.good.1 hr hm
  refine ⟨n, hn, ?_⟩
  unfold running
  cases hnext : sys.next with
  | none => exact hview
  | some srv =>
      refine (hinv.next srv hnext).2 n m ?_ hview
      rintro rfl
      rw [UInt64.toNat_zero] at hn
      exact (hnet.after r hr).ne_zero (Word64.eq_iff.mpr (by rw [UInt64.toNat_zero]; omega))

open Net (clientFor dial readRest)

/-- A message is stored while the client is connected, and the client reads it. -/
def readFirst : List NetAction :=
  dial ++ [.proceed, .proceed, .warmup, .proceed,
    .ingest (.store (emptyEvent .startOfMessages) false), .ingest .broadcast, .proceed,
    .download 64, .clientRead false, .clientRead false]

/-- The server stops when the second message is stored and not broadcast. -/
def storedThenCrash : List RestartAction :=
  readFirst.map .net ++
    [.net (.ingest (.store (emptyEvent .endOfMessages) false)), .crash, .net .clientReset,
      .moveOn] ++
    (dial ++ readRest).map .net

theorem restarted_server_resumes_log_storedThenCrash :
    ∃ sys : Restarting RingBufferSeqStore,
      Run (step openServer (clientFor 1) 1) KeepsLog
        (start (clientFor 1) (RingBufferSeqStore.withCapacity 4) 1) sys ∧
      sys.net.messages = [emptyEvent .startOfMessages, emptyEvent .endOfMessages] ∧
      ∀ r, sys.net.firstAccepted = some r → ∀ i m, sys.net.messages[i]? = some m →
        ∃ n : UInt64, n.toNat = r.toNat + i ∧ view sys.running.store n = some m := by
  have hexec : (exec (step openServer (clientFor 1) 1) KeepsLog
      (start (clientFor 1) (RingBufferSeqStore.withCapacity 4) 1) storedThenCrash).map
        (fun sys => sys.net.messages) =
      some [emptyEvent .startOfMessages, emptyEvent .endOfMessages] := by
    decide +kernel
  obtain ⟨sys, hrun, hmessages⟩ := exists_run_of_exec storedThenCrash
    (fun sys : Restarting RingBufferSeqStore => sys.net.messages) (by decide +kernel) hexec
  exact ⟨sys, hrun, hmessages, (restarted_server_resumes_log openServer (clientFor 1)
    (RingBufferSeqStore.withCapacity 4) 1 sys hrun).2⟩

end Restarting

end Itch
