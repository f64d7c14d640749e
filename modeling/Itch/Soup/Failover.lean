import Itch.Soup.Resilient

/-!
# Failing over between servers

The reconnecting client with its list of addresses.  The servers are the environment: a
connection attempt may fail, and what a socket yields is arbitrary.  The log records the
login requests that were sent, the logins that were confirmed and what the client has
returned, with the session named by the reply that opened the connection.
-/

namespace Itch

open Lib

variable {A : Type}

inductive FailoverEvent (A : Type) where
  /-- A login request was sent. -/
  | asked (addr : A) (request : LoginRequest)
  /-- A login succeeded on a reply that named the session. -/
  | confirmed (session : Text)
  /-- The client returned a result of a connection to the session. -/
  | returned (session : Text) (result : Except SoupError Message)
  /-- The client returned the error of its last attempt. -/
  | gaveUp (error : SoupError)
deriving Repr, DecidableEq

/-- A connection to a server. -/
inductive FailoverLink where
  /-- The request is sent and the reply is still to come. -/
  | handshake
  | connected (conn : SoupConnection)
deriving Repr, DecidableEq

structure Failover (A : Type) where
  client : ResilientSoupClient
  /-- Round-robin cursor into the addresses. -/
  nextAddr : Nat
  link : Option FailoverLink
  log : List (FailoverEvent A)
deriving Repr, DecidableEq

inductive FailoverAction where
  /-- The next address accepts the connection. -/
  | connect
  | connectFails
  | loginTimeout
  /-- The socket yields an item, or its end. -/
  | item (item : Option (Except SoupError SoupPacket))
deriving Repr, DecidableEq

namespace Failover

def start (cfg : ResilientSoupConfig) : Failover A where
  client := .new cfg
  nextAddr := 0
  link := none
  log := []

/-- The attempt to connect has failed. -/
def attemptFailed (cfg : ResilientSoupConfig) (s : Failover A) (e : SoupError) : Failover A :=
  let (client, last) := s.client.attemptFailed cfg e
  { s with
    client := client
    link := none
    log := s.log ++ (last.map .gaveUp).toList }

/-- The socket yields an item during the handshake. -/
def onReply (cfg : ResilientSoupConfig) (s : Failover A)
    (item : Option (Except SoupError SoupPacket)) : Failover A :=
  match SoupConnection.onReplyItem (cfg.requestedSession.getD []) item with
  | none => s
  | some (.error e) => s.attemptFailed cfg e
  | some (.ok conn) => { s with
      client := s.client.loggedIn conn
      link := some (.connected conn)
      log := s.log ++ [.confirmed conn.session] }

/-- The socket yields an item after the login. -/
def onItem (s : Failover A) (conn : SoupConnection)
    (item : Option (Except SoupError SoupPacket)) : Failover A :=
  match conn.pollNext item with
  | (none, conn) => { s with link := some (.connected conn) }
  | (some result, conn) =>
      let (client, keep) := s.client.onResult conn result
      { s with
        client := client
        link := if keep then some (.connected conn) else none
        log := s.log ++ (result.map (.returned conn.session)).toList }

/-- The address of the next attempt, which moves the cursor on. -/
def takeAddr (addrs : List A) (s : Failover A) : Option (A × Failover A) :=
  if s.link.isSome || s.client.terminated then none
  else addrs[s.nextAddr]?.map fun addr =>
    (addr, { s with nextAddr := (s.nextAddr + 1) % addrs.length })

def step (cfg : ResilientSoupConfig) (addrs : List A) (s : Failover A) :
    FailoverAction → Option (Failover A)
  | .connect => (s.takeAddr addrs).map fun (addr, s) => { s with
      link := some .handshake
      log := s.log ++ [.asked addr (s.client.request cfg)] }
  | .connectFails => (s.takeAddr addrs).map fun (_, s) => s.attemptFailed cfg .io
  | .loginTimeout =>
      match s.link with
      | some .handshake => some (s.attemptFailed cfg .loginTimeout)
      | _ => none
  | .item item =>
      match s.link with
      | some .handshake => some (s.onReply cfg item)
      | some (.connected conn) => some (s.onItem conn item)
      | none => none

end Failover

/-! ## One session across connections -/

/-- Session identifiers are compared without the white space around them, as the client and
the server compare them. -/
def SameSession (a b : Text) : Prop :=
  Text.trim a = Text.trim b

namespace FailoverEvent

/-- The event stays with the session. -/
def Keeps (session : Text) : FailoverEvent A → Prop
  | .asked _ request => SameSession request.requestedSession session
  | .returned other (.ok _) => SameSession other session
  | _ => True

end FailoverEvent

/-- Once a login has confirmed a session, the client asks for it and returns its messages
only. -/
def KeepsSession (log : List (FailoverEvent A)) : Prop :=
  ∀ before session after, log = before ++ .confirmed session :: after →
    ∀ event ∈ after, event.Keeps session

namespace Failover

variable {cfg : ResilientSoupConfig} {addrs : List A} {s s' : Failover A} {requested : Text}

/-- Every session named is the requested one. -/
def Names (requested : Text) : FailoverEvent A → Prop
  | .asked _ request => request.requestedSession = requested
  | .confirmed session => SameSession session requested
  | .returned session _ => SameSession session requested
  | .gaveUp _ => True

structure Pinned (requested : Text) (s : Failover A) : Prop where
  log : ∀ event ∈ s.log, Names requested event
  conn : ∀ conn, s.link = some (.connected conn) → SameSession conn.session requested

theorem Pinned.concat (h : Pinned requested s) {events : List (FailoverEvent A)}
    (hevents : ∀ event ∈ events, Names requested event) :
    ∀ event ∈ s.log ++ events, Names requested event := by
  intro event hevent
  rcases List.mem_append.mp hevent with hold | hnew
  · exact h.log event hold
  · exact hevents event hnew

/-- A login that names a session is confirmed for that session only. -/
theorem sameSession_of_onReply {p : SoupPacket} {conn : SoupConnection} (hne : requested ≠ [])
    (h : SoupConnection.onReply requested p = some (.ok conn)) :
    SameSession conn.session requested := by
  cases p with
  | loginAccepted acc =>
      rw [SoupConnection.onReply] at h
      split at h
      next => cases h
      next hsame =>
        cases h
        simpa [hne, SameSession] using hsame
  | _ => cases h

theorem session_pollNext (conn : SoupConnection) (item : Option (Except SoupError SoupPacket)) :
    (conn.pollNext item).2.session = conn.session := by
  unfold SoupConnection.pollNext
  split
  next => rfl
  next =>
    match item with
    | none | some (.error _) => rfl
    | some (.ok p) =>
        cases p with
        | sequencedData payload =>
            simp only [SoupConnection.onPacket, SoupConnection.deliverSequenced]
            split
            next => rfl
            next => rfl
        | _ => rfl

theorem Pinned.attemptFailed (h : Pinned requested s) (e : SoupError) :
    Pinned requested (s.attemptFailed cfg e) := by
  refine ⟨h.concat ?_, fun _ hconn => nomatch hconn⟩
  intro event hevent
  obtain ⟨e', -, rfl⟩ := Option.map_eq_some_iff.mp (Option.mem_toList.mp hevent)
  trivial

theorem Pinned.onReply (h : Pinned requested s) (hcfg : cfg.requestedSession.getD [] = requested)
    (hne : requested ≠ []) (item : Option (Except SoupError SoupPacket)) :
    Pinned requested (s.onReply cfg item) := by
  unfold Failover.onReply
  rw [hcfg]
  split
  next => exact h
  next e _ => exact h.attemptFailed e
  next conn hreply =>
    have hsame : SameSession conn.session requested := by
      match item, hreply with
      | some (.ok p), hreply => exact sameSession_of_onReply hne hreply
    refine ⟨h.concat ?_, ?_⟩
    · intro event hevent
      rw [List.mem_singleton.mp hevent]
      exact hsame
    · intro conn' hconn'
      cases hconn'
      exact hsame

theorem Pinned.onItem (h : Pinned requested s) {conn : SoupConnection}
    (hconn : s.link = some (.connected conn)) (item : Option (Except SoupError SoupPacket)) :
    Pinned requested (s.onItem conn item) := by
  have hsame : SameSession (conn.pollNext item).2.session requested := by
    rw [session_pollNext]
    exact h.conn conn hconn
  unfold Failover.onItem
  split
  next conn' hpoll =>
    rw [hpoll] at hsame
    refine ⟨h.log, fun conn'' hconn'' => ?_⟩
    cases hconn''
    exact hsame
  next result conn' hpoll =>
    rw [hpoll] at hsame
    refine ⟨h.concat ?_, ?_⟩
    · intro event hevent
      obtain ⟨r, -, rfl⟩ := Option.map_eq_some_iff.mp (Option.mem_toList.mp hevent)
      exact hsame
    · intro conn'' hconn''
      dsimp only at hconn''
      split at hconn''
      next =>
        cases hconn''
        exact hsame
      next => cases hconn''

theorem takeAddr_eq_some {addr : A} (h : s.takeAddr addrs = some (addr, s')) :
    s.link = none ∧ s' = { s with nextAddr := (s.nextAddr + 1) % addrs.length } := by
  unfold takeAddr at h
  split at h
  next => cases h
  next hfree =>
    obtain ⟨addr', -, heq⟩ := Option.map_eq_some_iff.mp h
    simp only [Bool.or_eq_true, not_or, Bool.not_eq_true, Option.isSome_eq_false_iff,
      Option.isNone_iff_eq_none] at hfree
    exact ⟨hfree.1, (congrArg Prod.snd heq).symm⟩

theorem Pinned.step (h : Pinned requested s) (hcfg : cfg.requestedSession.getD [] = requested)
    (hne : requested ≠ []) {action : FailoverAction} (hstep : s.step cfg addrs action = some s') :
    Pinned requested s' := by
  cases action with
  | connect =>
      obtain ⟨⟨addr, t⟩, ht, rfl⟩ := Option.map_eq_some_iff.mp hstep
      obtain ⟨-, rfl⟩ := takeAddr_eq_some ht
      refine ⟨h.concat fun event hevent => ?_, fun _ hconn => nomatch hconn⟩
      rw [List.mem_singleton.mp hevent]
      exact hcfg
  | connectFails =>
      obtain ⟨⟨addr, t⟩, ht, rfl⟩ := Option.map_eq_some_iff.mp hstep
      obtain ⟨-, rfl⟩ := takeAddr_eq_some ht
      have hmoved : Pinned requested { s with nextAddr := (s.nextAddr + 1) % addrs.length } :=
        ⟨h.log, h.conn⟩
      exact hmoved.attemptFailed .io
  | loginTimeout =>
      rw [Failover.step] at hstep
      split at hstep
      next =>
        cases hstep
        exact h.attemptFailed .loginTimeout
      next => cases hstep
  | item item =>
      rw [Failover.step] at hstep
      split at hstep
      next =>
        cases hstep
        exact h.onReply hcfg hne item
      next conn hconn =>
        cases hstep
        exact h.onItem hconn item
      next => cases hstep

theorem Pinned.keepsSession (h : Pinned requested s) : KeepsSession s.log := by
  intro before session after hlog event hevent
  have hsession : SameSession session requested := by
    refine h.log (.confirmed session) ?_
    rw [hlog]
    exact List.mem_append_right _ List.mem_cons_self
  have hnames := h.log event (by
    rw [hlog]
    exact List.mem_append_right _ (List.mem_cons_of_mem _ hevent))
  cases event with
  | asked addr request => exact (congrArg Text.trim hnames).trans hsession.symm
  | confirmed session' => trivial
  | returned session' result =>
      cases result with
      | ok msg => exact hnames.trans hsession.symm
      | error e => trivial
  | gaveUp e => trivial

/-! ## A client that does not name a session -/

theorem step_connect {addr : A} (hlink : s.link = none) (hopen : s.client.terminated = false)
    (haddr : addrs[s.nextAddr]? = some addr) :
    s.step cfg addrs .connect = some { s with
      nextAddr := (s.nextAddr + 1) % addrs.length
      link := some .handshake
      log := s.log ++ [.asked addr (s.client.request cfg)] } := by
  simp [step, takeAddr, hlink, hopen, haddr]

/-- Any session will do for a client that names none. -/
theorem step_accepted (hcfg : cfg.requestedSession.getD [] = [])
    (hlink : s.link = some .handshake) (acc : LoginAccepted) :
    s.step cfg addrs (.item (some (.ok (.loginAccepted acc)))) =
      let conn : SoupConnection :=
        { session := acc.session, expectedSequence := acc.sequence, sessionEnded := false }
      some { s with
        client := s.client.loggedIn conn
        link := some (.connected conn)
        log := s.log ++ [.confirmed acc.session] } := by
  simp [step, hlink, Failover.onReply, hcfg, SoupConnection.onReplyItem, SoupConnection.onReply]

theorem step_peerCloses {conn : SoupConnection} (hlink : s.link = some (.connected conn))
    (hopen : conn.sessionEnded = false) :
    s.step cfg addrs (.item none) = some { s with
      client := { s.client with nextSequence := conn.nextExpectedSequence }
      link := none } := by
  simp [step, hlink, Failover.onItem, SoupConnection.pollNext, hopen, ResilientSoupClient.onResult]

/-- A client that names no session is confirmed for one, loses its connection and asks for
any session again. -/
theorem exists_run_reconnect (haddrs : addrs ≠ []) (hcfg : cfg.requestedSession.getD [] = [])
    (acc : LoginAccepted) :
    ∃ s : Failover A, Run (step cfg addrs) (fun _ => True) (start cfg) s ∧
      ∃ first second request again, again.requestedSession = [] ∧
        s.log = [.asked first request, .confirmed acc.session, .asked second again] := by
  have hlen := List.length_pos_iff.mpr haddrs
  have hfirst : addrs[0]? = some addrs[0] := List.getElem?_eq_getElem hlen
  have hlt : (0 + 1) % addrs.length < addrs.length := Nat.mod_lt _ hlen
  have hsecond := List.getElem?_eq_getElem hlt
  have hrun : Run (step cfg addrs) (fun _ => True) (start cfg) (start cfg) := .start trivial
  have hconnected := hrun.step (step_connect rfl rfl hfirst) trivial
  have hconfirmed := hconnected.step (step_accepted hcfg rfl acc) trivial
  have hclosed := hconfirmed.step (step_peerCloses rfl rfl) trivial
  have hagain := hclosed.step (step_connect rfl rfl hsecond) trivial
  exact ⟨_, hagain, _, _, _, _, hcfg, rfl⟩

/-- The client stays with the session of its first login, whatever the servers do, exactly
if it is configured to ask for a session. -/
theorem keepsSession_iff (cfg : ResilientSoupConfig) (addrs : List A) (haddrs : addrs ≠ []) :
    (∀ s, Run (step cfg addrs) (fun _ => True) (start cfg) s → KeepsSession s.log) ↔
      ∃ session, cfg.requestedSession = some session ∧ session ≠ [] := by
  constructor
  · intro hkeeps
    by_contra hnone
    have hcfg : cfg.requestedSession.getD [] = [] := by
      cases hsession : cfg.requestedSession with
      | none => rfl
      | some session =>
          by_contra hne
          exact hnone ⟨session, hsession, hne⟩
    obtain ⟨s, hrun, first, second, request, again, hagain, hlog⟩ :=
      exists_run_reconnect haddrs hcfg { session := [0x41], sequence := 1 }
    have hkept := hkeeps s hrun [.asked first request] [0x41] [.asked second again] hlog
      (.asked second again) List.mem_cons_self
    rw [FailoverEvent.Keeps, hagain, SameSession] at hkept
    exact absurd hkept (by decide)
  · rintro ⟨session, hsession, hne⟩ s hrun
    have hcfg : cfg.requestedSession.getD [] = session := by rw [hsession]; rfl
    have hpinned : Pinned session s := by
      refine hrun.invariant (fun _ => ⟨fun _ h => absurd h List.not_mem_nil, fun _ h => nomatch h⟩) ?_
      intro s action s' _ hinv hstep _
      exact hinv.step hcfg hne hstep
    exact hpinned.keepsSession

/-- A client that asks for session `A`, with one address. -/
theorem keepsSession_iff_named :
    let cfg : ResilientSoupConfig :=
      { username := [], password := [], requestedSession := some [0x41], initialSequence := 1
        maxAttempts := none }
    (∀ s, Run (step cfg [0]) (fun _ => True) (start cfg) s → KeepsSession s.log) ↔
      ∃ session, cfg.requestedSession = some session ∧ session ≠ [] := by
  intro cfg
  exact keepsSession_iff cfg [0] (List.cons_ne_nil 0 [])

/-- A client with the default configuration is confirmed for session `A` by the first
server, asks the second one for any session and returns a message of session `B`. -/
theorem returns_other_session :
    ∃ cfg s, cfg.requestedSession = none ∧
      Run (step cfg [0, 1]) (fun _ => True) (start cfg) s ∧ ¬ KeepsSession s.log ∧
      .confirmed [0x41] ∈ s.log ∧
      .returned [0x42] (.ok (emptyEvent .startOfMessages)) ∈ s.log := by
  let cfg : ResilientSoupConfig :=
    { username := [], password := [], requestedSession := none, initialSequence := 0
      maxAttempts := none }
  have hexec : (exec (step cfg [0, 1]) (fun _ => True) (start cfg)
      [.connect, .item (some (.ok (.loginAccepted { session := [0x41], sequence := 1 }))),
        .item none,
        .connect, .item (some (.ok (.loginAccepted { session := [0x42], sequence := 1 }))),
        .item (some (.ok (dataPacket (emptyEvent .startOfMessages))))]).map Failover.log =
      some [.asked 0 { username := [], password := [], requestedSession := []
                       requestedSequence := 0 },
        .confirmed [0x41],
        .asked 1 { username := [], password := [], requestedSession := [], requestedSequence := 1 },
        .confirmed [0x42],
        .returned [0x42] (.ok (emptyEvent .startOfMessages))] := by
    decide +kernel
  obtain ⟨s, hs, hlog⟩ := Option.map_eq_some_iff.mp hexec
  have hrun := (Run.start trivial).exec hs
  refine ⟨cfg, s, rfl, hrun, ?_, ?_, ?_⟩
  · intro hkeeps
    have hkept : Text.trim [] = Text.trim [0x41] :=
      hkeeps [_] [0x41] (_ :: _) hlog _ List.mem_cons_self
    exact absurd hkept (by decide)
  · rw [hlog]
    exact List.mem_cons_of_mem _ List.mem_cons_self
  · rw [hlog]
    simp

end Failover

end Itch
