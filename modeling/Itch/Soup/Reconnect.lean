import Itch.Soup.Resilient

/-!
# The reconnect loop

The calls of `next_message` on a reconnecting client, one after the other, each with its
attempts to connect and its reads.  The environment is free: an attempt may fail at any stage
and with any error, and a read may return anything and leave the connection anywhere.  The log
records every attempt with the number it asks for, every read with the number the connection
expects after it, and what each call returned.

The properties are read off the log.  What holds of the next event is settled by the events
before it, so each is an invariant that ties the state of the client to its log.
-/

namespace Itch

open Lib

variable {A : Type}

inductive ReconnectEvent (A : Type) where
  /-- An attempt, with the number it asks for and the connection or the error it ends with. -/
  | attempt (addr : A) (sequence : UInt64) (result : Except SoupError SoupConnection)
  /-- A read, with the number the connection expects after it. -/
  | read (result : Option (Except SoupError Message)) (expected : UInt64)
  | returned (result : Option (Except SoupError Message))

/-- How an attempt goes. -/
inductive ConnectOutcome where
  | connectFails
  | loginFails (error : SoupError)
  | loggedIn (conn : SoupConnection)

inductive ReconnectAction where
  /-- `next_message` is called. -/
  | call
  | attempt (outcome : ConnectOutcome)
  /-- A read returns, with the connection after it. -/
  | read (result : Option (Except SoupError Message)) (conn : SoupConnection)

structure Reconnect (A : Type) where
  client : ResilientSoupClient
  /-- Round-robin cursor into the addresses. -/
  nextAddr : Nat
  conn : Option SoupConnection
  /-- A call has not returned yet. -/
  calling : Bool
  log : List (ReconnectEvent A)

namespace Reconnect

def start (cfg : ResilientSoupConfig) : Reconnect A where
  client := .new cfg
  nextAddr := 0
  conn := none
  calling := false
  log := []

/-- The call returns. -/
def return_ (s : Reconnect A) (result : Option (Except SoupError Message)) : Reconnect A :=
  { s with calling := false, log := s.log ++ [.returned result] }

/-- Attempt one connection and login. -/
def tryConnectOnce (addrs : List A) (s : Reconnect A) (outcome : ConnectOutcome) :
    Option (Except SoupError SoupConnection × Reconnect A) :=
  addrs[s.nextAddr]?.map fun addr =>
    let s := { s with nextAddr := (s.nextAddr + 1) % addrs.length }
    let ended (result : Except SoupError SoupConnection) (s : Reconnect A) :=
      (result, { s with log := s.log ++ [.attempt addr s.client.nextSequence result] })
    match outcome with
    | .connectFails => ended (.error .io) s
    | .loginFails e => ended (.error e) s
    | .loggedIn conn =>
        let (result, s) := ended (.ok conn) s
        (result, { s with client := s.client.loggedIn conn })

/-- A turn of the retry loop.  The loop ends with a connection or with an error, which ends
the call. -/
def tryConnect (cfg : ResilientSoupConfig) (addrs : List A) (s : Reconnect A)
    (outcome : ConnectOutcome) : Option (Reconnect A) :=
  (s.tryConnectOnce addrs outcome).map fun
    | (.ok conn, s) => { s with conn := some conn }
    | (.error e, s) =>
        match s.client.attemptFailed cfg e with
        | (client, some e) => { s with client := client }.return_ (some (.error e))
        | (client, none) => { s with client := client }

/-- What a read of the connection leads to.  At the end of the stream the call goes on. -/
def onRead (s : Reconnect A) (result : Option (Except SoupError Message)) (conn : SoupConnection) :
    Reconnect A :=
  let (client, keep) := s.client.onResult conn result
  let s := { s with
    client := client
    conn := if keep then some conn else none
    log := s.log ++ [.read result conn.nextExpectedSequence] }
  match result with
  | some r => s.return_ (some r)
  | none => s

def step (cfg : ResilientSoupConfig) (addrs : List A) (s : Reconnect A) :
    ReconnectAction → Option (Reconnect A)
  | .call =>
      if s.calling then none
      else if s.client.terminated then some (s.return_ none)
      else some { s with calling := true }
  | .attempt outcome =>
      if s.calling && s.conn.isNone then s.tryConnect cfg addrs outcome else none
  | .read result conn =>
      if s.calling && s.conn.isSome then some (s.onRead result conn) else none

end Reconnect

/-! ## Reading the log -/

namespace ReconnectEvent

/-- The addresses of the attempts, in order. -/
def attempted (log : List (ReconnectEvent A)) : List A :=
  log.filterMap fun
    | .attempt addr _ _ => some addr
    | _ => none

def expectedAfter (seq : UInt64) : ReconnectEvent A → UInt64
  | .attempt _ _ (.ok conn) => conn.nextExpectedSequence
  | .read _ expected => expected
  | _ => seq

/-- The number the last connection expects, an initial one if there was none. -/
def expected (initial : UInt64) (log : List (ReconnectEvent A)) : UInt64 :=
  log.foldl expectedAfter initial

def failuresAfter (n : Nat) : ReconnectEvent A → Nat
  | .attempt _ _ (.error _) => n + 1
  | .attempt _ _ (.ok _) => 0
  | _ => n

/-- The attempts that failed since the last login. -/
def failures (log : List (ReconnectEvent A)) : Nat :=
  log.foldl failuresAfter 0

def protocolErrorAfter (b : Bool) : ReconnectEvent A → Bool
  | .read (some (.error (.protocol _))) _ => true
  | .read _ _ | .attempt _ _ _ => false
  | .returned _ => b

/-- The client has last read a frame that is not a message. -/
def atProtocolError (log : List (ReconnectEvent A)) : Bool :=
  log.foldl protocolErrorAfter false

section Concat

variable {log : List (ReconnectEvent A)} {event : ReconnectEvent A}

theorem attempted_attempt {addr : A} {sequence : UInt64}
    {result : Except SoupError SoupConnection} :
    attempted (log ++ [.attempt addr sequence result]) = attempted log ++ [addr] :=
  List.filterMap_append ..

theorem attempted_read {result : Option (Except SoupError Message)} {next : UInt64} :
    attempted (log ++ [.read result next]) = attempted log :=
  (List.filterMap_append ..).trans (List.append_nil _)

theorem attempted_returned {result : Option (Except SoupError Message)} :
    attempted (log ++ [.returned result]) = attempted log :=
  (List.filterMap_append ..).trans (List.append_nil _)

theorem expected_concat {initial : UInt64} :
    expected initial (log ++ [event]) = expectedAfter (expected initial log) event :=
  List.foldl_concat ..

theorem failures_concat : failures (log ++ [event]) = failuresAfter (failures log) event :=
  List.foldl_concat ..

theorem atProtocolError_concat :
    atProtocolError (log ++ [event]) = protocolErrorAfter (atProtocolError log) event :=
  List.foldl_concat ..

end Concat

/-- The errors no new attempt can mend. -/
def Fatal (e : SoupError) : Prop :=
  (∃ reason, e = .loginRejected reason) ∨ ∃ requested got, e = .sessionMismatch requested got

/-- An attempt or a read that fails for good. -/
def FailsWith (e : SoupError) : ReconnectEvent A → Prop
  | .attempt _ _ (.error e') => e' = e
  | .read (some (.error e')) _ => e' = e
  | _ => False

end ReconnectEvent

namespace Reconnect

open ReconnectEvent

variable {cfg : ResilientSoupConfig} {addrs : List A} {s s' : Reconnect A}

theorem isFatal_iff {e : SoupError} : ResilientSoupClient.isFatal e = true ↔ Fatal e := by
  cases e with
  | loginRejected reason => cases reason <;> simp [ResilientSoupClient.isFatal, Fatal]
  | _ => simp [ResilientSoupClient.isFatal, Fatal]

/-- The failed attempt uses up the attempts. -/
def Exhausts (cfg : ResilientSoupConfig) (c : ResilientSoupClient) : Prop :=
  ∃ max, cfg.maxAttempts = some max ∧ max ≤ min (c.attempt + 1) (2 ^ 32 - 1)

/-- What a step does. -/
inductive Moves (cfg : ResilientSoupConfig) (addrs : List A) (s : Reconnect A) :
    Reconnect A → Prop where
  | answered : s.calling = false → s.client.terminated = true → Moves cfg addrs s (s.return_ none)
  | called : s.calling = false → s.client.terminated = false →
      Moves cfg addrs s { s with calling := true }
  | loggedIn {addr : A} {conn : SoupConnection} :
      s.calling = true → s.conn = none → addrs[s.nextAddr]? = some addr →
      Moves cfg addrs s { s with
        nextAddr := (s.nextAddr + 1) % addrs.length
        client := s.client.loggedIn conn
        conn := some conn
        log := s.log ++ [.attempt addr s.client.nextSequence (.ok conn)] }
  | retries {addr : A} {e : SoupError} :
      s.calling = true → s.conn = none → addrs[s.nextAddr]? = some addr →
      ¬ Fatal e → ¬ Exhausts cfg s.client →
      Moves cfg addrs s { s with
        nextAddr := (s.nextAddr + 1) % addrs.length
        client := { s.client with
          attempt := min (s.client.attempt + 1) (2 ^ 32 - 1), terminated := false }
        log := s.log ++ [.attempt addr s.client.nextSequence (.error e)] }
  | gaveUp {addr : A} {e : SoupError} :
      s.calling = true → s.conn = none → addrs[s.nextAddr]? = some addr →
      Fatal e ∨ Exhausts cfg s.client →
      Moves cfg addrs s { s with
        nextAddr := (s.nextAddr + 1) % addrs.length
        client := { s.client with
          attempt := min (s.client.attempt + 1) (2 ^ 32 - 1), terminated := true }
        calling := false
        log := s.log ++ [.attempt addr s.client.nextSequence (.error e)]
          ++ [.returned (some (.error e))] }
  /-- The connection was closed; the call goes on. -/
  | closed {conn : SoupConnection} : s.calling = true → s.conn.isSome →
      Moves cfg addrs s { s with
        client := { s.client with nextSequence := conn.nextExpectedSequence }
        conn := none
        log := s.log ++ [.read none conn.nextExpectedSequence] }
  | returns {r : Except SoupError Message} {conn : SoupConnection} (kept : Option SoupConnection) :
      s.calling = true → s.conn.isSome → (∀ e, r = .error e → ¬ Fatal e) →
      (∀ e, r = .error (.protocol e) → kept = some conn) →
      Moves cfg addrs s { s with
        client := { s.client with nextSequence := conn.nextExpectedSequence }
        conn := kept
        calling := false
        log := s.log ++ [.read (some r) conn.nextExpectedSequence] ++ [.returned (some r)] }
  | fails {e : SoupError} {conn : SoupConnection} :
      s.calling = true → s.conn.isSome → Fatal e →
      Moves cfg addrs s { s with
        client := { s.client with nextSequence := conn.nextExpectedSequence, terminated := true }
        conn := none
        calling := false
        log := s.log ++ [.read (some (.error e)) conn.nextExpectedSequence]
          ++ [.returned (some (.error e))] }

theorem attemptFailed_cases (cfg : ResilientSoupConfig) (c : ResilientSoupClient) (e : SoupError) :
    let attempt := min (c.attempt + 1) (2 ^ 32 - 1)
    (¬ Fatal e ∧ ¬ Exhausts cfg c ∧
      c.attemptFailed cfg e = ({ c with attempt := attempt, terminated := false }, none)) ∨
    ((Fatal e ∨ Exhausts cfg c) ∧
      c.attemptFailed cfg e = ({ c with attempt := attempt, terminated := true }, some e)) := by
  intro attempt
  have hlast : (ResilientSoupClient.isFatal e || cfg.maxAttempts.any (attempt ≥ ·)) = true ↔
      Fatal e ∨ Exhausts cfg c := by
    rw [Bool.or_eq_true, isFatal_iff, Option.any_eq_true]
    simp [Exhausts, attempt]
  by_cases h : Fatal e ∨ Exhausts cfg c
  · refine .inr ⟨h, ?_⟩
    rw [ResilientSoupClient.attemptFailed, hlast.mpr h]
    rfl
  · refine .inl ⟨fun hfatal => h (.inl hfatal), fun hexhausts => h (.inr hexhausts), ?_⟩
    rw [ResilientSoupClient.attemptFailed, Bool.eq_false_iff.mpr (mt hlast.mp h)]
    rfl

theorem tryConnect_moves {outcome : ConnectOutcome} (hcalling : s.calling = true)
    (hconn : s.conn = none) (h : s.tryConnect cfg addrs outcome = some s') :
    Moves cfg addrs s s' := by
  obtain ⟨⟨result, t⟩, honce, heq⟩ := Option.map_eq_some_iff.mp h
  obtain ⟨addr, haddr, hresult⟩ := Option.map_eq_some_iff.mp honce
  -- a failed connection and a failed login lead to the same
  have hfails (e : SoupError)
      (ht : (result, t) = (.error e, { s with
        nextAddr := (s.nextAddr + 1) % addrs.length
        log := s.log ++ [.attempt addr s.client.nextSequence (.error e)] })) :
      Moves cfg addrs s s' := by
    cases ht
    dsimp only at heq
    rcases attemptFailed_cases cfg s.client e with ⟨hfatal, hexhausts, hfailed⟩ | ⟨hlast, hfailed⟩
    · rw [hfailed] at heq
      rw [← heq]
      exact .retries hcalling hconn haddr hfatal hexhausts
    · rw [hfailed] at heq
      rw [← heq]
      exact .gaveUp hcalling hconn haddr hlast
  cases outcome with
  | connectFails => exact hfails .io hresult.symm
  | loginFails e => exact hfails e hresult.symm
  | loggedIn conn =>
      cases hresult
      rw [← heq]
      exact .loggedIn hcalling hconn haddr

theorem onRead_moves (hcalling : s.calling = true) (hconn : s.conn.isSome)
    (result : Option (Except SoupError Message)) (conn : SoupConnection) :
    Moves cfg addrs s (s.onRead result conn) := by
  match result with
  | none => exact .closed hcalling hconn
  | some (.ok msg) => exact .returns (some conn) hcalling hconn nofun nofun
  | some (.error e) =>
      by_cases hfatal : Fatal e
      · have honResult : s.client.onResult conn (some (.error e)) =
            ({ s.client with
              nextSequence := conn.nextExpectedSequence, terminated := true }, false) := by
          rcases hfatal with ⟨reason, rfl⟩ | ⟨requested, got, rfl⟩
          · cases reason <;> rfl
          · rfl
        rw [onRead, honResult]
        exact .fails hcalling hconn hfatal
      · have hnot : ResilientSoupClient.isFatal e = false :=
          Bool.eq_false_iff.mpr (mt isFatal_iff.mp hfatal)
        have hnotFatal : ∀ e', (.error e : Except SoupError Message) = .error e' → ¬ Fatal e' := by
          rintro e' ⟨⟩
          exact hfatal
        cases e with
        | protocol e => exact .returns (some conn) hcalling hconn hnotFatal fun _ _ => rfl
        | _ =>
          rw [onRead, ResilientSoupClient.onResult, hnot]
          · exact .returns none hcalling hconn hnotFatal nofun
          · exact nofun

theorem step_moves {action : ReconnectAction} (h : s.step cfg addrs action = some s') :
    Moves cfg addrs s s' := by
  cases action with
  | call =>
      rw [step] at h
      split at h
      next => cases h
      next hcalling =>
        rw [Bool.not_eq_true] at hcalling
        split at h
        next hterminated =>
          cases h
          exact .answered hcalling hterminated
        next hterminated =>
          cases h
          exact .called hcalling (Bool.not_eq_true _ ▸ hterminated)
  | attempt outcome =>
      rw [step] at h
      split at h
      next hfree =>
        rw [Bool.and_eq_true, Option.isNone_iff_eq_none] at hfree
        exact tryConnect_moves hfree.1 hfree.2 h
      next => cases h
  | read result conn =>
      rw [step] at h
      split at h
      next hlive =>
        rw [Bool.and_eq_true] at hlive
        cases h
        exact onRead_moves hlive.1 hlive.2 result conn
      next => cases h

/-! ## Invariants -/

/-- A call goes on only while the client is not terminated. -/
def Alive (s : Reconnect A) : Prop :=
  s.calling = true → s.client.terminated = false

theorem Alive.moves (h : s.Alive) (hmoves : Moves cfg addrs s s') : s'.Alive := by
  cases hmoves with
  | answered => exact nofun
  | called _ hterminated => exact fun _ => hterminated
  | loggedIn hcalling => exact fun _ => h hcalling
  | retries => exact fun _ => rfl
  | gaveUp => exact nofun
  | closed hcalling => exact fun _ => h hcalling
  | returns => exact nofun
  | fails => exact nofun

/-- The attempts go through the addresses in turn. -/
structure RoundRobin (addrs : List A) (s : Reconnect A) : Prop where
  cursor : s.nextAddr = (attempted s.log).length % addrs.length
  addr : ∀ k addr, (attempted s.log)[k]? = some addr → addrs[k % addrs.length]? = some addr

theorem RoundRobin.congr (h : RoundRobin addrs s) (hcursor : s'.nextAddr = s.nextAddr)
    (hsame : attempted s'.log = attempted s.log) : RoundRobin addrs s' := by
  refine ⟨?_, ?_⟩
  · rw [hcursor, hsame]
    exact h.cursor
  · rw [hsame]
    exact h.addr

theorem RoundRobin.attempt (h : RoundRobin addrs s) {addr : A}
    (haddr : addrs[s.nextAddr]? = some addr)
    (hcursor : s'.nextAddr = (s.nextAddr + 1) % addrs.length)
    (hnew : attempted s'.log = attempted s.log ++ [addr]) : RoundRobin addrs s' := by
  refine ⟨?_, fun k other hk => ?_⟩
  · rw [hcursor, hnew, h.cursor, List.length_append, List.length_singleton, Nat.mod_add_mod]
  · rw [hnew, List.getElem?_append] at hk
    split at hk
    next => exact h.addr k other hk
    next hge =>
      rw [List.getElem?_singleton] at hk
      split at hk
      next hzero =>
        cases hk
        have hk : k = (attempted s.log).length := by omega
        rw [hk, ← h.cursor]
        exact haddr
      next => cases hk

theorem RoundRobin.moves (h : RoundRobin addrs s) (hmoves : Moves cfg addrs s s') :
    RoundRobin addrs s' := by
  cases hmoves with
  | answered => exact h.congr rfl attempted_returned
  | called => exact h.congr rfl rfl
  | loggedIn _ _ haddr => exact h.attempt haddr rfl attempted_attempt
  | retries _ _ haddr => exact h.attempt haddr rfl attempted_attempt
  | gaveUp _ _ haddr =>
      exact h.attempt haddr rfl (attempted_returned.trans attempted_attempt)
  | closed => exact h.congr rfl attempted_read
  | returns => exact h.congr rfl (attempted_returned.trans attempted_read)
  | fails => exact h.congr rfl (attempted_returned.trans attempted_read)

/-- An attempt asks for the number that the last connection expected. -/
def Asks (initial : UInt64) (before : List (ReconnectEvent A)) : ReconnectEvent A → Prop
  | .attempt _ sequence _ => sequence = expected initial before
  | _ => True

structure Resumes (initial : UInt64) (s : Reconnect A) : Prop where
  next : s.client.nextSequence = expected initial s.log
  asks : AtEach (Asks initial) s.log

theorem Resumes.moves {initial : UInt64} (h : Resumes initial s) (hmoves : Moves cfg addrs s s') :
    Resumes initial s' := by
  have hnext := h.next
  cases hmoves with
  | answered => exact ⟨by simp [return_, expected_concat, expectedAfter, hnext], h.asks.concat trivial⟩
  | called => exact ⟨hnext, h.asks⟩
  | loggedIn =>
      exact ⟨by simp [expected_concat, expectedAfter, ResilientSoupClient.loggedIn],
        h.asks.concat hnext⟩
  | retries => exact ⟨by simp [expected_concat, expectedAfter, hnext], h.asks.concat hnext⟩
  | gaveUp =>
      refine ⟨by simp only [expected_concat, expectedAfter, hnext], .concat (.concat h.asks ?_) ?_⟩
      · exact hnext
      · trivial
  | closed => exact ⟨by simp [expected_concat, expectedAfter], h.asks.concat trivial⟩
  | returns =>
      refine ⟨by simp only [expected_concat, expectedAfter], .concat (.concat h.asks ?_) ?_⟩
      · trivial
      · trivial
  | fails =>
      refine ⟨by simp only [expected_concat, expectedAfter], .concat (.concat h.asks ?_) ?_⟩
      · trivial
      · trivial

/-- The failed attempts since the last login are counted, and few. -/
structure Budget (cfg : ResilientSoupConfig) (s : Reconnect A) : Prop where
  attempt : s.client.attempt = min (failures s.log) (2 ^ 32 - 1)
  le : ∀ m ∈ cfg.maxAttempts, failures s.log ≤ max 1 m
  lt : ∀ m ∈ cfg.maxAttempts, s.client.terminated = false → failures s.log < max 1 m

theorem Budget.congr (h : Budget cfg s) (hattempt : s'.client.attempt = s.client.attempt)
    (hsame : failures s'.log = failures s.log)
    (hterminated : s'.client.terminated = false → s.client.terminated = false) :
    Budget cfg s' := by
  refine ⟨?_, ?_, ?_⟩
  · rw [hattempt, hsame]
    exact h.attempt
  · rw [hsame]
    exact h.le
  · rw [hsame]
    exact fun m hm hopen => h.lt m hm (hterminated hopen)

theorem Budget.moves (hcfg : ∀ m ∈ cfg.maxAttempts, m < 2 ^ 32) (halive : s.Alive)
    (h : Budget cfg s) (hmoves : Moves cfg addrs s s') : Budget cfg s' := by
  cases hmoves with
  | answered _ hterminated => exact h.congr rfl (by simp [return_, failures_concat, failuresAfter]) id
  | called => exact h.congr rfl rfl id
  | loggedIn =>
      refine ⟨by simp [failures_concat, failuresAfter, ResilientSoupClient.loggedIn], ?_, ?_⟩
      · intro m _
        simp [failures_concat, failuresAfter]
      · intro m _ _
        simp [failures_concat, failuresAfter]
  | retries hcalling _ _ _ hexhausts =>
      have hattempt := h.attempt
      have hfailures (addr : A) (seq : UInt64) (e : SoupError) :
          failures (s.log ++ [.attempt addr seq (.error e)]) = failures s.log + 1 := failures_concat
      have hlt : ∀ m ∈ cfg.maxAttempts, failures s.log + 1 < max 1 m := by
        intro m hm
        have hmax := hcfg m hm
        have hroom : ¬ m ≤ min (s.client.attempt + 1) (2 ^ 32 - 1) :=
          fun hle => hexhausts ⟨m, hm, hle⟩
        omega
      refine ⟨?_, fun m hm => ?_, fun m hm _ => ?_⟩
      · dsimp only
        rw [hfailures]
        omega
      · dsimp only
        rw [hfailures]
        exact (hlt m hm).le
      · dsimp only
        rw [hfailures]
        exact hlt m hm
  | gaveUp hcalling =>
      have hattempt := h.attempt
      have hfailures (addr : A) (seq : UInt64) (e : SoupError)
          (result : Option (Except SoupError Message)) :
          failures (s.log ++ [.attempt addr seq (.error e)] ++ [.returned result]) =
            failures s.log + 1 := by
        rw [failures_concat, failures_concat]
        rfl
      refine ⟨?_, fun m hm => ?_, nofun⟩
      · dsimp only
        rw [hfailures]
        omega
      · dsimp only
        rw [hfailures]
        exact h.lt m hm (halive hcalling)
  | closed => exact h.congr rfl (by simp [failures_concat, failuresAfter]) id
  | returns => exact h.congr rfl (by simp only [failures_concat, failuresAfter]) id
  | fails => exact h.congr rfl (by simp only [failures_concat, failuresAfter]) nofun

/-- An attempt is not made because of a frame that is not a message. -/
def Unprovoked (before : List (ReconnectEvent A)) : ReconnectEvent A → Prop
  | .attempt _ _ _ => atProtocolError before = false
  | _ => True

theorem eq_of_protocolErrorAfter_read {b : Bool} {r : Except SoupError Message} {next : UInt64}
    (h : protocolErrorAfter (A := A) b (.read (some r) next) = true) :
    ∃ e, r = .error (.protocol e) := by
  match r with
  | .ok _ => cases h
  | .error e =>
      cases e with
      | protocol e => exact ⟨e, rfl⟩
      | _ => cases h

/-- After a frame that is not a message the connection is kept. -/
structure KeepsConnection (s : Reconnect A) : Prop where
  conn : atProtocolError s.log = true → s.conn.isSome
  unprovoked : AtEach Unprovoked s.log

theorem KeepsConnection.moves (h : KeepsConnection s) (hmoves : Moves cfg addrs s s') :
    KeepsConnection s' := by
  have hidle (hconn : s.conn = none) : atProtocolError s.log = false := by
    rw [← Bool.not_eq_true]
    intro hlast
    have hsome := h.conn hlast
    rw [hconn] at hsome
    cases hsome
  cases hmoves with
  | answered =>
      refine ⟨fun hlast => h.conn ?_, h.unprovoked.concat trivial⟩
      rw [return_, atProtocolError_concat] at hlast
      exact hlast
  | called => exact ⟨h.conn, h.unprovoked⟩
  | loggedIn _ hconn => exact ⟨fun _ => rfl, h.unprovoked.concat (hidle hconn)⟩
  | retries _ hconn =>
      refine ⟨fun hlast => ?_, h.unprovoked.concat (hidle hconn)⟩
      rw [atProtocolError_concat] at hlast
      cases hlast
  | gaveUp _ hconn =>
      refine ⟨fun hlast => ?_, .concat (.concat h.unprovoked ?_) ?_⟩
      · rw [atProtocolError_concat, atProtocolError_concat] at hlast
        cases hlast
      · exact hidle hconn
      · trivial
  | closed =>
      refine ⟨fun hlast => ?_, h.unprovoked.concat trivial⟩
      rw [atProtocolError_concat] at hlast
      cases hlast
  | @returns r conn kept _ _ _ hkept =>
      refine ⟨fun hlast => ?_, .concat (.concat h.unprovoked ?_) ?_⟩
      · rw [atProtocolError_concat, atProtocolError_concat] at hlast
        obtain ⟨e, rfl⟩ := eq_of_protocolErrorAfter_read hlast
        rw [hkept e rfl]
        rfl
      · trivial
      · trivial
  | @fails e conn _ _ hfatal =>
      refine ⟨fun hlast => ?_, .concat (.concat h.unprovoked ?_) ?_⟩
      · rw [atProtocolError_concat, atProtocolError_concat] at hlast
        rcases hfatal with ⟨reason, rfl⟩ | ⟨requested, got, rfl⟩
        · cases hlast
        · cases hlast
      · trivial
      · trivial

/-- A failure that no new attempt can mend. -/
def FailsForGood (event : ReconnectEvent A) : Prop :=
  ∃ e, event.FailsWith e ∧ Fatal e

/-- Without such a failure. -/
def Mild (log : List (ReconnectEvent A)) : Prop :=
  ∀ event ∈ log, ¬ FailsForGood event

/-- The first such failure is the end: its error is returned, and nothing after it. -/
def EndsAtOnce (s : Reconnect A) : Prop :=
  Mild s.log ∨ ∃ before event e k,
    s.log = before ++ event :: .returned (some (.error e)) :: List.replicate k (.returned none) ∧
    event.FailsWith e ∧ Fatal e ∧ Mild before ∧ s.client.terminated = true

/-- After the end only calls that return nothing. -/
theorem Moves.answered_of_terminated (hmoves : Moves cfg addrs s s') (halive : s.Alive)
    (hterminated : s.client.terminated = true) : s' = s.return_ none := by
  have hcalling : s.calling = true → False := by
    intro hcalling
    rw [halive hcalling] at hterminated
    cases hterminated
  cases hmoves with
  | answered => rfl
  | called _ hopen =>
      rw [hopen] at hterminated
      cases hterminated
  | loggedIn h | retries h | gaveUp h | closed h | returns _ h | fails h =>
      exact (hcalling h).elim

theorem not_failsForGood_returned {result : Option (Except SoupError Message)} :
    ¬ FailsForGood (A := A) (.returned result) :=
  fun ⟨_, hfails, _⟩ => hfails

theorem Mild.concat {log : List (ReconnectEvent A)} {event : ReconnectEvent A} (hlog : Mild log)
    (hevent : ¬ FailsForGood event) : Mild (log ++ [event]) :=
  List.forall_mem_append.mpr ⟨hlog, List.forall_mem_singleton.mpr hevent⟩

theorem EndsAtOnce.moves (halive : s.Alive) (h : EndsAtOnce s) (hmoves : Moves cfg addrs s s') :
    EndsAtOnce s' := by
  rcases h with hmild | ⟨before, event, e, k, hlog, hfails, hfatal, hbefore, hterminated⟩
  · cases hmoves with
    | answered => exact .inl (hmild.concat not_failsForGood_returned)
    | called => exact .inl hmild
    | loggedIn => exact .inl (hmild.concat fun ⟨_, hfails, _⟩ => hfails)
    | retries _ _ _ hnot =>
        refine .inl (hmild.concat ?_)
        rintro ⟨_, rfl, hfatal⟩
        exact hnot hfatal
    | @gaveUp addr e =>
        by_cases hfatal : Fatal e
        · exact .inr ⟨s.log, .attempt addr s.client.nextSequence (.error e), e, 0,
            List.append_assoc .., rfl, hfatal, hmild, rfl⟩
        · refine .inl ((hmild.concat ?_).concat not_failsForGood_returned)
          rintro ⟨_, rfl, hfatal'⟩
          exact hfatal hfatal'
    | closed => exact .inl (hmild.concat fun ⟨_, hfails, _⟩ => hfails)
    | @returns r conn kept _ _ hnot =>
        refine .inl ((hmild.concat ?_).concat not_failsForGood_returned)
        rintro ⟨e, hfails, hfatal⟩
        cases r with
        | ok msg => exact hfails
        | error e' =>
            have heq : e' = e := hfails
            exact hnot e (heq ▸ rfl) hfatal
    | @fails e conn _ _ hfatal =>
        exact .inr ⟨s.log, .read (some (.error e)) conn.nextExpectedSequence, e, 0,
          List.append_assoc .., rfl, hfatal, hmild, rfl⟩
  · rw [hmoves.answered_of_terminated halive hterminated]
    refine .inr ⟨before, event, e, k + 1, ?_, hfails, hfatal, hbefore, hterminated⟩
    rw [return_, hlog, List.replicate_succ']
    simp

/-! ## Runs -/

variable {t : Reconnect A}

section FromStart

variable (hrun : Run (step cfg addrs) (fun _ => True) (start cfg) s)

include hrun

theorem alive_of_run : s.Alive :=
  hrun.invariant (fun _ => nofun) fun _ _ _ _ h hstep _ => h.moves (step_moves hstep)

/-- What the moves keep holds in every run; a call under way is known to be alive. -/
theorem invariant_of_moves {I : Reconnect A → Prop} (hstart : I (start cfg))
    (hmoves : ∀ {s s' : Reconnect A}, s.Alive → I s → Moves cfg addrs s s' → I s') : I s := by
  have hinv : s.Alive ∧ I s := by
    refine hrun.invariant (I := fun s => s.Alive ∧ I s) (fun _ => ⟨nofun, hstart⟩) ?_
    rintro _ _ _ _ ⟨halive, h⟩ hstep _
    exact ⟨halive.moves (step_moves hstep), hmoves halive h (step_moves hstep)⟩
  exact hinv.2

theorem roundRobin_of_run : RoundRobin addrs s := by
  refine invariant_of_moves hrun ⟨(Nat.zero_mod _).symm, ?_⟩ fun _ h => h.moves
  intro k addr hk
  cases hk

theorem resumes_of_run : Resumes cfg.initialSequence s :=
  invariant_of_moves hrun ⟨rfl, .nil⟩ fun _ h => h.moves

theorem keepsConnection_of_run : KeepsConnection s :=
  invariant_of_moves hrun ⟨nofun, .nil⟩ fun _ h => h.moves

theorem budget_of_run (hcfg : ∀ m ∈ cfg.maxAttempts, m < 2 ^ 32) : Budget cfg s := by
  refine invariant_of_moves hrun ⟨rfl, fun m _ => Nat.zero_le _, fun m _ _ => ?_⟩
    fun halive h => h.moves hcfg halive
  exact Nat.lt_of_lt_of_le Nat.one_pos (Nat.le_max_left 1 m)

theorem endsAtOnce_of_run : EndsAtOnce s :=
  invariant_of_moves hrun (.inl (List.forall_mem_nil _)) fun halive h => h.moves halive

end FromStart

/-- A terminated client answers every call at once and with nothing. -/
theorem log_of_terminated (halive : s.Alive) (hterminated : s.client.terminated = true)
    (hrun : Run (step cfg addrs) (fun _ => True) s t) :
    ∃ k, t.log = s.log ++ List.replicate k (.returned none) := by
  have hinv : t.Alive ∧ t.client.terminated = true ∧
      ∃ k, t.log = s.log ++ List.replicate k (.returned none) := by
    refine hrun.invariant (I := fun t => t.Alive ∧ t.client.terminated = true ∧
      ∃ k, t.log = s.log ++ List.replicate k (.returned none))
      (fun _ => ⟨halive, hterminated, 0, (List.append_nil _).symm⟩) ?_
    rintro t _ t' _ ⟨halive, hterminated, k, hlog⟩ hstep _
    have hmoves := step_moves hstep
    refine ⟨halive.moves hmoves, ?_, k + 1, ?_⟩
    · rw [hmoves.answered_of_terminated halive hterminated]
      exact hterminated
    · rw [hmoves.answered_of_terminated halive hterminated, return_, hlog, List.replicate_succ',
        List.append_assoc]
  exact hinv.2.2

/-- The discipline of the reconnect loop, in every run. -/
theorem reconnect_discipline (cfg : ResilientSoupConfig) (addrs : List A)
    (hcfg : ∀ m ∈ cfg.maxAttempts, m < 2 ^ 32)
    (hrun : Run (step cfg addrs) (fun _ => True) (start cfg) s) :
    (∀ k addr, (attempted s.log)[k]? = some addr → addrs[k % addrs.length]? = some addr) ∧
    (∀ before addr sequence result after,
      s.log = before ++ .attempt addr sequence result :: after →
        sequence = expected cfg.initialSequence before ∧ atProtocolError before = false) ∧
    (∀ m ∈ cfg.maxAttempts, failures s.log ≤ max 1 m ∧
      (failures s.log = max 1 m → s.client.terminated = true)) ∧
    EndsAtOnce s ∧
    (s.client.terminated = true → s.step cfg addrs .call = some (s.return_ none) ∧
      ∀ t, Run (step cfg addrs) (fun _ => True) s t →
        ∃ k, t.log = s.log ++ List.replicate k (.returned none)) := by
  have halive := alive_of_run hrun
  have hbudget := budget_of_run hrun hcfg
  refine ⟨(roundRobin_of_run hrun).addr, ?_,
    fun m hm => ⟨hbudget.le m hm, fun hfull => ?_⟩, endsAtOnce_of_run hrun, ?_⟩
  · intro before addr sequence result after hlog
    exact ⟨(resumes_of_run hrun).asks before _ after hlog,
      (keepsConnection_of_run hrun).unprovoked before _ after hlog⟩
  · by_contra hopen
    have hlt := hbudget.lt m hm (Bool.eq_false_iff.mpr hopen)
    omega
  · intro hterminated
    have hidle : s.calling = false := by
      rw [← Bool.not_eq_true]
      intro hcalling
      rw [halive hcalling] at hterminated
      cases hterminated
    refine ⟨?_, fun t => log_of_terminated halive hterminated⟩
    rw [step, hidle, hterminated]
    rfl

/-- A client with two addresses and two attempts is refused by both. -/
theorem reconnect_discipline_refused :
    let cfg : ResilientSoupConfig :=
      { username := [], password := [], requestedSession := none, initialSequence := 7
        maxAttempts := some 2 }
    ∃ s : Reconnect Nat, Run (step cfg [0, 1]) (fun _ => True) (start cfg) s ∧
      attempted s.log = [0, 1] ∧ failures s.log = 2 ∧ s.client.terminated = true := by
  intro cfg
  have hexec : (exec (step cfg [0, 1]) (fun _ => True) (start cfg)
      [.call, .attempt .connectFails, .attempt (.loginFails .loginTimeout)]).map
        (fun s => (attempted s.log, failures s.log)) = some ([0, 1], 2) := by
    decide
  obtain ⟨s, hrun, hlog⟩ := exists_run_of_exec _ _ trivial hexec
  obtain ⟨hattempted, hfailures⟩ := Prod.mk.inj hlog
  have hcfg : ∀ m ∈ cfg.maxAttempts, m < 2 ^ 32 := by
    intro m hm
    cases hm
    decide
  obtain ⟨-, -, hbudget, -⟩ := reconnect_discipline cfg [0, 1] hcfg hrun
  exact ⟨s, hrun, hattempted, hfailures, (hbudget 2 rfl).2 hfailures⟩

end Reconnect

end Itch
