import Itch.Lib.Mailbox
import Itch.Soup.LinkState

/-!
# Unsequenced messages

A client sends messages to the server with `send_unsequenced`.  The task of its connection reads
them once it is live, and puts them into an inbox that all connections share.

A call writes the packet into a buffer and waits until the buffer is written to the socket.  It
gives up after a time, and then the packet may be in the buffer already: it goes out with the
next call, or never.  So a call that has failed may still deliver its message, once, and a call
that has returned without error has handed over its message and all before it.

The bytes that the server has not read yet, wherever they are, are the frames of the packets
that it has not read yet (`Reads`).  What it has read is what was put into the buffer first, and
what the inbox takes of it is a matter of room.
-/

namespace Itch

open Lib

/-! ## The client -/

/-- Where the write half of the connection of a client stands. -/
inductive SendPhase where
  | idle
  /-- A call has encoded its message and waits to put the packet into the buffer. -/
  | encoded (msg : Message) (payload : Bytes)
  /-- The packet is in the buffer, and the call waits until that is written. -/
  | buffered (msg : Message)
  | loggedOut
deriving Repr, DecidableEq

structure Sender where
  phase : SendPhase
  /-- Bytes that are not written to the socket yet. -/
  buffer : Bytes
  /-- The messages of all calls. -/
  called : List Message
  /-- The messages whose packets were put into the buffer. -/
  queued : List Message
  /-- The results of the calls that have returned. -/
  results : List (Message × Except SoupError Unit)
deriving Repr, DecidableEq

inductive SendAction where
  /-- `send_unsequenced` is called. -/
  | call (msg : Message)
  /-- The packet is put into the buffer.  When that can be is left open. -/
  | enqueue
  /-- The buffer is written. -/
  | finish
  /-- The time is over, or writing fails. -/
  | fail
  | logout
deriving Repr, DecidableEq

namespace Sender

def new : Sender where
  phase := .idle
  buffer := []
  called := []
  queued := []
  results := []

/-- The call returns. -/
def ret (s : Sender) (msg : Message) (result : Except SoupError Unit) : Sender :=
  { s with phase := .idle, results := s.results ++ [(msg, result)] }

def step (s : Sender) : SendAction → Option Sender
  | .call msg =>
      match s.phase with
      | .idle =>
          let s := { s with called := s.called ++ [msg] }
          match msg.encode (List.replicate msg.encodedLen 0) with
          | .error e => some (s.ret msg (.error (.protocol e)))
          | .ok (_, payload) => some { s with phase := .encoded msg payload }
      | _ => none
  | .enqueue =>
      match s.phase with
      | .encoded msg payload =>
          match SoupCodec.encode (.unsequencedData payload) s.buffer with
          | (.error e, _) => some (s.ret msg (.error e))
          | (.ok (), buffer) => some { s with
              phase := .buffered msg
              buffer := buffer
              queued := s.queued ++ [msg] }
      | _ => none
  | .finish =>
      match s.phase with
      | .buffered msg => if s.buffer.isEmpty then some (s.ret msg (.ok ())) else none
      | _ => none
  | .fail =>
      match s.phase with
      | .encoded msg _ | .buffered msg => some (s.ret msg (.error .io))
      | _ => none
  | .logout =>
      match s.phase, SoupCodec.encode .logoutRequest s.buffer with
      | .idle, (.ok (), buffer) => some { s with phase := .loggedOut, buffer := buffer }
      | _, _ => none

/-- The messages of the calls that returned without error. -/
def confirmed (s : Sender) : List Message :=
  s.results.filterMap fun (msg, result) => if result.isOk then some msg else none

end Sender

/-! ## A connection -/

/-- The channel for the packets of all connections, which are named by their places. -/
abbrev Inbox := Mailbox Nat Message 1024

/-- A connection, with what flows from the client to the server. -/
structure Uplink (σ : Type) where
  sender : Sender
  login : LoginRequest
  /-- Bytes that were written and have not reached the server. -/
  onWay : Bytes
  framed : Framed
  subscriber : Subscriber σ
  /-- The messages read from the packets.  No task reads it; runs are judged by it. -/
  read : List Message

inductive UplinkAction where
  | send (action : SendAction)
  /-- Bytes are written to the socket. -/
  | flush (count : Nat)
  /-- Bytes reach the server. -/
  | upload (count : Nat)
  /-- The server reads, at the end of the stream or before. -/
  | serverRead (atEnd : Bool)
  /-- The server reads from a connection that was reset. -/
  | serverReset
  | warmup (result : Option (List Message))
  | proceed
  | lagged
  | sendFailed
deriving Repr, DecidableEq

namespace Uplink

variable {σ : Type} [SeqStore σ]

/-- A connection that was just accepted, with the request written. -/
def opened (srv : Server σ) (login : LoginRequest) : Uplink σ where
  sender := .new
  login := login
  onWay := (SoupPacket.loginRequest login).frame
  framed := .new
  subscriber := .accept srv
  read := []

/-- The message the task of the server takes from what it has read. -/
def unsequenced (link : Uplink σ) : Option (Except SoupError SoupPacket) → Option Message
  | some (.ok (.unsequencedData payload)) =>
      if link.subscriber.phase = .live then (Message.decode payload).toOption else none
  | _ => none

/-- The task of the server gets what it has read. -/
def packet (cfg : ServerConfig) (srv : Server σ) (peer : Nat) (inbox : Inbox) (link : Uplink σ)
    (item : Option (Except SoupError SoupPacket)) : Option (Inbox × Uplink σ) :=
  (link.subscriber.step cfg srv (.packet item)).map fun s =>
    match link.unsequenced item with
    | some msg => (inbox.trySend peer msg, { link with subscriber := s, read := link.read ++ [msg] })
    | none => (inbox, { link with subscriber := s })

/-- Another step of the task of the server. -/
def act (cfg : ServerConfig) (srv : Server σ) (inbox : Inbox) (link : Uplink σ)
    (action : SubscriberAction) : Option (Inbox × Uplink σ) :=
  (link.subscriber.step cfg srv action).map fun s => (inbox, { link with subscriber := s })

def step (cfg : ServerConfig) (srv : Server σ) (peer : Nat) (inbox : Inbox) (link : Uplink σ) :
    UplinkAction → Option (Inbox × Uplink σ)
  | .send action => (link.sender.step action).map fun s => (inbox, { link with sender := s })
  | .flush count => some (inbox, { link with
      sender := { link.sender with buffer := link.sender.buffer.drop count }
      onWay := link.onWay ++ link.sender.buffer.take count })
  | .upload count => some (inbox, { link with
      onWay := link.onWay.drop count
      framed := link.framed.receive (link.onWay.take count) })
  | .serverRead atEnd =>
      (link.framed.poll atEnd).bind fun (item, framed) =>
        packet cfg srv peer inbox { link with framed := framed } item
  | .serverReset => link.packet cfg srv peer inbox (some (.error .io))
  | .warmup result => link.act cfg srv inbox (.warmup result)
  | .proceed => link.act cfg srv inbox .proceed
  | .lagged => link.act cfg srv inbox .lagged
  | .sendFailed => link.act cfg srv inbox .sendFailed

end Uplink

/-! ## The system -/

/-- The server with its connections and its inbox. -/
structure Intake (σ : Type) where
  server : Server σ
  inbox : Inbox
  links : List (Uplink σ)

inductive IntakeAction where
  | ingest (action : IngestAction)
  | accept (login : LoginRequest)
  | link (i : Nat) (action : UplinkAction)
  /-- The application takes a message from the inbox. -/
  | receive
  /-- The receiver of the inbox is dropped. -/
  | dropInbox
deriving Repr, DecidableEq

namespace Intake

variable {σ : Type} [SeqStore σ]

def start (store : σ) (startSequence : UInt64) : Intake σ where
  server := .start store startSequence
  inbox := .new
  links := []

def step (cfg : ServerConfig) (sys : Intake σ) : IntakeAction → Option (Intake σ)
  | .ingest action => (sys.server.step action).map fun srv => { sys with server := srv }
  | .accept login => some { sys with links := sys.links ++ [.opened sys.server login] }
  | .link i action =>
      (sys.links[i]?.bind fun link => link.step cfg sys.server i sys.inbox action).map
        fun (inbox, link) => { sys with inbox := inbox, links := sys.links.set i link }
  | .receive => sys.inbox.recv.map fun inbox => { sys with inbox := inbox }
  | .dropInbox => some { sys with inbox := sys.inbox.dropReceiver }

end Intake

/-! ## What a call leaves behind -/

/-- The packet of an unsequenced message. -/
def unsequencedPacket (msg : Message) : SoupPacket :=
  .unsequencedData msg.wireImage

/-- More packets have more bytes. -/
theorem length_wire_drop_lt {ps : List SoupPacket} {k n : Nat} (hlt : k < n) (hle : n ≤ ps.length) :
    (wire (ps.drop n)).length < (wire (ps.drop k)).length := by
  have hk : k < ps.length := hlt.trans_le hle
  have hrest : ps.drop (k + 1) = (ps.drop (k + 1)).take (n - (k + 1)) ++ ps.drop n := by
    conv_lhs => rw [← List.take_append_drop (n - (k + 1)) (ps.drop (k + 1))]
    rw [List.drop_drop, Nat.add_sub_cancel' hlt]
  rw [List.drop_eq_getElem_cons hk, wire_cons, hrest, wire_append, List.length_append,
    List.length_append, SoupPacket.length_frame, SoupPacket.encodedLen]
  omega

theorem fits_unsequencedPacket (msg : Message) : (unsequencedPacket msg).Fits :=
  fits_dataPacket msg

namespace Sender

/-- The packets put into the buffer so far. -/
def packets (s : Sender) : List SoupPacket :=
  s.queued.map unsequencedPacket ++ if s.phase = .loggedOut then [.logoutRequest] else []

/-- The message that waits to be put into the buffer. -/
def waiting (s : Sender) : List Message :=
  match s.phase with
  | .encoded msg _ => [msg]
  | _ => []

/-- The moves of the write half, given that a waiting message was encoded. -/
inductive Move (s : Sender) : Sender → Prop where
  | call (msg : Message) : s.phase = .idle → Move s { s with
      phase := .encoded msg msg.wireImage
      called := s.called ++ [msg] }
  | enqueue {msg : Message} {payload : Bytes} : s.phase = .encoded msg payload → Move s { s with
      phase := .buffered msg
      buffer := s.buffer ++ (unsequencedPacket msg).frame
      queued := s.queued ++ [msg] }
  | finish {msg : Message} : s.phase = .buffered msg → s.buffer = [] → Move s (s.ret msg (.ok ()))
  | giveUp {msg : Message} {payload : Bytes} : s.phase = .encoded msg payload →
      Move s (s.ret msg (.error .io))
  | timeOut {msg : Message} : s.phase = .buffered msg → Move s (s.ret msg (.error .io))
  | logout : s.phase = .idle → Move s { s with
      phase := .loggedOut
      buffer := s.buffer ++ SoupPacket.logoutRequest.frame }

variable {s s' : Sender} {action : SendAction} {n : Nat}

/-- Everything up to the first `n` messages is written, the confirmed ones among them. -/
structure Writes (n : Nat) (s : Sender) : Prop where
  encoded : ∀ msg payload, s.phase = .encoded msg payload → payload = msg.wireImage
  called : (s.queued ++ s.waiting).Sublist s.called
  le_length : n ≤ s.queued.length
  buffered : ∀ msg, s.phase = .buffered msg → n < s.queued.length ∧ s.queued.getLast? = some msg
  confirmed : s.confirmed.Sublist (s.queued.take n)
  written : s.buffer.length ≤ (wire (s.packets.drop n)).length

theorem writes_new : new.Writes 0 where
  encoded := by rintro _ _ ⟨⟩
  called := List.Sublist.refl _
  le_length := le_rfl
  buffered := by rintro _ ⟨⟩
  confirmed := List.Sublist.refl _
  written := le_rfl

theorem step_move (h : s.Writes n) (hstep : s.step action = some s') : Move s s' := by
  cases action with
  | call msg =>
      simp only [step] at hstep
      split at hstep
      next hphase =>
        rw [msg.encode_fresh] at hstep
        cases hstep
        exact .call msg hphase
      next => cases hstep
  | enqueue =>
      simp only [step] at hstep
      split at hstep
      next msg payload hphase =>
        obtain rfl := h.encoded msg payload hphase
        have hencode : SoupCodec.encode (.unsequencedData msg.wireImage) s.buffer =
            (.ok (), s.buffer ++ (unsequencedPacket msg).frame) :=
          SoupCodec.encode_eq (fits_unsequencedPacket msg) s.buffer
        rw [hencode] at hstep
        cases hstep
        exact .enqueue hphase
      next => cases hstep
  | finish =>
      simp only [step] at hstep
      split at hstep
      next msg hphase =>
        split at hstep
        next hempty =>
          cases hstep
          exact .finish hphase (List.isEmpty_iff.mp hempty)
        next => cases hstep
      next => cases hstep
  | fail =>
      simp only [step] at hstep
      split at hstep
      next msg payload hphase =>
        cases hstep
        exact .giveUp hphase
      next msg hphase =>
        cases hstep
        exact .timeOut hphase
      next => cases hstep
  | logout =>
      simp only [step] at hstep
      split at hstep
      next buffer hphase hencode =>
        have hfits : SoupPacket.logoutRequest.encodedLen ≤ maxMessageLen := by decide
        rw [SoupCodec.encode_eq hfits] at hencode
        cases hstep
        cases hencode
        exact .logout hphase
      next => cases hstep

/-- A move puts packets into the buffer, or none. -/
theorem Move.grows (h : Move s s') : ∃ ps, s'.packets = s.packets ++ ps ∧
    s'.buffer = s.buffer ++ wire ps ∧ s.queued <+: s'.queued := by
  cases h with
  | call msg hphase =>
      exact ⟨[], by simp [packets, hphase], by simp, List.prefix_rfl⟩
  | @enqueue msg payload hphase =>
      exact ⟨[unsequencedPacket msg], by simp [packets, hphase], by simp, List.prefix_append _ _⟩
  | finish hphase => exact ⟨[], by simp [packets, ret, hphase], by simp [ret], List.prefix_rfl⟩
  | giveUp hphase => exact ⟨[], by simp [packets, ret, hphase], by simp [ret], List.prefix_rfl⟩
  | timeOut hphase => exact ⟨[], by simp [packets, ret, hphase], by simp [ret], List.prefix_rfl⟩
  | logout hphase =>
      exact ⟨[.logoutRequest], by simp [packets, hphase], by simp, List.prefix_rfl⟩

theorem length_queued_le (s : Sender) : s.queued.length ≤ s.packets.length := by
  simp [packets]

/-- What is written stays written. -/
theorem Move.written (h : Move s s') (hle : n ≤ s.queued.length)
    (hwritten : s.buffer.length ≤ (wire (s.packets.drop n)).length) :
    s'.buffer.length ≤ (wire (s'.packets.drop n)).length := by
  obtain ⟨ps, hpackets, hbuffer, -⟩ := h.grows
  rw [hpackets, hbuffer, List.drop_append_of_le_length (hle.trans s.length_queued_le), wire_append,
    List.length_append, List.length_append]
  exact Nat.add_le_add_right hwritten _

theorem confirmed_ret_error (s : Sender) (msg : Message) (e : SoupError) :
    (s.ret msg (.error e)).confirmed = s.confirmed := by
  simp [confirmed, ret, Except.isOk, Except.toBool]

theorem confirmed_ret_ok (s : Sender) (msg : Message) :
    (s.ret msg (.ok ())).confirmed = s.confirmed ++ [msg] := by
  simp [confirmed, ret, Except.isOk, Except.toBool]

theorem Writes.ret_error {msg : Message} {e : SoupError} (h : s.Writes n)
    (hmove : Move s (s.ret msg (.error e))) : (s.ret msg (.error e)).Writes n where
  encoded := by rintro _ _ ⟨⟩
  called := by
    have hqueued : (s.ret msg (.error e)).queued ++ (s.ret msg (.error e)).waiting = s.queued := by
      simp [waiting, ret]
    rw [hqueued]
    exact (List.sublist_append_left _ _).trans h.called
  le_length := h.le_length
  buffered := by rintro _ ⟨⟩
  confirmed := by
    rw [confirmed_ret_error]
    exact h.confirmed
  written := hmove.written h.le_length h.written

/-- Once the buffer is written, the message of the call is the last one written. -/
theorem Writes.ret_ok {msg : Message} (h : s.Writes n) (hphase : s.phase = .buffered msg)
    (hbuffer : s.buffer = []) : (s.ret msg (.ok ())).Writes s.queued.length where
  encoded := by rintro _ _ ⟨⟩
  called := by
    have hcalled := h.called
    rw [waiting, hphase] at hcalled
    exact hcalled
  le_length := le_rfl
  buffered := by rintro _ ⟨⟩
  confirmed := by
    obtain ⟨hlt, hlast⟩ := h.buffered msg hphase
    obtain ⟨init, hinit⟩ := List.getLast?_eq_some_iff.mp hlast
    rw [hinit, List.length_append, List.length_singleton, Nat.lt_succ_iff] at hlt
    have hconfirmed := h.confirmed
    rw [hinit, List.take_append_of_le_length hlt] at hconfirmed
    show (s.ret msg (.ok ())).confirmed.Sublist (s.queued.take s.queued.length)
    rw [confirmed_ret_ok, List.take_length, hinit]
    exact (hconfirmed.trans (List.take_sublist _ _)).append (List.Sublist.refl _)
  written := by
    show s.buffer.length ≤ _
    rw [hbuffer]
    exact Nat.zero_le _

theorem Writes.move (h : s.Writes n) (hmove : Move s s') : ∃ n, s'.Writes n := by
  have hwritten := hmove.written h.le_length h.written
  cases hmove with
  | call msg hphase =>
      have hcalled := h.called
      rw [waiting, hphase, List.append_nil] at hcalled
      exact ⟨n, {
        encoded := by
          rintro _ _ ⟨⟩
          rfl
        called := hcalled.append (List.Sublist.refl _)
        le_length := h.le_length
        buffered := by rintro _ ⟨⟩
        confirmed := h.confirmed
        written := hwritten }⟩
  | @enqueue msg payload hphase =>
      have hcalled := h.called
      rw [waiting, hphase] at hcalled
      exact ⟨n, {
        encoded := by rintro _ _ ⟨⟩
        called := by simpa [waiting] using hcalled
        le_length := by
          rw [List.length_append]
          exact h.le_length.trans (Nat.le_add_right _ _)
        buffered := by
          rintro _ ⟨⟩
          rw [List.length_append, List.getLast?_concat]
          exact ⟨Nat.lt_succ_of_le h.le_length, rfl⟩
        confirmed := by
          dsimp only
          rw [List.take_append_of_le_length h.le_length]
          exact h.confirmed
        written := hwritten }⟩
  | finish hphase hbuffer => exact ⟨_, h.ret_ok hphase hbuffer⟩
  | giveUp hphase => exact ⟨n, h.ret_error (.giveUp hphase)⟩
  | timeOut hphase => exact ⟨n, h.ret_error (.timeOut hphase)⟩
  | logout hphase =>
      have hcalled := h.called
      rw [waiting, hphase] at hcalled
      exact ⟨n, {
        encoded := by rintro _ _ ⟨⟩
        called := by simpa [waiting] using hcalled
        le_length := h.le_length
        buffered := by rintro _ ⟨⟩
        confirmed := h.confirmed
        written := hwritten }⟩

theorem Writes.flush (h : s.Writes n) (count : Nat) :
    Writes n { s with buffer := s.buffer.drop count } where
  encoded := h.encoded
  called := h.called
  le_length := h.le_length
  buffered := h.buffered
  confirmed := h.confirmed
  written := by
    refine le_trans ?_ h.written
    rw [List.length_drop]
    exact Nat.sub_le _ _

end Sender

/-! ## What the server has read -/

namespace Uplink

variable {σ : Type}

/-- The packets the server has not read, if it has read `k` messages. -/
def pending (link : Uplink σ) (k : Nat) : List SoupPacket :=
  (if link.subscriber.phase = .login then [.loginRequest link.login] else []) ++
    link.sender.packets.drop k

/-- The server has read the first `k` messages, and what is left to read is on its way. -/
structure Reads (k : Nat) (link : Uplink σ) : Prop where
  le_length : k ≤ link.sender.queued.length
  read : link.read = (link.sender.queued.take k).map Message.onWire
  bytes : link.subscriber.phase ≠ .closed → link.framed.codec = .new ∧
    link.framed.buffer ++ link.onWay ++ link.sender.buffer = wire (link.pending k)

variable {link link' : Uplink σ} {k n : Nat}

theorem fits_pending (link : Uplink σ) (k : Nat) : ∀ p ∈ link.pending k, p.Fits := by
  intro p hp
  rcases List.mem_append.mp hp with hlogin | hpacket
  · split at hlogin
    next =>
      rw [List.mem_singleton.mp hlogin]
      exact fits_loginRequest _
    next => cases hlogin
  · rcases List.mem_append.mp (List.mem_of_mem_drop hpacket) with hmsg | hlogout
    · obtain ⟨msg, -, rfl⟩ := List.mem_map.mp hmsg
      exact fits_unsequencedPacket msg
    · split at hlogout
      next =>
        rw [List.mem_singleton.mp hlogout]
        exact Nat.le_of_ble_eq_true rfl
      next => cases hlogout

theorem reads_opened [SeqStore σ] (srv : Server σ) (login : LoginRequest) :
    (opened srv login).Reads 0 where
  le_length := le_rfl
  read := rfl
  bytes _ := ⟨rfl, rfl⟩

theorem Reads.send {s : Sender} (h : link.Reads k) (hmove : link.sender.Move s) :
    Reads k { link with sender := s } := by
  obtain ⟨ps, hpackets, hbuffer, hqueued⟩ := hmove.grows
  refine ⟨h.le_length.trans hqueued.length_le, ?_, fun hphase => ?_⟩
  · obtain ⟨rest, hrest⟩ := hqueued
    dsimp only
    rw [h.read, ← hrest, List.take_append_of_le_length h.le_length]
  · obtain ⟨hcodec, hbytes⟩ := h.bytes hphase
    refine ⟨hcodec, ?_⟩
    have hpending : pending { link with sender := s } k = link.pending k ++ ps := by
      rw [pending, pending, hpackets, List.drop_append_of_le_length
        (h.le_length.trans link.sender.length_queued_le), List.append_assoc]
    rw [hpending, wire_append, ← hbytes, hbuffer, List.append_assoc (link.framed.buffer ++ link.onWay)]

theorem Reads.flush (h : link.Reads k) (count : Nat) : Reads k { link with
    sender := { link.sender with buffer := link.sender.buffer.drop count }
    onWay := link.onWay ++ link.sender.buffer.take count } where
  le_length := h.le_length
  read := h.read
  bytes hphase := by
    obtain ⟨hcodec, hbytes⟩ := h.bytes hphase
    refine ⟨hcodec, ?_⟩
    dsimp only
    rw [← List.append_assoc, List.append_assoc (link.framed.buffer ++ link.onWay),
      List.take_append_drop]
    exact hbytes

theorem Reads.upload (h : link.Reads k) (count : Nat) : Reads k { link with
    onWay := link.onWay.drop count
    framed := link.framed.receive (link.onWay.take count) } where
  le_length := h.le_length
  read := h.read
  bytes hphase := by
    obtain ⟨hcodec, hbytes⟩ := h.bytes hphase
    refine ⟨hcodec, ?_⟩
    dsimp only [Framed.receive]
    rw [List.append_assoc link.framed.buffer, List.take_append_drop]
    exact hbytes

variable [SeqStore σ] {cfg : ServerConfig} {srv : Server σ} {s : Subscriber σ} {peer : Nat}
  {inbox inbox' : Inbox} {item : Option (Except SoupError SoupPacket)}

/-- Before the login the task waits for nothing else. -/
theorem closed_of_login {action : SubscriberAction} (hphase : link.subscriber.phase = .login)
    (haction : ∀ item, action ≠ .packet item)
    (h : link.subscriber.step cfg srv action = some s) : s.phase = .closed := by
  cases action with
  | packet item => exact absurd rfl (haction item)
  | warmup result => simp [Subscriber.step, hphase] at h
  | proceed => simp [Subscriber.step, Subscriber.proceed, hphase] at h
  | lagged => simp [Subscriber.step, hphase] at h
  | sendFailed =>
      simp only [Subscriber.step, hphase, Option.some_inj] at h
      rw [← h]
      rfl

/-- The task of the server does something else than to read. -/
theorem Reads.act {action : SubscriberAction} (h : link.Reads k)
    (haction : ∀ item, action ≠ .packet item)
    (hact : link.act cfg srv inbox action = some (inbox', link')) : link'.Reads k := by
  obtain ⟨s, hs, hnew⟩ := Option.map_eq_some_iff.mp hact
  cases hnew
  refine ⟨h.le_length, h.read, fun hphase => ?_⟩
  have hopen : link.subscriber.phase ≠ .closed := by
    intro hclosed
    rw [Subscriber.step_closed hclosed] at hs
    cases hs
  have hlogin : link.subscriber.phase ≠ .login := fun hlogin =>
    hphase (closed_of_login hlogin haction hs)
  obtain ⟨hcodec, hbytes⟩ := h.bytes hopen
  refine ⟨hcodec, hbytes.trans ?_⟩
  rw [pending, pending, if_neg hlogin, if_neg (Subscriber.step_move hs).phase_ne_login]

/-- What the packet of a connection leads to. -/
theorem packet_cases (h : link.packet cfg srv peer inbox item = some (inbox', link')) :
    ∃ s, link.subscriber.step cfg srv (.packet item) = some s ∧
      ((∃ msg, link.unsequenced item = some msg ∧ inbox' = inbox.trySend peer msg ∧
        link' = { link with subscriber := s, read := link.read ++ [msg] }) ∨
      (link.unsequenced item = none ∧ inbox' = inbox ∧ link' = { link with subscriber := s })) := by
  obtain ⟨s, hs, hnew⟩ := Option.map_eq_some_iff.mp h
  refine ⟨s, hs, ?_⟩
  split at hnew
  next msg hmsg =>
    cases hnew
    exact .inl ⟨msg, hmsg, rfl, rfl⟩
  next hnone =>
    cases hnew
    exact .inr ⟨hnone, rfl, rfl⟩

/-- The task reads before the login and while it is live. -/
theorem phase_of_packet (h : link.subscriber.step cfg srv (.packet item) = some s) :
    (link.subscriber.phase = .login ∧ s = link.subscriber.login cfg item) ∨
    (link.subscriber.phase = .live ∧ s = link.subscriber.read item) := by
  simp only [Subscriber.step] at h
  split at h
  next hphase => exact .inl ⟨hphase, (Option.some.inj h).symm⟩
  next hphase => exact .inr ⟨hphase, (Option.some.inj h).symm⟩
  next => cases h

omit [SeqStore σ] in
theorem Reads.closed {read : List Message} {framed : Framed} (h : link.Reads k)
    (hread : read = link.read) (hclosed : s.phase = .closed) :
    Reads k { link with framed := framed, subscriber := s, read := read } where
  le_length := h.le_length
  read := hread.trans h.read
  bytes hphase := absurd hclosed hphase

/-- A connection whose stream is broken or at its end is closed. -/
theorem Reads.broken {framed : Framed} (h : link.Reads k)
    (hitem : item = none ∨ item = some (.error .io))
    (hpacket : packet cfg srv peer inbox { link with framed := framed } item =
      some (inbox', link')) : link'.Reads k := by
  obtain ⟨s, hs, hcases⟩ := packet_cases hpacket
  have hclosed : s.phase = .closed := by
    rcases phase_of_packet hs with ⟨-, rfl⟩ | ⟨-, rfl⟩
    · rcases hitem with rfl | rfl <;> rfl
    · rcases hitem with rfl | rfl <;> rfl
  rcases hcases with ⟨msg, hmsg, -, -⟩ | ⟨-, -, rfl⟩
  · rcases hitem with rfl | rfl <;> cases hmsg
  · exact h.closed rfl hclosed

/-- The server reads the login request. -/
theorem Reads.readLogin {buffer : Bytes} {p : SoupPacket} {rest : List SoupPacket}
    (h : link.Reads k) (hlogin : link.subscriber.phase = .login)
    (hpending : link.pending k = p :: rest) (hbuffer : link.framed.buffer = p.frame ++ buffer)
    (hpacket : packet cfg srv peer inbox
      { link with framed := { codec := .new, buffer := buffer } } (some (.ok p.onWire)) =
        some (inbox', link')) : link'.Reads k := by
  obtain ⟨-, hbytes⟩ := h.bytes (by simp [hlogin])
  rw [hpending, wire_cons, hbuffer] at hbytes
  rw [pending, if_pos hlogin, List.singleton_append] at hpending
  obtain ⟨rfl, rfl⟩ := List.cons.inj hpending
  obtain ⟨s, hs, ⟨msg, hmsg, -, -⟩ | ⟨-, -, rfl⟩⟩ := packet_cases hpacket
  · cases hmsg
  · refine ⟨h.le_length, h.read, fun _ => ⟨rfl, ?_⟩⟩
    rw [pending, if_neg (Subscriber.step_move hs).phase_ne_login, List.nil_append]
    simpa [List.append_assoc] using hbytes

/-- The server reads the next packet. -/
theorem Reads.readNext {buffer : Bytes} {p : SoupPacket} {rest : List SoupPacket}
    (h : link.Reads k) (hlive : link.subscriber.phase = .live)
    (hpending : link.pending k = p :: rest) (hbuffer : link.framed.buffer = p.frame ++ buffer)
    (hpacket : packet cfg srv peer inbox
      { link with framed := { codec := .new, buffer := buffer } } (some (.ok p.onWire)) =
        some (inbox', link')) : ∃ k, link'.Reads k := by
  obtain ⟨-, hbytes⟩ := h.bytes (by simp [hlive])
  rw [hpending, wire_cons, hbuffer] at hbytes
  rw [pending, if_neg (by simp [hlive]), List.nil_append] at hpending
  obtain ⟨s, hs, hcases⟩ := packet_cases hpacket
  obtain ⟨hno, -⟩ | ⟨-, rfl⟩ := phase_of_packet hs
  · rw [hlive] at hno
    cases hno
  have hget : link.sender.packets[k]? = some p := by
    rw [← List.head?_drop, hpending]
    rfl
  by_cases hlt : k < link.sender.queued.length
  · have hmsg := List.getElem?_eq_getElem hlt
    generalize link.sender.queued[k] = msg at hmsg
    rw [Sender.packets, List.getElem?_append_left (by simpa using hlt), List.getElem?_map, hmsg]
      at hget
    cases hget
    have hunsequenced : unsequenced { link with framed := { codec := .new, buffer := buffer } }
        (some (.ok (unsequencedPacket msg).onWire)) = some msg.onWire := by
      simp [unsequenced, SoupPacket.onWire, unsequencedPacket, hlive, Message.decode_wireImage,
        Except.toOption]
    rcases hcases with ⟨msg', hmsg', -, rfl⟩ | ⟨hnone, -, -⟩
    · obtain rfl := Option.some.inj (hunsequenced.symm.trans hmsg')
      refine ⟨k + 1, hlt, ?_, fun _ => ⟨rfl, ?_⟩⟩
      · dsimp only
        rw [h.read, List.take_add_one, hmsg, List.map_append]
        rfl
      · have hphase : (Subscriber.read link.subscriber
            (some (.ok (unsequencedPacket msg).onWire))).phase = .live := hlive
        rw [pending]
        dsimp only
        rw [hphase, if_neg (by simp), List.nil_append, ← List.tail_drop, hpending]
        simpa [List.append_assoc] using hbytes
    · cases hunsequenced.symm.trans hnone
  · rw [Sender.packets, List.getElem?_append_right (by simpa using Nat.le_of_not_lt hlt)] at hget
    have hlogout : p = .logoutRequest := by
      have hmem := List.mem_of_getElem? hget
      split at hmem
      next => exact List.mem_singleton.mp hmem
      next => cases hmem
    subst hlogout
    rcases hcases with ⟨msg', hmsg', -, -⟩ | ⟨-, -, rfl⟩
    · cases hmsg'
    · exact ⟨k, h.closed rfl rfl⟩

theorem Reads.serverRead {framed : Framed} {atEnd : Bool} (h : link.Reads k)
    (hpoll : link.framed.poll atEnd = some (item, framed))
    (hpacket : packet cfg srv peer inbox { link with framed := framed } item =
      some (inbox', link')) : ∃ k, link'.Reads k := by
  obtain ⟨s, hs, -⟩ := packet_cases hpacket
  have hphase := phase_of_packet hs
  have hopen : link.subscriber.phase ≠ .closed := by
    rcases hphase with ⟨hlogin, -⟩ | ⟨hlive, -⟩ <;> simp_all
  obtain ⟨hcodec, hbytes⟩ := h.bytes hopen
  have hframed : link.framed = { codec := .new, buffer := link.framed.buffer } := by
    rw [← hcodec]
  rw [hframed] at hpoll
  have hcut := Framed.poll_cut (link.fits_pending k)
    (hbytes ▸ (List.prefix_append _ _).trans (List.prefix_append _ _)) hpoll
  rcases hcut with hitem | ⟨p, rest, buffer, hpending, hbuffer, rfl, rfl⟩
  · exact ⟨k, h.broken hitem hpacket⟩
  · rcases hphase with ⟨hlogin, -⟩ | ⟨hlive, -⟩
    · exact ⟨k, h.readLogin hlogin hpending hbuffer hpacket⟩
    · exact h.readNext hlive hpending hbuffer hpacket

/-! ## Every step of a connection -/

/-- What holds of every connection. -/
structure Inv (link : Uplink σ) : Prop where
  writes : ∃ n, link.sender.Writes n
  reads : ∃ k, link.Reads k

theorem inv_opened (srv : Server σ) (login : LoginRequest) : (opened srv login).Inv :=
  ⟨⟨0, Sender.writes_new⟩, ⟨0, reads_opened srv login⟩⟩

theorem sender_packet (h : link.packet cfg srv peer inbox item = some (inbox', link')) :
    link'.sender = link.sender := by
  obtain ⟨s, -, ⟨msg, -, -, rfl⟩ | ⟨-, -, rfl⟩⟩ := packet_cases h
  · rfl
  · rfl

theorem Inv.act {action : SubscriberAction} (h : link.Inv) (haction : ∀ item, action ≠ .packet item)
    (hact : link.act cfg srv inbox action = some (inbox', link')) : link'.Inv := by
  obtain ⟨k, hreads⟩ := h.reads
  refine ⟨?_, ⟨k, hreads.act haction hact⟩⟩
  obtain ⟨s, -, hnew⟩ := Option.map_eq_some_iff.mp hact
  cases hnew
  exact h.writes

theorem Inv.step {action : UplinkAction} (h : link.Inv)
    (hstep : link.step cfg srv peer inbox action = some (inbox', link')) : link'.Inv := by
  obtain ⟨⟨n, hwrites⟩, ⟨k, hreads⟩⟩ := h
  cases action with
  | send action =>
      obtain ⟨s, hs, hnew⟩ := Option.map_eq_some_iff.mp hstep
      cases hnew
      have hmove := Sender.step_move hwrites hs
      exact ⟨hwrites.move hmove, ⟨k, hreads.send hmove⟩⟩
  | flush count =>
      cases hstep
      exact ⟨⟨n, hwrites.flush count⟩, ⟨k, hreads.flush count⟩⟩
  | upload count =>
      cases hstep
      exact ⟨⟨n, hwrites⟩, ⟨k, hreads.upload count⟩⟩
  | serverRead atEnd =>
      obtain ⟨⟨item, framed⟩, hpoll, hpacket⟩ := Option.bind_eq_some_iff.mp hstep
      refine ⟨⟨n, ?_⟩, hreads.serverRead hpoll hpacket⟩
      rw [sender_packet hpacket]
      exact hwrites
  | serverReset =>
      have hpacket : packet cfg srv peer inbox { link with framed := link.framed }
          (some (.error .io)) = some (inbox', link') := hstep
      refine ⟨⟨n, ?_⟩, ⟨k, hreads.broken (.inr rfl) hpacket⟩⟩
      rw [sender_packet hpacket]
      exact hwrites
  | _ => exact Inv.act ⟨⟨n, hwrites⟩, ⟨k, hreads⟩⟩ (by rintro _ ⟨⟩) hstep

/-- A step reads a message and puts it into the inbox, or does neither. -/
theorem step_inbox {action : UplinkAction}
    (hstep : link.step cfg srv peer inbox action = some (inbox', link')) :
    (inbox' = inbox ∧ link'.read = link.read) ∨
    ∃ msg, inbox' = inbox.trySend peer msg ∧ link'.read = link.read ++ [msg] := by
  have hact : ∀ action, link.act cfg srv inbox action = some (inbox', link') →
      inbox' = inbox ∧ link'.read = link.read := by
    intro action h
    obtain ⟨s, -, hnew⟩ := Option.map_eq_some_iff.mp h
    cases hnew
    exact ⟨rfl, rfl⟩
  have hpacket : ∀ framed item, packet cfg srv peer inbox { link with framed := framed } item =
      some (inbox', link') → (inbox' = inbox ∧ link'.read = link.read) ∨
        ∃ msg, inbox' = inbox.trySend peer msg ∧ link'.read = link.read ++ [msg] := by
    intro framed item h
    obtain ⟨s, -, ⟨msg, -, hinbox, rfl⟩ | ⟨-, hinbox, rfl⟩⟩ := packet_cases h
    · exact .inr ⟨msg, hinbox, rfl⟩
    · exact .inl ⟨hinbox, rfl⟩
  cases action with
  | send action =>
      obtain ⟨s, -, hnew⟩ := Option.map_eq_some_iff.mp hstep
      cases hnew
      exact .inl ⟨rfl, rfl⟩
  | flush count =>
      cases hstep
      exact .inl ⟨rfl, rfl⟩
  | upload count =>
      cases hstep
      exact .inl ⟨rfl, rfl⟩
  | serverRead atEnd =>
      obtain ⟨⟨item, framed⟩, -, h⟩ := Option.bind_eq_some_iff.mp hstep
      exact hpacket framed item h
  | serverReset => exact hpacket link.framed _ hstep
  | _ => exact .inl (hact _ hstep)

omit [SeqStore σ] in
/-- Once all bytes that were written have been read, so have the confirmed messages. -/
theorem Inv.confirmed_read (h : link.Inv) (hlogin : link.subscriber.phase ≠ .login)
    (hopen : link.subscriber.phase ≠ .closed) (hbuffer : link.framed.buffer = [])
    (honWay : link.onWay = []) : (link.sender.confirmed.map Message.onWire).Sublist link.read := by
  obtain ⟨⟨n, hwrites⟩, ⟨k, hreads⟩⟩ := h
  obtain ⟨-, hbytes⟩ := hreads.bytes hopen
  rw [hbuffer, honWay, pending, if_neg hlogin] at hbytes
  simp only [List.nil_append] at hbytes
  have hwritten := hwrites.written
  rw [hbytes] at hwritten
  have hle : n ≤ k := by
    by_contra hlt
    have hmore := length_wire_drop_lt (Nat.lt_of_not_le hlt)
      (hwrites.le_length.trans link.sender.length_queued_le)
    exact Nat.not_le_of_lt hmore hwritten
  rw [hreads.read]
  exact (hwrites.confirmed.trans (List.take_prefix_take_left hle).sublist).map _

end Uplink

/-! ## Every run of the server -/

namespace Intake

variable {σ : Type}

/-- What the server has read from a connection. -/
def readBy (sys : Intake σ) (i : Nat) : List Message :=
  match sys.links[i]? with
  | some link => link.read
  | none => []

/-- The messages a client has called `send_unsequenced` with. -/
def calledBy (sys : Intake σ) (i : Nat) : List Message :=
  match sys.links[i]? with
  | some link => link.sender.called
  | none => []

variable {sys sys' : Intake σ} {i : Nat} {link link' : Uplink σ}

theorem readBy_of_get (h : sys.links[i]? = some link) : sys.readBy i = link.read := by
  rw [readBy, h]

theorem readBy_accept (h : link.read = []) :
    readBy { sys with links := sys.links ++ [link] } i = sys.readBy i := by
  rw [readBy, readBy, List.getElem?_append]
  by_cases hlt : i < sys.links.length
  · rw [if_pos hlt]
  · rw [if_neg hlt, List.getElem?_eq_none (Nat.le_of_not_lt hlt)]
    cases i - sys.links.length with
    | zero => exact h
    | succ j => rfl

theorem readBy_set {inbox : Inbox} (h : sys.links[i]? = some link) :
    readBy { sys with inbox := inbox, links := sys.links.set i link' } i = link'.read := by
  rw [readBy, List.getElem?_set_self (List.getElem?_eq_some_iff.mp h).1]

theorem readBy_set_ne {inbox : Inbox} {j : Nat} (h : i ≠ j) :
    readBy { sys with inbox := inbox, links := sys.links.set i link' } j = sys.readBy j := by
  rw [readBy, readBy, List.getElem?_set_ne h]

variable [SeqStore σ] {cfg : ServerConfig} {action : IntakeAction}

/-- What a step means for the inbox. -/
inductive Feeds (sys sys' : Intake σ) : Prop where
  | keep : (∀ i, sys'.inbox.sentBy i = sys.inbox.sentBy i) →
      (∀ i, sys'.readBy i = sys.readBy i) → Feeds sys sys'
  | send (i : Nat) (msg : Message) : sys'.inbox = sys.inbox.trySend i msg →
      sys'.readBy i = sys.readBy i ++ [msg] → (∀ j, i ≠ j → sys'.readBy j = sys.readBy j) →
      Feeds sys sys'
  | dropInbox : sys'.inbox = sys.inbox.dropReceiver → (∀ i, sys'.readBy i = sys.readBy i) →
      Feeds sys sys'

theorem step_feeds (hstep : sys.step cfg action = some sys') : Feeds sys sys' := by
  cases action with
  | ingest action =>
      obtain ⟨srv, -, rfl⟩ := Option.map_eq_some_iff.mp hstep
      exact .keep (fun _ => rfl) fun _ => rfl
  | accept login =>
      cases hstep
      exact .keep (fun _ => rfl) fun _ => readBy_accept rfl
  | link i action =>
      obtain ⟨⟨inbox, link'⟩, hlink', rfl⟩ := Option.map_eq_some_iff.mp hstep
      obtain ⟨link, hget, hlink⟩ := Option.bind_eq_some_iff.mp hlink'
      rcases Uplink.step_inbox hlink with ⟨rfl, hread⟩ | ⟨msg, rfl, hread⟩
      · refine .keep (fun _ => rfl) fun j => ?_
        by_cases hij : i = j
        · subst hij
          rw [readBy_set hget, readBy_of_get hget, hread]
        · exact readBy_set_ne hij
      · refine .send i msg rfl ?_ fun _ hij => readBy_set_ne hij
        rw [readBy_set hget, readBy_of_get hget, hread]
  | receive =>
      obtain ⟨inbox, hinbox, rfl⟩ := Option.map_eq_some_iff.mp hstep
      exact .keep (Mailbox.sentBy_recv hinbox) fun _ => rfl
  | dropInbox =>
      cases hstep
      exact .dropInbox rfl fun _ => rfl

theorem inv_step (h : ∀ link ∈ sys.links, link.Inv) (hstep : sys.step cfg action = some sys') :
    ∀ link ∈ sys'.links, link.Inv := by
  cases action with
  | ingest action =>
      obtain ⟨srv, -, rfl⟩ := Option.map_eq_some_iff.mp hstep
      exact h
  | accept login =>
      cases hstep
      intro link hlink
      rcases List.mem_append.mp hlink with hold | hnew
      · exact h link hold
      · rw [List.mem_singleton.mp hnew]
        exact Uplink.inv_opened sys.server login
  | link i action =>
      obtain ⟨⟨inbox, link'⟩, hlink', rfl⟩ := Option.map_eq_some_iff.mp hstep
      obtain ⟨link, hget, hlink⟩ := Option.bind_eq_some_iff.mp hlink'
      intro d hd
      rcases List.mem_or_eq_of_mem_set hd with hold | rfl
      · exact h d hold
      · exact (h link (List.mem_of_getElem? hget)).step hlink
  | receive =>
      obtain ⟨inbox, -, rfl⟩ := Option.map_eq_some_iff.mp hstep
      exact h
  | dropInbox =>
      cases hstep
      exact h

/-- What is in the inbox was read, in this order. -/
theorem sublist_step (h : ∀ i, (sys.inbox.sentBy i).Sublist (sys.readBy i))
    (hstep : sys.step cfg action = some sys') (i : Nat) :
    (sys'.inbox.sentBy i).Sublist (sys'.readBy i) := by
  cases step_feeds hstep with
  | keep hsent hread =>
      rw [hsent, hread]
      exact h i
  | send j msg hinbox hself hother =>
      rw [hinbox]
      by_cases hij : j = i
      · subst hij
        rw [hself]
        exact Mailbox.sentBy_trySend_sublist (h j)
      · rw [Mailbox.sentBy_trySend_ne hij, hother i hij]
        exact h i
  | dropInbox hinbox hread =>
      rw [hinbox, hread]
      exact (Mailbox.sentBy_dropReceiver _ i).trans (h i)

/-- As long as there is room, everything that was read is in the inbox. -/
theorem eq_step (hroom : sys.inbox.Room) (hroom' : sys'.inbox.Room)
    (h : ∀ i, sys.inbox.sentBy i = sys.readBy i) (hstep : sys.step cfg action = some sys')
    (i : Nat) : sys'.inbox.sentBy i = sys'.readBy i := by
  cases step_feeds hstep with
  | keep hsent hread => rw [hsent, hread, h]
  | send j msg hinbox hself hother =>
      rw [hinbox]
      by_cases hij : j = i
      · subst hij
        rw [hself, Mailbox.sentBy_trySend_self hroom, h]
      · rw [Mailbox.sentBy_trySend_ne hij, hother i hij, h]
  | dropInbox hinbox =>
      rw [hinbox] at hroom'
      cases hroom'.2

/-- Whatever the clients, the connections and the application do: what arrives from one client are
messages it has called `send_unsequenced` with, in this order and each at most once per call. -/
theorem inbox_in_order (cfg : ServerConfig) (store : σ) (startSequence : UInt64) (sys : Intake σ)
    (hrun : Run (step cfg) (fun _ => True) (start store startSequence) sys) (i : Nat) :
    (sys.inbox.sentBy i).Sublist ((sys.calledBy i).map Message.onWire) := by
  obtain ⟨hinv, hsublist⟩ := hrun.invariant
    (I := fun sys => (∀ link ∈ sys.links, link.Inv) ∧
      ∀ i, (sys.inbox.sentBy i).Sublist (sys.readBy i))
    (fun _ => ⟨fun _ h => absurd h List.not_mem_nil, fun _ => List.Sublist.refl _⟩)
    fun _ _ _ _ h hstep _ => ⟨inv_step h.1 hstep, sublist_step h.2 hstep⟩
  refine (hsublist i).trans ?_
  cases hget : sys.links[i]? with
  | none =>
      rw [readBy, calledBy, hget]
      exact List.Sublist.refl _
  | some link =>
      obtain ⟨⟨n, hwrites⟩, ⟨k, hreads⟩⟩ := hinv link (List.mem_of_getElem? hget)
      rw [readBy, calledBy, hget]
      dsimp only
      rw [hreads.read]
      refine List.Sublist.map _ ((List.take_sublist _ _).trans ?_)
      exact (List.sublist_append_left _ _).trans hwrites.called

/-- A client whose first call times out; its message goes out with that of the second one. -/
def timedOut : List IntakeAction :=
  .accept { username := [], password := [], requestedSession := [], requestedSequence := 0 } ::
    List.map (.link 0)
      [.upload 64, .serverRead false, .proceed, .proceed, .warmup (some []), .proceed,
        .send (.call (emptyEvent .startOfMessages)), .send .enqueue, .flush 5, .send .fail,
        .send (.call (emptyEvent .endOfMessages)), .send .enqueue, .flush 64, .send .finish,
        .upload 64, .serverRead false, .serverRead false]

theorem inbox_in_order_timedOut :
    ∃ sys : Intake RingBufferSeqStore,
      Run (step openServer) (fun _ => True) (start (RingBufferSeqStore.withCapacity 4) 1) sys ∧
      sys.inbox.sentBy 0 = [emptyEvent .startOfMessages, emptyEvent .endOfMessages] ∧
      (sys.inbox.sentBy 0).Sublist ((sys.calledBy 0).map Message.onWire) := by
  have hexec : (exec (step openServer) (fun _ => True)
      (start (RingBufferSeqStore.withCapacity 4) 1) timedOut).map (fun sys => sys.inbox.sentBy 0) =
        some [emptyEvent .startOfMessages, emptyEvent .endOfMessages] := by
    decide +kernel
  obtain ⟨sys, hrun, hsent⟩ := exists_run_of_exec timedOut _ trivial hexec
  exact ⟨sys, hrun, hsent,
    inbox_in_order openServer (RingBufferSeqStore.withCapacity 4) 1 sys hrun 0⟩

/-- As long as the inbox has room: nothing that was read is missing, and once all bytes that a
client has written were read, the messages of all its calls that returned without error have
arrived, in their order. -/
theorem inbox_complete (cfg : ServerConfig) (store : σ) (startSequence : UInt64) (sys : Intake σ)
    (hrun : Run (step cfg) (fun sys => sys.inbox.Room) (start store startSequence) sys) (i : Nat)
    (link : Uplink σ) (hlink : sys.links[i]? = some link) :
    sys.inbox.sentBy i <+: link.sender.queued.map Message.onWire ∧
    (link.subscriber.phase ≠ .login → link.subscriber.phase ≠ .closed →
      link.framed.buffer = [] → link.onWay = [] →
      (link.sender.confirmed.map Message.onWire).Sublist (sys.inbox.sentBy i)) := by
  obtain ⟨hinv, heq⟩ := hrun.invariant
    (I := fun sys => (∀ link ∈ sys.links, link.Inv) ∧ ∀ i, sys.inbox.sentBy i = sys.readBy i)
    (fun _ => ⟨fun _ h => absurd h List.not_mem_nil, fun _ => rfl⟩)
    fun _ _ _ hroom h hstep hroom' => ⟨inv_step h.1 hstep, eq_step hroom hroom' h.2 hstep⟩
  have hlinkInv := hinv link (List.mem_of_getElem? hlink)
  rw [heq, readBy_of_get hlink]
  constructor
  · obtain ⟨k, hreads⟩ := hlinkInv.reads
    rw [hreads.read]
    exact (List.take_prefix k _).map _
  · exact hlinkInv.confirmed_read

theorem inbox_complete_timedOut :
    ∃ (sys : Intake RingBufferSeqStore) (link : Uplink RingBufferSeqStore),
      Run (step openServer) (fun sys => sys.inbox.Room)
        (start (RingBufferSeqStore.withCapacity 4) 1) sys ∧
      sys.links[0]? = some link ∧ link.sender.confirmed = [emptyEvent .endOfMessages] ∧
      sys.inbox.sentBy 0 <+: link.sender.queued.map Message.onWire ∧
      (link.sender.confirmed.map Message.onWire).Sublist (sys.inbox.sentBy 0) := by
  have hexec : (exec (step openServer) (fun sys => sys.inbox.Room)
      (start (RingBufferSeqStore.withCapacity 4) 1) timedOut).map (fun sys => sys.links.map
        fun link => (link.sender.confirmed, link.subscriber.phase, link.framed.buffer,
          link.onWay)) = some [([emptyEvent .endOfMessages], .live, [], [])] := by
    decide +kernel
  obtain ⟨sys, hrun, hlinks⟩ := exists_run_of_exec timedOut _ (by decide) hexec
  obtain ⟨link, hsingle, hlink⟩ := List.map_eq_singleton_iff.mp hlinks
  obtain ⟨hconfirmed, hphase, hbuffer, honWay⟩ :
      link.sender.confirmed = [emptyEvent .endOfMessages] ∧ link.subscriber.phase = .live ∧
        link.framed.buffer = [] ∧ link.onWay = [] := by
    simpa using hlink
  have hget : sys.links[0]? = some link := by rw [hsingle]; rfl
  obtain ⟨hle, harrived⟩ := inbox_complete openServer (RingBufferSeqStore.withCapacity 4) 1 sys
    hrun 0 link hget
  exact ⟨sys, link, hrun, hget, hconfirmed, hle,
    harrived (by simp [hphase]) (by simp [hphase]) hbuffer honWay⟩

end Intake

end Itch
