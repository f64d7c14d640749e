import Itch.Soup.Delivery
import Itch.Soup.Framing

/-!
# The client session

A client logs in, takes its sequence number from the reply and from then on counts the
sequenced packets it decodes.  The number is not on the wire, so it agrees with the one of
the server only as long as the server numbers every packet it sends.
-/

namespace Itch

open Lib

/-- A session after its login. -/
structure SoupConnection where
  session : Text
  /-- Sequence number of the next message. -/
  expectedSequence : UInt64
  /-- The end of the session was reported. -/
  sessionEnded : Bool
deriving Repr, DecidableEq

namespace SoupConnection

def nextExpectedSequence (c : SoupConnection) : UInt64 :=
  c.expectedSequence

/-- A message whose body does not decode is not counted. -/
def deliverSequenced (c : SoupConnection) (payload : Bytes) :
    Except SoupError Message × SoupConnection :=
  match Message.decode payload with
  | .error e => (.error (.protocol e), c)
  | .ok msg =>
      (.ok msg, { c with expectedSequence := Word64.saturatingSucc c.expectedSequence })

/-- What a packet is to the stream of messages; `none` to poll again. -/
def onPacket (c : SoupConnection) (p : SoupPacket) :
    Option (Except SoupError Message) × SoupConnection :=
  match p with
  | .sequencedData payload =>
      let (result, c) := c.deliverSequenced payload
      (some result, c)
  | .endOfSession => (some (.error .sessionEnded), { c with sessionEnded := true })
  | .serverHeartbeat | .debug _ => (none, c)
  | .loginAccepted _ | .loginRejected _ =>
      (some (.error (.unexpectedHandshakePacket p.tag)), c)
  | .loginRequest _ | .unsequencedData _ | .clientHeartbeat | .logoutRequest =>
      (some (.error (.soupFraming "client-direction packet on a server stream")), c)

/-- `poll_next` on the next item of the socket, where `none` is the end of the stream.  The
result is `none` to poll again and `some none` at the end of the messages. -/
def pollNext (c : SoupConnection) (item : Option (Except SoupError SoupPacket)) :
    Option (Option (Except SoupError Message)) × SoupConnection :=
  if c.sessionEnded then (some none, c)
  else match item with
    | none => (some none, c)
    | some (.error e) => (some (some (.error e)), c)
    | some (.ok p) =>
        let (result, c) := c.onPacket p
        (result.map some, c)

/-- The session after it has consumed some packets. -/
def consume (c : SoupConnection) (packets : List SoupPacket) : SoupConnection :=
  packets.foldl (fun c p => (c.onPacket p).2) c

/-- What a packet is to the handshake; `none` to wait for the next one. -/
def onReply (requestedSession : Text) : SoupPacket → Option (Except SoupError SoupConnection)
  | .loginAccepted acc =>
      if !requestedSession.isEmpty && Text.trim acc.session != Text.trim requestedSession then
        some (.error (.sessionMismatch requestedSession acc.session))
      else some (.ok {
        session := acc.session
        expectedSequence := acc.sequence
        sessionEnded := false })
  | .loginRejected reason => some (.error (.loginRejected reason))
  | .debug _ => none
  | p => some (.error (.unexpectedHandshakePacket p.tag))

/-- The handshake on the next item of the socket. -/
def onReplyItem (requestedSession : Text) :
    Option (Except SoupError SoupPacket) → Option (Except SoupError SoupConnection)
  | none => some (.error .prematureClose)
  | some (.error e) => some (.error e)
  | some (.ok p) => onReply requestedSession p

/-- The handshake on the packets of the server, with those that follow it.  `none` waits
for more. -/
def login (requestedSession : Text) :
    List SoupPacket → Option (Except SoupError (SoupConnection × List SoupPacket))
  | [] => none
  | p :: packets =>
      match onReply requestedSession p with
      | none => login requestedSession packets
      | some (.error e) => some (.error e)
      | some (.ok conn) => some (.ok (conn, packets))

/-- The session after a login and everything that follows it. -/
def after (requestedSession : Text) (packets : List SoupPacket) : Option SoupConnection :=
  match login requestedSession packets with
  | some (.ok (conn, rest)) => some (conn.consume rest)
  | _ => none

/-! ## Counting -/

theorem onPacket_dataPacket (c : SoupConnection) (msg : Message) :
    c.onPacket (dataPacket msg) = (some (.ok msg.onWire),
      { c with expectedSequence := Word64.saturatingSucc c.expectedSequence }) := by
  simp only [dataPacket, onPacket, deliverSequenced, Message.decode_wireImage]

theorem pollNext_dataPacket {c : SoupConnection} (h : c.sessionEnded = false) (msg : Message) :
    c.pollNext (some (.ok (dataPacket msg).onWire)) = (some (some (.ok msg.onWire)),
      { c with expectedSequence := Word64.saturatingSucc c.expectedSequence }) := by
  rw [show (dataPacket msg).onWire = dataPacket msg from rfl, pollNext, if_neg (by simp [h])]
  simp only [onPacket_dataPacket, Option.map_some]

/-- A session counts the messages it is sent. -/
theorem toNat_consume_dataPacket (c : SoupConnection) (messages : List Message) :
    (c.consume (messages.map dataPacket)).expectedSequence.toNat =
      min (c.expectedSequence.toNat + messages.length) (2 ^ 64 - 1) := by
  induction messages generalizing c with
  | nil =>
      have hle := Word64.le_max c.expectedSequence
      simp only [consume, List.map_nil, List.foldl_nil, List.length_nil]
      omega
  | cons msg messages ih =>
      have hsucc := Word64.toNat_saturatingSucc c.expectedSequence
      have hrest := ih (c.onPacket (dataPacket msg)).2
      rw [onPacket_dataPacket] at hrest
      simp only [consume, List.map_cons, List.foldl_cons, onPacket_dataPacket,
        List.length_cons] at hrest ⊢
      omega

/-- A positive reply starts a session at its number, if the session is the right one. -/
theorem expectedSequence_of_onReply {requestedSession : Text} {p : SoupPacket}
    {conn : SoupConnection} (h : onReply requestedSession p = some (.ok conn)) :
    ∃ acc, p = .loginAccepted acc ∧ conn.expectedSequence = acc.sequence ∧
      conn.sessionEnded = false := by
  cases p with
  | loginAccepted acc =>
      rw [onReply] at h
      split at h
      next => cases h
      next =>
        cases h
        exact ⟨acc, rfl, rfl, rfl⟩
  | _ => cases h

theorem onReply_loginAccepted_ne_none (requestedSession : Text) (acc : LoginAccepted) :
    onReply requestedSession (.loginAccepted acc) ≠ none := by
  rw [onReply]
  split
  next => exact Option.some_ne_none _
  next => exact Option.some_ne_none _

/-- A session that starts with a positive reply counts from its number on. -/
theorem toNat_after_loginAccepted {requestedSession : Text} {acc : LoginAccepted}
    {messages : List Message} {conn : SoupConnection}
    (h : after requestedSession ((SoupPacket.loginAccepted acc).onWire ::
      (messages.map dataPacket).map SoupPacket.onWire) = some conn) :
    conn.expectedSequence.toNat = min (acc.sequence.toNat + messages.length) (2 ^ 64 - 1) := by
  rw [List.map_map, show SoupPacket.onWire ∘ dataPacket = dataPacket from rfl, after, login] at h
  split at h
  next conn' rest heq =>
    cases h
    split at heq
    next hreply => exact absurd hreply (onReply_loginAccepted_ne_none _ _)
    next => cases heq
    next hreply =>
      cases heq
      obtain ⟨acc', hacc, hseq, -⟩ := expectedSequence_of_onReply hreply
      cases hacc
      rw [toNat_consume_dataPacket, hseq]
  next => cases h

/-! ## Packets that do not decode -/

/-- The session after some items of its socket. -/
def polls (c : SoupConnection) (items : List (Option (Except SoupError SoupPacket))) :
    SoupConnection :=
  items.foldl (fun c item => (c.pollNext item).2) c

/-- The body of a sequenced packet. -/
def payload : Option (Except SoupError SoupPacket) → Option Bytes
  | some (.ok (.sequencedData payload)) => some payload
  | _ => none

/-- The bodies of the sequenced packets received, until the end of the session. -/
def received : SoupConnection → List (Option (Except SoupError SoupPacket)) → List Bytes
  | _, [] => []
  | c, item :: items =>
      (if c.sessionEnded then [] else (payload item).toList) ++ received (c.pollNext item).2 items

def decodes (payload : Bytes) : Bool :=
  (Message.decode payload).isOk

/-- The first body that does not decode is the one after `k` others. -/
def FirstFailure (payloads : List Bytes) (k : Nat) : Prop :=
  (∀ payload ∈ payloads.take k, decodes payload) ∧
    ∃ payload, payloads[k]? = some payload ∧ ¬ decodes payload

theorem received_append (c : SoupConnection)
    (items later : List (Option (Except SoupError SoupPacket))) :
    c.received (items ++ later) = c.received items ++ (c.polls items).received later := by
  induction items generalizing c with
  | nil => rfl
  | cons item items ih =>
      rw [List.cons_append, received, received, ih, List.append_assoc]
      rfl

/-- An item moves the counter by the sequenced packets it holds that decode. -/
theorem toNat_pollNext (c : SoupConnection) (item : Option (Except SoupError SoupPacket)) :
    (c.pollNext item).2.expectedSequence.toNat =
      min (c.expectedSequence.toNat +
        (if c.sessionEnded then [] else (payload item).toList).countP decodes)
        (2 ^ 64 - 1) := by
  have hstays := (Nat.min_eq_left (Word64.le_max c.expectedSequence)).symm
  unfold pollNext
  split
  next => exact hstays
  next =>
    match item with
    | none | some (.error _) => exact hstays
    | some (.ok p) =>
        cases p with
        | sequencedData body =>
            simp only [onPacket, deliverSequenced, payload, Option.toList_some,
              List.countP_singleton]
            split
            next e hdecode =>
              have hbad : decodes body = false := by rw [decodes, hdecode]; rfl
              rw [hbad]
              exact hstays
            next msg hdecode =>
              have hgood : decodes body = true := by rw [decodes, hdecode]; rfl
              rw [hgood]
              exact Word64.toNat_saturatingSucc c.expectedSequence
        | _ => exact hstays

/-- A session counts the sequenced packets that decode. -/
theorem toNat_polls (c : SoupConnection) (items : List (Option (Except SoupError SoupPacket))) :
    (c.polls items).expectedSequence.toNat =
      min (c.expectedSequence.toNat + (c.received items).countP decodes) (2 ^ 64 - 1) := by
  induction items generalizing c with
  | nil => exact (Nat.min_eq_left (Word64.le_max c.expectedSequence)).symm
  | cons item items ih =>
      have hstep := toNat_pollNext c item
      have hrest := ih (c.pollNext item).2
      rw [received, List.countP_append]
      rw [polls, List.foldl_cons]
      rw [polls] at hrest
      omega

theorem FirstFailure.countP {payloads : List Bytes} {k : Nat} (h : FirstFailure payloads k) :
    payloads.countP decodes = k + (payloads.drop (k + 1)).countP decodes := by
  obtain ⟨hbefore, payload, hk, hbad⟩ := h
  obtain ⟨hlt, heq⟩ := List.getElem?_eq_some_iff.mp hk
  have hsplit : payloads = payloads.take k ++ payload :: payloads.drop (k + 1) := by
    rw [← heq, ← List.drop_eq_getElem_cons hlt, List.take_append_drop]
  have hcount := List.countP_eq_length.mpr hbefore
  rw [List.length_take_of_le hlt.le] at hcount
  conv => lhs; rw [hsplit]
  rw [List.countP_append, hcount, List.countP_cons_of_neg hbad]

/-- Once the packet after `k` others has failed to decode, the session stays at or below
its number exactly if no later packet decodes, or the counter is at the top. -/
theorem refetches_failed_iff {requestedSession : Text} {acc : LoginAccepted}
    {conn : SoupConnection} {k : Nat}
    (hlogin : onReply requestedSession (.loginAccepted acc) = some (.ok conn))
    (items : List (Option (Except SoupError SoupPacket)))
    (hfirst : FirstFailure (conn.received items) k) :
    (∀ n, k < (conn.received (items.take n)).length →
        (conn.polls (items.take n)).nextExpectedSequence.toNat ≤ acc.sequence.toNat + k) ↔
      (∀ payload ∈ (conn.received items).drop (k + 1), ¬ decodes payload) ∨
        2 ^ 64 ≤ acc.sequence.toNat + k + 1 := by
  obtain ⟨acc', hacc, hstart, -⟩ := expectedSequence_of_onReply hlogin
  cases hacc
  have hcount := hfirst.countP
  constructor
  · intro hstays
    by_contra hnot
    obtain ⟨hdecodes, htop⟩ := not_or.mp hnot
    -- the whole of the items is a point of the connection past the later packet
    obtain ⟨payload, hk, -⟩ := hfirst.2
    have hlt := (List.getElem?_eq_some_iff.mp hk).1
    have hall := hstays items.length (by rwa [List.take_length])
    rw [List.take_length, nextExpectedSequence, toNat_polls, hstart, hcount] at hall
    have hpos : 0 < ((conn.received items).drop (k + 1)).countP decodes := by
      rw [Nat.pos_iff_ne_zero, Ne, List.countP_eq_zero]
      exact hdecodes
    omega
  · intro hcond n _
    rw [nextExpectedSequence, toNat_polls, hstart]
    rcases hcond with hfail | htop
    · have hprefix : (conn.received (items.take n)).countP decodes ≤
          (conn.received items).countP decodes := by
        conv => rhs; rw [← List.take_append_drop n items, received_append, List.countP_append]
        exact Nat.le_add_right _ _
      rw [hcount, List.countP_eq_zero.mpr hfail] at hprefix
      omega
    · omega

/-- A session at number 1 whose second packet is empty, and so is one behind a heartbeat. -/
theorem refetches_failed_iff_empty :
    let conn : SoupConnection := { session := [], expectedSequence := 1, sessionEnded := false }
    let items := [some (.ok (dataPacket (emptyEvent .startOfMessages))),
      some (.ok (SoupPacket.sequencedData [])), some (.ok .serverHeartbeat),
      some (.ok (SoupPacket.sequencedData []))]
    FirstFailure (conn.received items) 1 ∧
      ((∀ n, 1 < (conn.received (items.take n)).length →
          (conn.polls (items.take n)).nextExpectedSequence.toNat ≤ (1 : UInt64).toNat + 1) ↔
        (∀ payload ∈ (conn.received items).drop 2, ¬ decodes payload) ∨
          2 ^ 64 ≤ (1 : UInt64).toNat + 1 + 1) := by
  intro conn items
  have hfirst : FirstFailure (conn.received items) 1 :=
    ⟨by decide +kernel, [], by decide +kernel, by decide⟩
  have hlogin : onReply [] (.loginAccepted { session := [], sequence := 1 }) = some (.ok conn) := by
    decide
  exact ⟨hfirst, refetches_failed_iff hlogin items hfirst⟩

/-- The packet with number 1 does not decode and the next one does: the session then
expects number 2, and a login from there never sees number 1 again. -/
theorem failed_packet_overtaken :
    ∃ conn items,
      onReply [] (.loginAccepted { session := [], sequence := 1 }) = some (.ok conn) ∧
      items = [some (.ok (SoupPacket.sequencedData [])),
        some (.ok (dataPacket (emptyEvent .startOfMessages)))] ∧
      FirstFailure (conn.received items) 0 ∧
      ¬ (conn.polls items).nextExpectedSequence.toNat ≤ (1 : UInt64).toNat + 0 := by
  refine ⟨_, _, rfl, rfl, ⟨fun _ h => absurd h List.not_mem_nil, [], ?_, ?_⟩, ?_⟩
  · decide
  · decide
  · decide +kernel

end SoupConnection

variable {σ : Type} [LawfulSeqStore σ]

open LawfulSeqStore (view latestSeq)

/-! ## The numbers of the server -/

/-- From any number that it has, the store has every number up to its latest. -/
def Contiguous (store : σ) : Prop :=
  ∀ a n : UInt64, view store a ≠ none → a ≤ n → n ≤ latestSeq store → view store n ≠ none

instance (store : σ) : Decidable (Contiguous store) :=
  decidable_of_iff (∀ a < (latestSeq store).toNat + 1, view store (UInt64.ofNat a) ≠ none →
      ∀ n < (latestSeq store).toNat + 1, a ≤ n → view store (UInt64.ofNat n) ≠ none) <| by
    have htop := Word64.le_max (latestSeq store)
    constructor
    · intro h a n ha hle hlatest
      rw [Word64.le_iff] at hle hlatest
      have hview := h a.toNat (by omega) (by rwa [UInt64.ofNat_toNat]) n.toNat (by omega) hle
      rwa [UInt64.ofNat_toNat] at hview
    · intro h a ha hview n hn hle
      have hto : ∀ k < (latestSeq store).toNat + 1, (UInt64.ofNat k).toNat = k := fun k hk =>
        Word64.toNat_ofNat (by omega)
      exact h _ _ hview (Word64.le_iff.mpr (by rw [hto a ha, hto n hn]; exact hle))
        (Word64.le_iff.mpr (by rw [hto n hn]; omega))

namespace Trace

variable {t : Trace σ} {r : UInt64}

/-- The sequence numbers left out behind the announced one: none if the store has that one when the
replay first reads it, and otherwise those up to the place where the connection joined the
channel. -/
def skipped (t : Trace σ) (r : UInt64) : Nat :=
  if (t.firstRead.bind fun store => view store r).isSome then 0
  else t.acceptSeq.toNat - r.toNat

theorem retained_iff : t.Retained r ↔ (t.firstRead.bind fun store => view store r).isSome := by
  unfold Retained
  cases t.firstRead with
  | none => simp
  | some store => simp [Option.isSome_iff_ne_none]

end Trace

/-- The messages after the warmup are numbered from the announced number on, but for the numbers
left out. -/
theorem Subscriber.Sound.toNat_sent {cfg : ServerConfig} {first : σ} {start : Nat}
    {srv : Server σ} {s : Subscriber σ} {r n : UInt64} {m : Message} {i : Nat}
    (h : s.Sound cfg first start srv) (hledger : srv.Ledger first start)
    (hr : s.trace.announced = some r) (hcontiguous : Contiguous srv.store)
    (hkeeps : s.trace.Retained r → view srv.store r ≠ none)
    (hi : s.trace.sent[i]? = some (n, m)) :
    n.toNat = min (r.toNat + s.trace.skipped r + i) (2 ^ 64 - 1) := by
  unfold Trace.skipped
  by_cases hretained : s.trace.Retained r
  · rw [if_pos (Trace.retained_iff.mp hretained)]
    exact h.numbered_sent hledger hr (fun k => hcontiguous r k (hkeeps hretained)) i _ hi
  · rw [if_neg (mt Trace.retained_iff.mpr hretained)]
    have hfollows := h.shape.follows hr
    have hempty : s.trace.replayed = [] := by
      by_contra hne
      exact hretained (hfollows.retained hne)
    rw [Trace.sent, hempty, List.nil_append] at hi
    have hseq := hfollows.forwarded i _ hi
    rw [hempty, List.length_nil] at hseq
    dsimp only at hseq
    omega

/-! ## The warmup -/

/-- The policy answers with the given messages, or fails. -/
def Action.Answers (warmup : List Message) : Action → Prop
  | .subscriber (.warmup (some messages)) => messages = warmup
  | _ => True

instance (warmup : List Message) : (action : Action) → Decidable (action.Answers warmup)
  | .subscriber (.warmup (some messages)) => inferInstanceAs (Decidable (messages = warmup))
  | .subscriber (.warmup none) | .subscriber (.packet _) | .subscriber .proceed
  | .subscriber .lagged | .subscriber .sendFailed | .accept | .ingest _ => .isTrue trivial

/-- The server with a warmup policy. -/
def System.stepWith {σ : Type} [SeqStore σ] (warmup : List Message) (cfg : ServerConfig)
    (sys : System σ) (action : Action) : Option (System σ) :=
  if action.Answers warmup then sys.step cfg action else none

namespace Subscriber

variable {cfg : ServerConfig} {srv : Server σ} {s s' : Subscriber σ} {start : Nat}
  {action : SubscriberAction} {warmup : List Message}

/-- How much of the warmup was sent, phase by phase. -/
def Warmed (warmup : List Message) (s : Subscriber σ) : Phase → Prop
  | .login | .readLatest _ | .accept _ _ | .warmup _ => s.trace.warmed = []
  | .warming _ messages => s.trace.warmed ++ messages = warmup
  | .replay | .replaying _ | .live => s.trace.warmed = warmup
  | .closed => s.trace.sent ≠ [] → s.trace.warmed = warmup

/-- All of it, once anything else was sent. -/
theorem Warmed.eq (h : s.Warmed warmup s.phase) (hshape : s.trace.Shape)
    (hcursor : s.Cursor start s.phase) (hsent : s.trace.sent ≠ []) : s.trace.warmed = warmup := by
  have hnone : s.trace.announced = none → s.trace.sent = [] := fun hannounced => by
    rw [Trace.sent, (hshape.quiet hannounced).replayed, (hshape.quiet hannounced).forwarded]
    rfl
  cases hphase : s.phase with
  | login | readLatest | accept =>
      rw [hphase] at hcursor
      exact absurd (hnone hcursor.1) hsent
  | warmup | warming =>
      rw [hphase] at hcursor
      obtain ⟨r, hreplays, hreplayed, -⟩ := hcursor
      refine absurd ?_ hsent
      rw [Trace.sent, hreplayed, hreplays.forwarded]
      rfl
  | replay | replaying | live =>
      rw [hphase] at h
      exact h
  | closed =>
      rw [hphase] at h
      exact h hsent

theorem Move.warmed (hmove : Move cfg srv s action s') (hshape : s.trace.Shape)
    (hcursor : s.Cursor start s.phase) (h : s.Warmed warmup s.phase)
    (hanswers : ∀ messages, action = .warmup (some messages) → messages = warmup) :
    s'.Warmed warmup s'.phase := by
  have hclosed := h.eq hshape hcursor
  cases hmove with
  | close => exact hclosed
  | ignore => exact h
  | passLogin hphase | readLatest hphase | accept hphase =>
      rw [hphase] at h
      exact h
  | @warmup latest messages hphase =>
      rw [hphase] at h
      show s.trace.warmed ++ messages = warmup
      rw [show s.trace.warmed = [] from h, hanswers messages rfl]
      rfl
  | @warm latest msg messages hphase =>
      rw [hphase] at h
      show s.trace.warmed ++ [msg] ++ messages = warmup
      rw [List.append_assoc]
      exact h
  | startReplay hphase | startLive hphase =>
      rw [hphase] at h
      exact (List.append_nil _).symm.trans h
  | readChunk hphase | endReplay hphase | replay hphase | nextChunk hphase =>
      rw [hphase] at h
      exact h
  | skip hphase | forward hphase =>
      show Warmed warmup _ s.phase
      rw [hphase] at h ⊢
      exact h

end Subscriber

namespace System

variable {sys sys' : System σ} {cfg : ServerConfig} {first : σ} {startSequence : UInt64}
  {warmup : List Message}

/-- A run with a policy is a run. -/
theorem run_of_stepWith {P : System σ → Prop}
    (hrun : Run (System.stepWith warmup cfg) P (System.start first startSequence) sys) :
    Run (System.step cfg) P (System.start first startSequence) sys := by
  induction hrun with
  | start hgood => exact .start hgood
  | step _ hstep hgood ih =>
      unfold stepWith at hstep
      split at hstep
      next => exact ih.step hstep hgood
      next => cases hstep

theorem warmed_of_run {P : System σ → Prop}
    (hrun : Run (System.stepWith warmup cfg) P (System.start first startSequence) sys) :
    ∀ s, sys.subscriber = some s → s.Warmed warmup s.phase := by
  induction hrun with
  | start => rintro _ ⟨⟩
  | @step sys sys' action hrun hstep _ ih =>
      have hsound := sound_of_run (run_of_stepWith hrun)
      unfold stepWith at hstep
      split at hstep
      next hanswers =>
        cases action with
        | ingest action =>
            obtain ⟨srv, -, rfl⟩ := Option.map_eq_some_iff.mp hstep
            exact ih
        | accept =>
            simp only [System.step] at hstep
            split at hstep
            next =>
              cases hstep
              rintro _ ⟨⟩
              rfl
            next => cases hstep
        | subscriber action =>
            simp only [System.step] at hstep
            split at hstep
            next => cases hstep
            next s hs =>
              obtain ⟨s', hs', rfl⟩ := Option.map_eq_some_iff.mp hstep
              rintro _ ⟨⟩
              have hof := hsound.subscriber s hs
              refine (Subscriber.step_move hs').warmed hof.shape hof.cursor (ih s hs) ?_
              rintro messages rfl
              exact hanswers
      next => cases hstep

end System

namespace Subscriber

variable {cfg : ServerConfig} {s : Subscriber σ} {r : UInt64}

omit [LawfulSeqStore σ] in
/-- The packets up to the `i`-th message after the warmup. -/
theorem Sends.take_out {i : Nat} (h : s.Sends cfg) (hr : s.trace.announced = some r)
    (hi : i < s.trace.sent.length) :
    s.out.take (s.trace.warmed.length + i + 2) =
      .loginAccepted { session := cfg.session, sequence := r } ::
        (s.trace.warmed ++ (s.trace.sent.take (i + 1)).map Prod.snd).map dataPacket := by
  obtain ⟨last, -, hout⟩ := h.exists_last
  rw [hout, Trace.packets, hr]
  have hmap : (s.trace.sent.map fun e => dataPacket e.2) =
      (s.trace.sent.map Prod.snd).map dataPacket := by simp
  have hcount : s.trace.warmed.length + i + 1 - s.trace.warmed.length = i + 1 := by omega
  rw [hmap, ← List.map_append, List.cons_append, List.take_succ_cons,
    List.take_append_of_le_length (by simp; omega), ← List.map_take, List.take_append,
    List.take_of_length_le (by omega), hcount, List.map_take]

end Subscriber

namespace System

variable {sys : System σ} {s : Subscriber σ} {r n : UInt64} {m : Message} {i : Nat}
  {requestedSession : Text} {conn : SoupConnection}

end System

end Itch
