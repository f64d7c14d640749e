import Itch.Compressed.Resilient

/-!
# Resuming a compressed feed

A compressed session counts messages, not packets, and the reconnecting client asks for the number
after the last message that it was given.  A server is said to serve a feed if its data packets hold
the messages of the feed in order from the number it announces, any number of them in each.  What
is in the buffer of the connection and what is still to come from its socket are then together the
rest of the feed.

So the messages returned are a segment of the feed, without a gap and without a message twice,
whatever the packets they came in and wherever the connections broke.
-/

namespace Itch

open Lib

variable {A : Type}

namespace CompressedSoupConnection

/-- A packet that carries none of the feed and is passed over. -/
def Filler : SoupPacket → Prop
  | .serverHeartbeat | .debug _ => True
  | _ => False

/-- The answers of a socket that serves a feed.  The packets of data hold its messages in order,
any number in each, up to an answer that is not a packet of the feed, after which anything may
follow. -/
inductive Serves (z : Zstd) : List Message → List SocketPoll → Prop
  | stalled {feed : List Message} : Serves z feed []
  | pending {feed : List Message} {polls : List SocketPoll} :
      Serves z feed polls → Serves z feed (.pending :: polls)
  | filler {feed : List Message} {p : SoupPacket} {polls : List SocketPoll} :
      Filler p → Serves z feed polls → Serves z feed (.ready (some (.ok p)) :: polls)
  | data {messages feed : List Message} {payload : Bytes} {polls : List SocketPoll} :
      decompressed z payload = .ok (wireImages messages) → (∀ m ∈ messages, m.FitsWire) →
      Serves z feed polls →
      Serves z (messages ++ feed) (.ready (some (.ok (.sequencedData payload))) :: polls)
  | breaks {feed : List Message} {item : Option (Except SoupError SoupPacket)}
      {polls : List SocketPoll} :
      (∀ p, item = some (.ok p) → ¬ FeedPacket p) → Serves z feed (.ready item :: polls)

/-- The messages that a connection still has to yield, from its buffer and then from its
socket. -/
inductive Queued (z : Zstd) : List Message → CompressedSoupConnection → List SocketPoll → Prop
  | mk {buffered feed : List Message} {c : CompressedSoupConnection} {polls : List SocketPoll} :
      c.Holds (wireImages buffered) → (∀ m ∈ buffered, m.FitsWire) → Serves z feed polls →
      Queued z (buffered ++ feed) c polls

/-- What a poll of such a connection leads to. -/
inductive Polled (z : Zstd) (feed : List Message) (c : CompressedSoupConnection) :
    Option (Option (Except CompressedError Message)) × CompressedSoupConnection ×
      List SocketPoll → Prop
  | waits {c' : CompressedSoupConnection} {polls : List SocketPoll} :
      c'.expectedSequence = c.expectedSequence → Queued z feed c' polls →
      Polled z feed c (none, c', polls)
  | yields {m : Message} {rest : List Message} {c' : CompressedSoupConnection}
      {polls : List SocketPoll} :
      feed = m :: rest → c'.expectedSequence = Word64.saturatingSucc c.expectedSequence →
      Queued z rest c' polls → Polled z feed c (some (some (.ok m)), c', polls)
  | breaks {e : SoupError} {c' : CompressedSoupConnection} {polls : List SocketPoll} :
      c'.expectedSequence = c.expectedSequence →
      Polled z feed c (some (some (.error (.soup e))), c', polls)
  | ends {c' : CompressedSoupConnection} {polls : List SocketPoll} :
      c'.expectedSequence = c.expectedSequence → Polled z feed c (some none, c', polls)

variable {z : Zstd} {feed : List Message} {c : CompressedSoupConnection}
  {polls : List SocketPoll}

theorem expectedSequence_of_drainOneMessage {m : Message} {c' : CompressedSoupConnection}
    (h : c.drainOneMessage = (.ok (some m), c')) :
    c'.expectedSequence = Word64.saturatingSucc c.expectedSequence := by
  rw [drainOneMessage] at h
  split at h
  next => cases h
  next =>
    split at h
    next =>
      cases h
      rfl
    next => cases h

/-- A packet that is not one of the feed ends the connection. -/
theorem onPacket_of_not_feedPacket {p : SoupPacket} (h : ¬ FeedPacket p) :
    ∃ e c', c.onPacket z p = (some (.error (.soup e)), c') ∧
      c'.expectedSequence = c.expectedSequence := by
  cases p with
  | sequencedData | serverHeartbeat | debug => exact (h trivial).elim
  | _ => exact ⟨_, _, rfl, rfl⟩

theorem Queued.of_serves (hc : c.Holds []) (h : Serves z feed polls) : Queued z feed c polls := by
  rw [← List.nil_append feed]
  exact .mk hc (List.forall_mem_nil _) h

theorem Polled.congr {c' : CompressedSoupConnection}
    {answer : Option (Option (Except CompressedError Message)) × CompressedSoupConnection ×
      List SocketPoll}
    (h : Polled z feed c' answer) (hsame : c'.expectedSequence = c.expectedSequence) :
    Polled z feed c answer := by
  cases h with
  | waits hseq hqueued => exact .waits (hseq.trans hsame) hqueued
  | yields hfeed hseq hqueued => exact .yields hfeed (hsame ▸ hseq) hqueued
  | breaks hseq => exact .breaks (hseq.trans hsame)
  | ends hseq => exact .ends (hseq.trans hsame)

theorem polled_of_buffered {m : Message} {buffered : List Message}
    (hc : c.Holds (wireImages (m :: buffered))) (hfits : ∀ m' ∈ m :: buffered, m'.FitsWire)
    (h : Serves z feed polls) : Polled z (m :: buffered ++ feed) c (pollLoop z c polls) := by
  obtain ⟨hm, hfits⟩ := List.forall_mem_cons.mp hfits
  rw [wireImages_cons] at hc
  obtain ⟨c', hdrain, hc'⟩ := drainOneMessage_message hc hm
  rw [pollLoop.eq_def, hdrain]
  exact .yields rfl (expectedSequence_of_drainOneMessage hdrain) (.mk hc' hfits h)

/-- A connection with an empty buffer goes through what the socket answers. -/
theorem polled_of_serves (h : Serves z feed polls) (hc : c.Holds []) :
    Polled z feed c (pollLoop z c polls) := by
  induction h generalizing c with
  | stalled =>
      rw [pollLoop, drainOneMessage_nil hc]
      exact .waits rfl (.of_serves hc .stalled)
  | pending hrest =>
      rw [pollLoop, drainOneMessage_nil hc]
      exact .waits rfl (.of_serves hc hrest)
  | @filler feed p polls hp _ ih =>
      rw [pollLoop, drainOneMessage_nil hc]
      have hpacket : c.onPacket z p = (none, c) := by
        cases p with
        | serverHeartbeat | debug => rfl
        | _ => exact hp.elim
      simp only [hpacket]
      exact ih hc
  | @data messages feed payload polls hdata hfits hrest ih =>
      obtain ⟨c', hpacket, hc', hseq⟩ : ∃ c', c.onPacket z (.sequencedData payload) = (none, c') ∧
          c'.Holds (wireImages messages) ∧ c'.expectedSequence = c.expectedSequence := by
        rcases decompressInto_eq (z := z) payload c.scratch with ⟨data, hok, hinto⟩ | ⟨e, he, -⟩
        · obtain rfl : data = _ := Except.ok.inj (hok.symm.trans hdata)
          exact ⟨{ c with scratch := wireImages messages, cursor := 0 },
            by rw [onPacket, hinto], ⟨hc.live, rfl⟩, rfl⟩
        · cases he.symm.trans hdata
      rw [pollLoop, drainOneMessage_nil hc]
      simp only [hpacket]
      refine Polled.congr ?_ hseq
      cases messages with
      | nil => exact ih hc'
      | cons m messages => exact polled_of_buffered hc' hfits hrest
  | @breaks feed item polls hitem =>
      rw [pollLoop.eq_def, drainOneMessage_nil hc]
      rcases item with _ | e | p
      · exact .ends rfl
      · exact .breaks rfl
      · obtain ⟨e, c', hpacket, hseq⟩ := onPacket_of_not_feedPacket (z := z) (c := c) (hitem p rfl)
        simp only [hpacket]
        exact .breaks hseq

theorem Queued.pollNext (h : Queued z feed c polls) : Polled z feed c (pollNext z (c, polls)) := by
  cases h with
  | @mk buffered feed _ _ hc hfits hserves =>
      rw [pollNext_of_holds hc]
      cases buffered with
      | nil => exact polled_of_serves hserves hc
      | cons m buffered => exact polled_of_buffered hc hfits hserves

end CompressedSoupConnection

namespace CompressedEvent

/-- The messages that the calls have returned. -/
def messages (log : List (CompressedEvent A)) : List Message :=
  log.filterMap fun
    | .returned (some (.ok msg)) => some msg
    | _ => none

/-- A login that was accepted is at a number of the feed, the one it asks for unless it asks for
none, and the connection serves the feed from there. -/
def Served (z : Zstd) (first : Nat) (feed : List Message) : CompressedEvent A → Prop
  | .attempt _ sequence (.ok conn) polls =>
      first ≤ conn.expectedSequence.toNat ∧
      (sequence ≠ 0 → conn.expectedSequence = sequence) ∧
      CompressedSoupConnection.Serves z (feed.drop (conn.expectedSequence.toNat - first)) polls
  | _ => True

/-- A login that was accepted is at the number after the messages returned before it, from
`first` on. -/
def AtNumber (first : Nat) (before : List (CompressedEvent A)) : CompressedEvent A → Prop
  | .attempt _ _ (.ok conn) _ => conn.expectedSequence.toNat = first + (messages before).length
  | _ => True

variable {log : List (CompressedEvent A)}

theorem messages_attempt {addr : A} {sequence : UInt64}
    {result : Except CompressedError CompressedSoupConnection} {polls : List SocketPoll} :
    messages (log ++ [.attempt addr sequence result polls]) = messages log :=
  (List.filterMap_append ..).trans (List.append_nil _)

theorem messages_read {result : Option (Except CompressedError Message)} {next : UInt64} :
    messages (log ++ [.read result next]) = messages log :=
  (List.filterMap_append ..).trans (List.append_nil _)

theorem messages_returned_none : messages (log ++ [.returned none]) = messages log :=
  (List.filterMap_append ..).trans (List.append_nil _)

theorem messages_returned_error {e : CompressedError} :
    messages (log ++ [.returned (some (.error e))]) = messages log :=
  (List.filterMap_append ..).trans (List.append_nil _)

theorem messages_returned_ok {msg : Message} :
    messages (log ++ [.returned (some (.ok msg))]) = messages log ++ [msg] :=
  List.filterMap_append ..

end CompressedEvent

namespace CompressedReconnect

open CompressedEvent CompressedSoupConnection

variable {z : Zstd} {cfg : ResilientSoupConfig} {addrs : List A} {s s' : CompressedReconnect A}
  {first : Nat} {feed : List Message}

/-- What a failed attempt leaves as it is. -/
structure SameFeed (s s' : CompressedReconnect A) : Prop where
  messages : messages s'.log = messages s.log
  logins : ∀ n, AtEach (AtNumber n) s.log → AtEach (AtNumber n) s'.log
  next : s'.client.nextSequence = s.client.nextSequence
  conn : s'.client.conn = s.client.conn
  polls : s'.polls = s.polls

theorem sameFeed_attemptFailed {addr : A} {e : CompressedError} {polls : List SocketPoll} :
    SameFeed s (attemptFailed cfg { s with
      client := { s.client with nextAddr := (s.client.nextAddr + 1) % addrs.length }
      log := s.log ++ [.attempt addr s.client.nextSequence (.error e) polls] } e) := by
  rw [attemptFailed]
  split
  next =>
    exact ⟨messages_returned_error.trans messages_attempt,
      fun n h => .concat (.concat h trivial) trivial, rfl, rfl, rfl⟩
  next => exact ⟨messages_attempt, fun n h => h.concat trivial, rfl, rfl, rfl⟩

theorem holds_of_handshake {session : Text} {polls rest : List SocketPoll}
    {conn : CompressedSoupConnection} (h : handshake session polls = (.ok conn, rest)) :
    conn.Holds [] := by
  fun_induction handshake session polls with
  | case1 | case3 | case4 => cases h
  | case2 _ ih => exact ih h
  | case5 _ _ _ ih => exact ih h
  | case6 p polls result hreply =>
      cases h
      cases p with
      | loginAccepted acc =>
          rw [onReply] at hreply
          split at hreply
          next => cases hreply
          next =>
            cases hreply
            exact holds_new _ _
      | _ => cases hreply

theorem holds_of_dialed {dial : CompressedDial} {polls : List SocketPoll}
    {conn : CompressedSoupConnection} (h : dialed cfg dial = (.ok conn, polls)) :
    conn.Holds [] := by
  cases dial with
  | fails e => cases h
  | sent answers => exact holds_of_handshake h

/-- Before the first login nothing has happened. -/
structure Fresh (s : CompressedReconnect A) : Prop where
  conn : s.client.conn = none
  nothing : messages s.log = []
  logins : ∀ first, AtEach (AtNumber first) s.log

/-- After the first login, at the `k`-th message of the feed. -/
structure Following (z : Zstd) (first : Nat) (feed : List Message) (k : Nat)
    (s : CompressedReconnect A) : Prop where
  segment : messages s.log = (feed.drop k).take (messages s.log).length
  logins : AtEach (AtNumber (first + k)) s.log
  next : s.client.nextSequence.toNat = first + k + (messages s.log).length
  conn : ∀ conn ∈ s.client.conn, conn.expectedSequence = s.client.nextSequence ∧
    Queued z (feed.drop (k + (messages s.log).length)) conn s.polls

theorem Following.congr {k : Nat} (h : Following z first feed k s)
    (hmessages : messages s'.log = messages s.log)
    (hlogins : AtEach (AtNumber (first + k)) s'.log)
    (hnext : s'.client.nextSequence = s.client.nextSequence)
    (hconn : ∀ conn ∈ s'.client.conn, conn.expectedSequence = s.client.nextSequence ∧
      Queued z (feed.drop (k + (messages s.log).length)) conn s'.polls) :
    Following z first feed k s' := by
  refine ⟨?_, hlogins, ?_, ?_⟩
  · rw [hmessages]
    exact h.segment
  · rw [hnext, hmessages]
    exact h.next
  · rw [hnext, hmessages]
    exact hconn

theorem Following.same {k : Nat} (h : Following z first feed k s) (hsame : SameFeed s s') :
    Following z first feed k s' := by
  refine h.congr hsame.messages (hsame.logins _ h.logins) hsame.next ?_
  rw [hsame.conn, hsame.polls]
  exact h.conn

theorem Fresh.same (h : Fresh s) (hsame : SameFeed s s') : Fresh s' :=
  ⟨hsame.conn.trans h.conn, hsame.messages.trans h.nothing,
    fun first => hsame.logins first (h.logins first)⟩

theorem Following.moves {k : Nat} (hfirst : 0 < first) (hroom : first + feed.length < 2 ^ 64)
    (h : Following z first feed k s) (hserved : ∀ event ∈ s'.log, event.Served z first feed)
    (hmoves : Moves z cfg addrs s s') : Following z first feed k s' := by
  cases hmoves with
  | answered => exact h.congr messages_returned_none (h.logins.concat trivial) rfl h.conn
  | called => exact h.congr rfl h.logins rfl h.conn
  | @loggedIn addr dial conn polls hcalling hconn haddr hdial =>
      obtain ⟨-, hsame, hserves⟩ := hserved _ (List.mem_append_right _ List.mem_cons_self)
      have hnext := h.next
      have hasked : s.client.nextSequence ≠ 0 := by
        intro hzero
        rw [hzero, UInt64.toNat_zero] at hnext
        omega
      have hseq := hsame hasked
      rw [hseq, hnext, Nat.add_assoc, Nat.add_sub_cancel_left] at hserves
      refine h.congr messages_attempt (h.logins.concat ?_) hseq ?_
      · rw [AtNumber, hseq, hnext]
      · rintro _ ⟨⟩
        exact ⟨hseq, .of_serves (holds_of_dialed hdial) hserves⟩
  | failed => exact h.same sameFeed_attemptFailed
  | @pending conn conn' polls hcalling hconn hpoll =>
      obtain ⟨hseq, hqueued⟩ := h.conn conn hconn
      have hpolled := hqueued.pollNext
      rw [hpoll] at hpolled
      cases hpolled with
      | waits hseq' hqueued' =>
          refine h.congr rfl h.logins rfl ?_
          rintro _ ⟨⟩
          exact ⟨hseq'.trans hseq, hqueued'⟩
  | @read conn conn' polls result hcalling hconn hpoll =>
      obtain ⟨hseq, hqueued⟩ := h.conn conn hconn
      have hpolled := hqueued.pollNext
      rw [hpoll] at hpolled
      cases hpolled with
      | @yields m rest _ _ hfeed hseq' hqueued' =>
          have hmessages : messages (s.onRead (some (.ok m)) conn' polls).log =
              messages s.log ++ [m] := messages_returned_ok.trans (by rw [messages_read])
          have hget : (feed.drop k)[(messages s.log).length]? = some m := by
            rw [List.getElem?_drop, ← List.head?_drop, hfeed, List.head?_cons]
          have hlt : k + (messages s.log).length < feed.length := by
            have hdrop := congrArg List.length hfeed
            rw [List.length_drop, List.length_cons] at hdrop
            omega
          have hcount : (messages s.log ++ [m]).length = (messages s.log).length + 1 :=
            List.length_append
          have hnext : conn'.expectedSequence.toNat =
              first + k + ((messages s.log).length + 1) := by
            have hold := h.next
            rw [hseq', hseq, Word64.toNat_saturatingSucc]
            omega
          refine ⟨?_, .concat (.concat h.logins trivial) trivial, ?_, ?_⟩
          · rw [hmessages, hcount, List.take_add_one, hget, ← h.segment]
            rfl
          · rw [hmessages, hcount]
            exact hnext
          · rintro _ ⟨⟩
            refine ⟨rfl, ?_⟩
            rw [hmessages, hcount, ← Nat.add_assoc, ← List.tail_drop, hfeed]
            exact hqueued'
      | @breaks e _ _ hseq' =>
          obtain ⟨terminated, hresult⟩ := s.client.onResult_soup conn' e
          rw [onRead, hresult]
          refine h.congr (messages_returned_error.trans messages_read)
            (.concat (.concat h.logins trivial) trivial) (hseq'.trans hseq) ?_
          rintro _ ⟨⟩
      | ends hseq' =>
          refine h.congr messages_read (h.logins.concat trivial) (hseq'.trans hseq) ?_
          rintro _ ⟨⟩

/-- The first login settles where in the feed the client starts. -/
theorem Fresh.moves (h : Fresh s) (hserved : ∀ event ∈ s'.log, event.Served z first feed)
    (hmoves : Moves z cfg addrs s s') : Fresh s' ∨ ∃ k, Following z first feed k s' := by
  cases hmoves with
  | answered =>
      exact .inl ⟨h.conn, messages_returned_none.trans h.nothing,
        fun first => (h.logins first).concat trivial⟩
  | called => exact .inl ⟨h.conn, h.nothing, h.logins⟩
  | @loggedIn addr dial conn polls hcalling hconn haddr hdial =>
      obtain ⟨hle, -, hserves⟩ := hserved _ (List.mem_append_right _ List.mem_cons_self)
      have hmessages : messages (s.log ++
          [.attempt addr s.client.nextSequence (.ok conn) polls]) = [] :=
        messages_attempt.trans h.nothing
      have hnumber : conn.expectedSequence.toNat =
          first + (conn.expectedSequence.toNat - first) := (Nat.add_sub_of_le hle).symm
      refine .inr ⟨conn.expectedSequence.toNat - first, ?_, (h.logins _).concat ?_, ?_, ?_⟩
      · rw [hmessages]
        rfl
      · rw [AtNumber, h.nothing]
        exact hnumber
      · rw [hmessages]
        exact hnumber
      · rintro _ ⟨⟩
        rw [hmessages]
        exact ⟨rfl, .of_serves (holds_of_dialed hdial) hserves⟩
  | failed => exact .inl (h.same sameFeed_attemptFailed)
  | pending _ hconn =>
      rw [h.conn] at hconn
      cases hconn
  | read _ hconn =>
      rw [h.conn] at hconn
      cases hconn

theorem log_grows (hmoves : Moves z cfg addrs s s') : s.log <+: s'.log := by
  cases hmoves with
  | answered => exact List.prefix_append ..
  | called | pending => exact List.prefix_rfl
  | loggedIn => exact List.prefix_append ..
  | failed =>
      rw [attemptFailed]
      split
      next => exact (List.prefix_append ..).trans (List.prefix_append ..)
      next => exact List.prefix_append ..
  | @read conn conn' polls result =>
      cases result with
      | none => exact List.prefix_append ..
      | some r => exact (List.prefix_append ..).trans (List.prefix_append ..)

/-- What is said of every event of a log is said all along the run. -/
theorem run_of_log {C : CompressedEvent A → Prop}
    (hrun : Run (step z cfg addrs) (fun _ => True) (start cfg) s) (h : ∀ event ∈ s.log, C event) :
    Run (step z cfg addrs) (fun s => ∀ event ∈ s.log, C event) (start cfg) s := by
  induction hrun with
  | start => exact .start (List.forall_mem_nil _)
  | step _ hstep _ ih =>
      exact (ih fun event hevent => h event ((log_grows (step_moves hstep)).subset hevent)).step
        hstep h

/-- A compressed feed is delivered exactly once across reconnects.  If every login that was
accepted serves the feed from the number it announces, the one asked for, the messages returned
are a segment of the feed, and each login is at the number after the messages returned before
it. -/
theorem compressed_feed_resumed (z : Zstd) (cfg : ResilientSoupConfig) (addrs : List A)
    (first : Nat) (feed : List Message) (hfirst : 0 < first)
    (hroom : first + feed.length < 2 ^ 64)
    (hrun : Run (step z cfg addrs) (fun _ => True) (start cfg) s)
    (hserved : ∀ event ∈ s.log, event.Served z first feed) :
    ∃ k, messages s.log = (feed.drop k).take (messages s.log).length ∧
      ∀ before addr sequence conn polls after,
        s.log = before ++ .attempt addr sequence (.ok conn) polls :: after →
        conn.expectedSequence.toNat = first + k + (messages before).length := by
  have hinv : Fresh s ∨ ∃ k, Following z first feed k s := by
    refine (run_of_log hrun hserved).invariant
      (I := fun s => Fresh s ∨ ∃ k, Following z first feed k s)
      (fun _ => .inl ⟨rfl, rfl, fun _ => .nil⟩) ?_
    rintro s action s' _ hinv hstep hserved
    have hmoves := step_moves hstep
    rcases hinv with hfresh | ⟨k, hfollowing⟩
    · exact hfresh.moves hserved hmoves
    · exact .inr ⟨k, hfollowing.moves hfirst hroom hserved hmoves⟩
  rcases hinv with hfresh | ⟨k, hfollowing⟩
  · refine ⟨0, by rw [hfresh.nothing]; rfl, ?_⟩
    intro before addr sequence conn polls after hlog
    exact hfresh.logins _ before _ after hlog
  · refine ⟨k, hfollowing.segment, ?_⟩
    intro before addr sequence conn polls after hlog
    exact hfollowing.logins before _ after hlog

theorem served_sampleLog : ∀ event ∈ sampleLog,
    event.Served stored 1 [.sampleDelete, .sampleDelete, .sampleDelete] := by
  have hlast : Serves stored [.sampleDelete] [sampleData [.sampleDelete]] :=
    @Serves.data stored [.sampleDelete] [] _ [] rfl (by decide) .stalled
  have hfirst : Serves stored ([.sampleDelete, .sampleDelete] ++ [.sampleDelete])
      [.pending, sampleData [.sampleDelete, .sampleDelete], .ready none] :=
    .pending (.data rfl (by decide) (.breaks (by rintro p ⟨⟩)))
  simpa [sampleLog, CompressedEvent.Served, new] using And.intro hfirst hlast

theorem compressed_feed_resumed_sample :
    ∃ s, Run (step stored sampleConfig [()]) (fun _ => True) (start sampleConfig) s ∧
      s.log = sampleLog ∧
      ∃ k, messages s.log = ([.sampleDelete, .sampleDelete, .sampleDelete].drop k).take
        (messages s.log).length := by
  obtain ⟨s, hrun, hlog⟩ := exists_run_of_exec _ _ trivial exec_sampleActions
  obtain ⟨k, hsegment, -⟩ := compressed_feed_resumed stored sampleConfig [()] 1 _ (by decide)
    (by decide) hrun (hlog ▸ served_sampleLog)
  exact ⟨s, hrun, hlog, k, hsegment⟩

end CompressedReconnect

end Itch
