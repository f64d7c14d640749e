import Itch.Soup.LinkState

/-!
# Delivery end to end

The client returns the messages of the log from the number of its first login on, in
order and each once, whatever happens to its connections.
-/

namespace Itch

open Lib

variable {σ : Type} [LawfulSeqStore σ]

open LawfulSeqStore (view latestSeq)

/-! ## The invariant of a connection -/

namespace Link

structure Inv (cfg : ServerConfig) (first : σ) (start : Nat) (srv : Server σ) (link : Link σ) :
    Prop where
  sound : link.subscriber.Sound cfg first start srv
  plain : link.subscriber.Plain link.login.requestedSequence
  /-- The request is in the buffer of the server or on its way there. -/
  request : link.subscriber.phase = .login → link.serverFramed.codec = .new ∧
    link.serverFramed.buffer ++ link.request = (SoupPacket.loginRequest link.login).frame

/-- The client is logged in at `r` and has taken `k` messages since. -/
structure Following (client : ResilientSoupClient) (link : Link σ) (conn : SoupConnection)
    (r : UInt64) (k : Nat) : Prop where
  announced : link.subscriber.trace.announced = some r
  le_sent : k ≤ link.subscriber.trace.sent.length
  expected : conn.expectedSequence.toNat = r.toNat + k
  sessionEnded : conn.sessionEnded = false
  nextSequence : client.nextSequence = conn.expectedSequence
  queued : link.Queued (k + 1)

/-- How far the client has come on the connection. -/
inductive Progress (client : ResilientSoupClient) (link : Link σ) : Prop where
  | handshake : link.conn = none → client.nextSequence = link.login.requestedSequence →
      link.Queued 0 → Progress client link
  | following {conn : SoupConnection} {r : UInt64} {k : Nat} : link.conn = some conn →
      link.Following client conn r k → Progress client link

variable {cfg : ServerConfig} {first : σ} {start : Nat} {srv srv' : Server σ} {link : Link σ}
  {client : ResilientSoupClient} {s : Subscriber σ} {action : SubscriberAction}

theorem inv_opened (hledger : srv.Ledger first start) (login : LoginRequest) :
    (Link.opened srv login).Inv cfg first start srv where
  sound := Subscriber.sound_accept hledger
  plain := Subscriber.plain_accept
  request _ := ⟨rfl, rfl⟩

omit [LawfulSeqStore σ] in
theorem progress_opened {login : LoginRequest}
    (h : client.nextSequence = login.requestedSequence) :
    (Link.opened srv login).Progress client :=
  .handshake rfl h ⟨Nat.le_refl _, Nat.le_refl _, rfl, rfl⟩

theorem Inv.move {serverFramed : Framed} (h : link.Inv cfg first start srv)
    (hledger : srv.Ledger first start) (hmove : Subscriber.Move cfg srv link.subscriber action s)
    (hreq : ∀ req, action = .packet (some (.ok (.loginRequest req))) →
      link.subscriber.phase = .login → req.requestedSequence = link.login.requestedSequence)
    (hwarm : ∀ messages, action = .warmup (some messages) → messages = []) :
    Inv cfg first start srv { link with subscriber := s, serverFramed := serverFramed } where
  sound := h.sound.move hledger hmove
  plain := h.plain.move hmove hreq hwarm
  request hphase := absurd hphase hmove.phase_ne_login

theorem Progress.move {serverFramed : Framed} (h : link.Progress client)
    (hinv : link.Inv cfg first start srv)
    (hmove : Subscriber.Move cfg srv link.subscriber action s) :
    Progress client { link with subscriber := s, serverFramed := serverFramed } := by
  obtain ⟨ps, hout⟩ := hmove.out_append
  cases h with
  | handshake hconn hnext hqueued => exact .handshake hconn hnext (hqueued.grow hout)
  | following hconn h =>
      exact .following hconn {
        announced := hmove.announced_eq hinv.sound.cursor h.announced
        le_sent := h.le_sent.trans hmove.length_sent_le
        expected := h.expected
        sessionEnded := h.sessionEnded
        nextSequence := h.nextSequence
        queued := h.queued.grow hout }

theorem Inv.move_server (h : link.Inv cfg first start srv) (hmove : Server.Move srv srv') :
    link.Inv cfg first start srv' :=
  ⟨h.sound.move_server hmove, h.plain, h.request⟩

theorem Inv.upload (h : link.Inv cfg first start srv) (count : Nat) :
    (link.upload count).Inv cfg first start srv where
  sound := h.sound
  plain := h.plain
  request hphase := by
    obtain ⟨hcodec, hbytes⟩ := h.request hphase
    refine ⟨hcodec, ?_⟩
    simp only [Link.upload, Framed.receive]
    rw [List.append_assoc, List.take_append_drop]
    exact hbytes

omit [LawfulSeqStore σ] in
theorem Progress.upload (h : link.Progress client) (count : Nat) :
    (link.upload count).Progress client := by
  cases h with
  | handshake hconn hnext hqueued => exact .handshake hconn hnext (hqueued.upload count)
  | following hconn h =>
      exact .following hconn ⟨h.announced, h.le_sent, h.expected, h.sessionEnded, h.nextSequence,
        h.queued.upload count⟩

omit [LawfulSeqStore σ] in
theorem Progress.download (h : link.Progress client) (count : Nat) :
    (link.download count).Progress client := by
  cases h with
  | handshake hconn hnext hqueued => exact .handshake hconn hnext (hqueued.download count)
  | following hconn h =>
      exact .following hconn ⟨h.announced, h.le_sent, h.expected, h.sessionEnded, h.nextSequence,
        h.queued.download count⟩

/-- A login request the server reads is the one the client wrote. -/
theorem Inv.request_of_poll {atEnd : Bool} {item : Option (Except SoupError SoupPacket)}
    {framed : Framed} {req : LoginRequest} (h : link.Inv cfg first start srv)
    (hphase : link.subscriber.phase = .login)
    (hpoll : link.serverFramed.poll atEnd = some (item, framed))
    (hitem : item = some (.ok (.loginRequest req))) :
    req.requestedSequence = link.login.requestedSequence := by
  obtain ⟨hcodec, hbytes⟩ := h.request hphase
  have hframed : link.serverFramed = { codec := .new, buffer := link.serverFramed.buffer } := by
    rw [← hcodec]
  rw [hframed] at hpoll
  have hpart : link.serverFramed.buffer <+: wire [.loginRequest link.login] := by
    rw [wire_cons, wire_nil, List.append_nil, ← hbytes]
    exact List.prefix_append _ _
  have hcut := Framed.poll_cut (fun p hp => List.mem_singleton.mp hp ▸ fits_loginRequest _)
    hpart hpoll
  rcases hcut with (hnone | hio) | ⟨p, rest, buffer', hcons, -, hok, -⟩
  · exact absurd (hnone.symm.trans hitem) nofun
  · exact absurd (hio.symm.trans hitem) nofun
  · obtain ⟨rfl, -⟩ := List.cons.inj hcons
    have heq := hok.symm.trans hitem
    cases heq
    rfl

end Link

/-! ## The invariant of the network -/

namespace Net

/-- What the client has returned since it logged in at `r` for the first time. -/
structure History (first : σ) (net : Net σ) (r : UInt64) : Prop where
  ne_zero : r ≠ 0
  nextSequence : net.client.nextSequence.toNat = r.toNat + net.messages.length
  stored : ∀ i m, net.messages[i]? = some m →
    ∃ n : UInt64, n.toNat = r.toNat + i ∧ net.server.WasStored first n m

structure Inv (cfg : ServerConfig) (first : σ) (start : Nat) (net : Net σ) : Prop where
  ledger : net.server.Ledger first start
  link : ∀ link, net.link = some link → link.Inv cfg first start net.server
  progress : ∀ link, net.link = some link → link.Progress net.client
  /-- Nothing is returned before the first login. -/
  before : net.firstAccepted = none →
    net.messages = [] ∧ ∀ link, net.link = some link → link.conn = none
  after : ∀ r, net.firstAccepted = some r → net.History first r

/-- The store has a message under every number from one up to the latest, and all of them fit the
wire format. -/
def KeepsLog (net : Net σ) : Prop :=
  ∀ n : UInt64, n ≠ 0 → n ≤ latestSeq net.server.store →
    ∃ m, view net.server.store n = some m ∧ m.FitsWire

/-- The largest sequence number was not stored. -/
def BelowMax (net : Net σ) : Prop :=
  latestSeq net.server.store ≠ Word64.max

instance (net : Net σ) : Decidable net.BelowMax :=
  inferInstanceAs (Decidable (latestSeq net.server.store ≠ Word64.max))

instance (net : Net σ) : Decidable net.KeepsLog :=
  decidable_of_iff (∀ i < (latestSeq net.server.store).toNat,
      (view net.server.store (UInt64.ofNat (i + 1))).any (·.FitsWire) = true) <| by
    have htop := Word64.le_max (latestSeq net.server.store)
    simp only [Option.any_eq_true, decide_eq_true_eq]
    constructor
    · intro h n hne hle
      have hpos : 0 < n.toNat := Nat.pos_of_ne_zero fun heq => hne (Word64.eq_iff.mpr heq)
      rw [Word64.le_iff] at hle
      have hview := h (n.toNat - 1) (by omega)
      rwa [Nat.sub_add_cancel hpos, UInt64.ofNat_toNat] at hview
    · intro h i hi
      have hn : (UInt64.ofNat (i + 1)).toNat = i + 1 := Word64.toNat_ofNat (by omega)
      refine h _ (fun hzero => ?_) (Word64.le_iff.mpr (by omega))
      rw [hzero, UInt64.toNat_zero] at hn
      omega

variable {cfg : ServerConfig} {rcfg : ResilientSoupConfig} {first : σ} {start : Nat}
  {net net' : Net σ} {link link' : Link σ}

theorem inv_start (cfg : ServerConfig) (rcfg : ResilientSoupConfig) (first : σ)
    (startSequence : UInt64) :
    (Net.start rcfg first startSequence).Inv cfg first
      (Server.start first startSequence).nextSeq.toNat where
  ledger := Server.ledger_start first startSequence
  link _ h := nomatch h
  progress _ h := nomatch h
  before _ := ⟨rfl, fun _ h => nomatch h⟩
  after _ h := nomatch h

/-- A step on the connection that leaves the session of the client alone. -/
theorem Inv.set_link (h : net.Inv cfg first start) (hlink : net.link = some link)
    (hinv : link'.Inv cfg first start net.server) (hprogress : link'.Progress net.client)
    (hconn : link'.conn = link.conn) : Inv cfg first start { net with link := some link' } where
  ledger := h.ledger
  link := by
    rintro _ ⟨⟩
    exact hinv
  progress := by
    rintro _ ⟨⟩
    exact hprogress
  before hnone := by
    refine ⟨(h.before hnone).1, ?_⟩
    rintro _ ⟨⟩
    exact hconn.trans ((h.before hnone).2 link hlink)
  after r hr := ⟨(h.after r hr).ne_zero, (h.after r hr).nextSequence, (h.after r hr).stored⟩

/-- The client is without a connection and has returned at most an error more. -/
theorem Inv.disconnect {client : ResilientSoupClient} {errors : List SoupError}
    (h : net.Inv cfg first start) (hnext : client.nextSequence = net.client.nextSequence) :
    Inv cfg first start { net with
      client := client
      link := none
      returned := net.returned ++ errors.map Except.error } := by
  have hmessages : messages { net with
      client := client
      link := none
      returned := net.returned ++ errors.map Except.error } = net.messages := by
    simp [messages, List.filterMap_append, Except.toOption]
  exact {
    ledger := h.ledger
    link := fun _ hlink => nomatch hlink
    progress := fun _ hlink => nomatch hlink
    before := fun hnone => ⟨hmessages.trans (h.before hnone).1, fun _ hlink => nomatch hlink⟩
    after := fun r hr => by
      have hhistory := h.after r hr
      refine ⟨hhistory.ne_zero, ?_, ?_⟩
      · rw [hmessages, ← hhistory.nextSequence]
        exact congrArg UInt64.toNat hnext
      · rw [hmessages]
        exact hhistory.stored }

theorem Inv.attemptFailed (h : net.Inv cfg first start) (e : SoupError) :
    (net.attemptFailed rcfg e).Inv cfg first start := by
  have hdisconnect : Inv cfg first start { net with
      client := (net.client.attemptFailed rcfg e).1
      link := none
      returned := net.returned ++ (net.client.attemptFailed rcfg e).2.toList.map Except.error } :=
    h.disconnect rfl
  have herrors : (net.client.attemptFailed rcfg e).2.toList.map Except.error =
      (((net.client.attemptFailed rcfg e).2.map Except.error).toList :
        List (Except SoupError Message)) := by
    cases (net.client.attemptFailed rcfg e).2 <;> rfl
  rw [herrors] at hdisconnect
  exact hdisconnect

/-- The session ends with its number unchanged. -/
theorem Inv.lose {conn : SoupConnection} {result : Option (Except SoupError Message)}
    (h : net.Inv cfg first start) (hnext : conn.expectedSequence = net.client.nextSequence)
    (hresult : result = none ∨ result = some (.error .io) ∨
      result = some (.error .sessionEnded)) :
    (net.onResult link conn result).Inv cfg first start := by
  have hdisconnect : ∀ errors : List SoupError, Inv cfg first start { net with
      client := { net.client with nextSequence := conn.nextExpectedSequence }
      link := none
      returned := net.returned ++ errors.map Except.error } := fun _ => h.disconnect hnext
  rcases hresult with rfl | rfl | rfl
  · exact hdisconnect []
  · exact hdisconnect [.io]
  · exact hdisconnect [.sessionEnded]

/-! ## What the client reads -/

variable {framed : Framed} {item : Option (Except SoupError SoupPacket)} {conn : SoupConnection}
  {r : UInt64} {k : Nat}

omit [LawfulSeqStore σ] in
theorem poll_failed {e : SoupError} (hconn : link.conn = none)
    (h : SoupConnection.onReplyItem (rcfg.requestedSession.getD []) item = some (.error e)) :
    net.poll rcfg { link with framed := framed } item = net.attemptFailed rcfg e := by
  unfold Net.poll
  split
  next => simp only [h]
  next hsome => cases hconn.symm.trans hsome

omit [LawfulSeqStore σ] in
theorem poll_accepted (hconn : link.conn = none)
    (h : SoupConnection.onReplyItem (rcfg.requestedSession.getD []) item = some (.ok conn)) :
    net.poll rcfg { link with framed := framed } item = { net with
      client := net.client.loggedIn conn
      link := some { link with framed := framed, conn := some conn }
      firstAccepted := net.firstAccepted.or (some conn.expectedSequence) } := by
  unfold Net.poll
  split
  next => simp only [h]
  next hsome => cases hconn.symm.trans hsome

omit [LawfulSeqStore σ] in
theorem poll_result {conn' : SoupConnection} {result : Option (Except SoupError Message)}
    (hconn : link.conn = some conn) (h : conn.pollNext item = (some result, conn')) :
    net.poll rcfg { link with framed := framed } item =
      net.onResult { link with framed := framed } conn' result := by
  unfold Net.poll
  split
  next hnone => cases hconn.symm.trans hnone
  next conn₀ hsome =>
    obtain rfl := Option.some.inj (hconn.symm.trans hsome)
    simp only [h]

/-- The connection ends or fails. -/
theorem Inv.poll_broken (h : net.Inv cfg first start) (hlink : net.link = some link)
    (hitem : item = none ∨ item = some (.error .io)) :
    (net.poll rcfg { link with framed := framed } item).Inv cfg first start := by
  cases h.progress link hlink with
  | handshake hconn =>
      rcases hitem with rfl | rfl
      · rw [poll_failed hconn rfl]
        exact h.attemptFailed .prematureClose
      · rw [poll_failed hconn rfl]
        exact h.attemptFailed .io
  | @following conn r k hconn hfollow =>
      have hended := hfollow.sessionEnded
      rcases hitem with rfl | rfl
      · rw [poll_result hconn (show _ = (some none, conn) by simp [SoupConnection.pollNext, hended])]
        exact h.lose hfollow.nextSequence.symm (.inl rfl)
      · rw [poll_result hconn (show _ = (some (some (.error .io)), conn) by
          simp [SoupConnection.pollNext, hended])]
        exact h.lose hfollow.nextSequence.symm (.inr (.inl rfl))

/-- A message the server sends is the one of the log, under the number that is its turn. -/
theorem Inv.entry {e : UInt64 × Message} (h : net.Inv cfg first start)
    (hkeeps : net.KeepsLog ∧ net.BelowMax)
    (hlink : net.link = some link) (hr : link.subscriber.trace.announced = some r)
    (he : link.subscriber.trace.sent[k]? = some e) :
    e.1.toNat = r.toNat + k ∧ e.1.toNat < 2 ^ 64 - 1 ∧ e.2.FitsWire ∧
      net.server.WasStored first e.1 e.2 := by
  have hsound := (h.link link hlink).sound
  obtain ⟨hlog, hmax⟩ := hkeeps
  have hlt : (latestSeq net.server.store).toNat < 2 ^ 64 - 1 :=
    Nat.lt_sub_of_add_lt (Word64.succ_lt_of_ne_max hmax)
  have hr0 : r ≠ 0 := ((h.link link hlink).plain.announced r hr).1
  have hpos : 0 < r.toNat := Nat.pos_of_ne_zero fun heq => hr0 (Word64.eq_iff.mpr heq)
  have hview : ∀ n : UInt64, r ≤ n → n ≤ latestSeq net.server.store →
      ∃ m, view net.server.store n = some m ∧ m.FitsWire := by
    intro n hle hlatest
    rw [Word64.le_iff] at hle
    refine hlog n (fun hzero => ?_) hlatest
    rw [hzero, UInt64.toNat_zero] at hle
    omega
  have hkeep : ∀ n : UInt64, r ≤ n → n ≤ latestSeq net.server.store →
      view net.server.store n ≠ none := by
    intro n hle hlatest
    obtain ⟨m, hm, -⟩ := hview n hle hlatest
    simp [hm]
  have hseq := hsound.numbered_sent h.ledger hr hkeep k e he
  have hwas := hsound.files.sent e (List.mem_of_getElem? he)
  have hle := h.ledger.le_latest _ _ hwas
  obtain ⟨m, hm, hfits⟩ := hview e.1 (Word64.le_iff.mpr (by omega)) (Word64.le_iff.mpr hle)
  refine ⟨by omega, by omega, ?_, hwas⟩
  rcases h.ledger.view_of_wasStored hlt _ _ hwas with hsome | hnone
  · rw [← Option.some.inj (hm.symm.trans hsome)]
    exact hfits
  · exact absurd (hm.symm.trans hnone) (Option.some_ne_none m)

/-- A message is returned. -/
theorem Inv.deliver {e : UInt64 × Message} (h : net.Inv cfg first start)
    (hkeeps : net.KeepsLog ∧ net.BelowMax)
    (hlink : net.link = some link) (hconn : link.conn = some conn)
    (hfollow : link.Following net.client conn r k)
    (he : link.subscriber.trace.sent[k]? = some e)
    (hqueued : Link.Queued { link with framed := framed } (k + 2)) :
    (net.onResult { link with framed := framed }
      { conn with expectedSequence := Word64.saturatingSucc conn.expectedSequence }
      (some (.ok e.2))).Inv cfg first start := by
  obtain ⟨hseq, hlt, -, hwas⟩ := h.entry hkeeps hlink hfollow.announced he
  have hexpected := hfollow.expected
  have hsucc := Word64.toNat_saturatingSucc conn.expectedSequence
  have hlinkInv := h.link link hlink
  have hmessages : messages (net.onResult { link with framed := framed }
      { conn with expectedSequence := Word64.saturatingSucc conn.expectedSequence }
      (some (.ok e.2))) = net.messages ++ [e.2] := by
    simp [messages, Net.onResult, ResilientSoupClient.onResult, Except.toOption]
  exact {
    ledger := h.ledger
    link := by
      rintro _ ⟨⟩
      exact ⟨hlinkInv.sound, hlinkInv.plain, hlinkInv.request⟩
    progress := by
      rintro _ ⟨⟩
      exact .following rfl {
        announced := hfollow.announced
        le_sent := (List.getElem?_eq_some_iff.mp he).1
        expected := by
          dsimp only
          omega
        sessionEnded := hfollow.sessionEnded
        nextSequence := rfl
        queued := ⟨hqueued.le_length, hqueued.delivered_le, hqueued.codec, hqueued.bytes⟩ }
    before := fun hnone => by
      have hno := (h.before hnone).2 link hlink
      exact absurd (hconn.symm.trans hno) (Option.some_ne_none conn)
    after := fun r₀ hr₀ => by
      have hhistory := h.after r₀ hr₀
      have hnext := hhistory.nextSequence
      rw [hfollow.nextSequence] at hnext
      refine ⟨hhistory.ne_zero, ?_, ?_⟩
      · rw [hmessages, List.length_append, List.length_singleton]
        show (Word64.saturatingSucc conn.expectedSequence).toNat = _
        omega
      · rw [hmessages]
        intro i m hm
        rw [List.getElem?_append] at hm
        split at hm
        next => exact hhistory.stored i m hm
        next hi =>
          have hlen := (List.getElem?_eq_some_iff.mp hm).1
          rw [List.length_singleton] at hlen
          rw [List.mem_singleton.mp (List.mem_of_getElem? hm)]
          exact ⟨e.1, by omega, hwas⟩ }

/-- The client is logged in.  After the first time, it is at the number it asked for. -/
theorem Inv.logIn (h : net.Inv cfg first start) (hlink : net.link = some link)
    (hnext : net.client.nextSequence = link.login.requestedSequence)
    (hr : link.subscriber.trace.announced = some r) (hexpected : conn.expectedSequence = r)
    (hended : conn.sessionEnded = false)
    (hqueued : Link.Queued { link with framed := framed } 1) :
    Inv cfg first start { net with
      client := net.client.loggedIn conn
      link := some { link with framed := framed, conn := some conn }
      firstAccepted := net.firstAccepted.or (some conn.expectedSequence) } := by
  have hlinkInv := h.link link hlink
  obtain ⟨hr0, hasked⟩ := hlinkInv.plain.announced r hr
  exact {
    ledger := h.ledger
    link := by
      rintro _ ⟨⟩
      exact ⟨hlinkInv.sound, hlinkInv.plain, hlinkInv.request⟩
    progress := by
      rintro _ ⟨⟩
      exact .following rfl {
        announced := hr
        le_sent := Nat.zero_le _
        expected := congrArg UInt64.toNat hexpected
        sessionEnded := hended
        nextSequence := rfl
        queued := ⟨hqueued.le_length, hqueued.delivered_le, hqueued.codec, hqueued.bytes⟩ }
    before := fun hnone => by
      cases hfirst : net.firstAccepted with
      | none => simp [hfirst] at hnone
      | some r₀ => simp [hfirst] at hnone
    after := fun r₀ hr₀ => by
      cases hfirst : net.firstAccepted with
      | none =>
          have hmessages : net.messages = [] := (h.before hfirst).1
          have heq : r₀ = r := by
            rw [← hexpected]
            simpa [hfirst] using hr₀.symm
          rw [heq]
          refine ⟨hr0, ?_, fun i m hm => ?_⟩
          · show conn.expectedSequence.toNat = r.toNat + net.messages.length
            rw [hmessages, hexpected]
            rfl
          · have hm : net.messages[i]? = some m := hm
            rw [hmessages] at hm
            cases hm
      | some r₁ =>
          have heq : r₁ = r₀ := by simpa [hfirst] using hr₀
          have hhistory := h.after r₀ (hfirst.trans (congrArg some heq))
          have hnum := hhistory.nextSequence
          have hsame : r = net.client.nextSequence := by
            rw [hnext]
            refine hasked fun hzero => ?_
            rw [hnext, hzero, UInt64.toNat_zero] at hnum
            exact hhistory.ne_zero (Word64.eq_iff.mpr (by rw [UInt64.toNat_zero]; omega))
          refine ⟨hhistory.ne_zero, ?_, hhistory.stored⟩
          show conn.expectedSequence.toNat = r₀.toNat + net.messages.length
          rw [hexpected, hsame]
          exact hnum }

/-- The reply of the server is read. -/
theorem Inv.poll_reply {p : SoupPacket} (h : net.Inv cfg first start)
    (hlink : net.link = some link) (hconn : link.conn = none)
    (hnext : net.client.nextSequence = link.login.requestedSequence)
    (hget : link.subscriber.out[0]? = some p)
    (hqueued : Link.Queued { link with framed := framed } 1) :
    (net.poll rcfg { link with framed := framed } (some (.ok p.onWire))).Inv cfg first start := by
  have hsends := (h.link link hlink).sound.sends
  cases hr : link.subscriber.trace.announced with
  | none =>
      obtain ⟨reason, rfl⟩ := hsends.head_rejected hr hget
      rw [poll_failed hconn rfl]
      exact h.attemptFailed (.loginRejected reason)
  | some r =>
      obtain rfl := hsends.head_accepted hr hget
      match hreply : SoupConnection.onReplyItem (rcfg.requestedSession.getD [])
          (some (.ok (SoupPacket.loginAccepted
            { session := cfg.session, sequence := r }).onWire)) with
      | none => exact absurd hreply (SoupConnection.onReply_loginAccepted_ne_none _ _)
      | some (.error e) =>
          rw [poll_failed hconn hreply]
          exact h.attemptFailed e
      | some (.ok conn) =>
          have hok : SoupConnection.onReply (rcfg.requestedSession.getD []) (SoupPacket.loginAccepted
              { session := cfg.session, sequence := r }).onWire = some (.ok conn) := hreply
          obtain ⟨acc, hacc, hexpected, hended⟩ := SoupConnection.expectedSequence_of_onReply hok
          cases hacc
          rw [poll_accepted hconn hreply]
          exact h.logIn hlink hnext hr hexpected hended hqueued

/-- A packet is read after the login. -/
theorem Inv.poll_packet {p : SoupPacket} (h : net.Inv cfg first start)
    (hkeeps : net.KeepsLog ∧ net.BelowMax)
    (hlink : net.link = some link) (hconn : link.conn = some conn)
    (hfollow : link.Following net.client conn r k)
    (hget : link.subscriber.out[k + 1]? = some p)
    (hqueued : Link.Queued { link with framed := framed } (k + 2)) :
    (net.poll rcfg { link with framed := framed } (some (.ok p.onWire))).Inv cfg first start := by
  have hlinkInv := h.link link hlink
  rcases hlinkInv.sound.sends.getElem_succ hfollow.announced hlinkInv.plain.warmed hget with
    ⟨e, he, rfl⟩ | rfl
  · have hfits := (h.entry hkeeps hlink hfollow.announced he).2.2.1
    rw [poll_result hconn (SoupConnection.pollNext_dataPacket hfollow.sessionEnded e.2),
      Message.onWire_of_fitsWire hfits]
    exact h.deliver hkeeps hlink hconn hfollow he hqueued
  · have hpoll : conn.pollNext (some (.ok SoupPacket.endOfSession.onWire)) =
        (some (some (.error .sessionEnded)), { conn with sessionEnded := true }) := by
      simp [SoupConnection.pollNext, hfollow.sessionEnded, SoupPacket.onWire,
        SoupConnection.onPacket]
    rw [poll_result hconn hpoll]
    exact h.lose hfollow.nextSequence.symm (.inr (.inr rfl))

theorem Inv.clientRead {atEnd : Bool} (h : net.Inv cfg first start)
    (hkeeps : net.KeepsLog ∧ net.BelowMax)
    (hlink : net.link = some link) (hpoll : link.framed.poll atEnd = some (item, framed)) :
    (net.poll rcfg { link with framed := framed } item).Inv cfg first start := by
  have hfits := (h.link link hlink).sound.sends.fits
  cases h.progress link hlink with
  | handshake hconn hnext hqueued =>
      rcases hqueued.poll hfits hpoll with hbroken | ⟨p, hget, rfl, hqueued'⟩
      · exact h.poll_broken hlink hbroken
      · exact h.poll_reply hlink hconn hnext hget hqueued'
  | following hconn hfollow =>
      rcases hfollow.queued.poll hfits hpoll with hbroken | ⟨p, hget, rfl, hqueued'⟩
      · exact h.poll_broken hlink hbroken
      · exact h.poll_packet hkeeps hlink hconn hfollow hget hqueued'

/-! ## Every step -/

theorem Inv.ingest {action : IngestAction} {srv : Server σ} (h : net.Inv cfg first start)
    (hstep : net.server.step action = some srv) :
    Inv cfg first start { net with server := srv } := by
  have hmove := Server.step_move hstep
  exact {
    ledger := h.ledger.move hmove
    link := fun link hlink => (h.link link hlink).move_server hmove
    progress := h.progress
    before := h.before
    after := fun r hr => by
      have hhistory := h.after r hr
      refine ⟨hhistory.ne_zero, hhistory.nextSequence, fun i m hm => ?_⟩
      obtain ⟨n, hn, hwas⟩ := hhistory.stored i m hm
      exact ⟨n, hn, hwas.move hmove⟩ }

/-- A step of the task of the server. -/
theorem Inv.act {action : SubscriberAction} {serverFramed : Framed} (h : net.Inv cfg first start)
    (hlink : net.link = some link)
    (hact : Link.act cfg net.server action { link with serverFramed := serverFramed } =
      some link')
    (hreq : ∀ req, action = .packet (some (.ok (.loginRequest req))) →
      link.subscriber.phase = .login → req.requestedSequence = link.login.requestedSequence)
    (hwarm : ∀ messages, action = .warmup (some messages) → messages = []) :
    Inv cfg first start { net with link := some link' } := by
  obtain ⟨s, hs, rfl⟩ := Option.map_eq_some_iff.mp hact
  have hmove := Subscriber.step_move hs
  exact h.set_link hlink ((h.link link hlink).move h.ledger hmove hreq hwarm)
    ((h.progress link hlink).move (h.link link hlink) hmove) rfl

theorem Inv.connect (h : net.Inv cfg first start) :
    Inv cfg first start
      { net with link := some (.opened net.server (net.client.request rcfg)) } where
  ledger := h.ledger
  link := by
    rintro _ ⟨⟩
    exact Link.inv_opened h.ledger _
  progress := by
    rintro _ ⟨⟩
    exact Link.progress_opened rfl
  before hfirst := by
    refine ⟨(h.before hfirst).1, ?_⟩
    rintro _ ⟨⟩
    rfl
  after r hr := ⟨(h.after r hr).ne_zero, (h.after r hr).nextSequence, (h.after r hr).stored⟩

omit [LawfulSeqStore σ] in
theorem onLink_eq_some {f : Link σ → Option (Link σ)} (h : net.onLink f = some net') :
    ∃ link link', net.link = some link ∧ f link = some link' ∧
      net' = { net with link := some link' } := by
  obtain ⟨link, hlink, hmap⟩ := Option.bind_eq_some_iff.mp h
  obtain ⟨link', hf, rfl⟩ := Option.map_eq_some_iff.mp hmap
  exact ⟨link, link', hlink, hf, rfl⟩

theorem Inv.step {action : NetAction} (h : net.Inv cfg first start)
    (hkeeps : net.KeepsLog ∧ net.BelowMax) (hstep : net.step cfg rcfg action = some net') :
    net'.Inv cfg first start := by
  cases action with
  | ingest action =>
      obtain ⟨srv, hsrv, rfl⟩ := Option.map_eq_some_iff.mp hstep
      exact h.ingest hsrv
  | connect =>
      rw [Net.step] at hstep
      split at hstep
      next => cases hstep
      next =>
        cases hstep
        exact h.connect
  | connectFails =>
      rw [Net.step] at hstep
      split at hstep
      next => cases hstep
      next =>
        cases hstep
        exact h.attemptFailed .io
  | upload count =>
      obtain ⟨link, link', hlink, hf, rfl⟩ := onLink_eq_some hstep
      cases hf
      exact h.set_link hlink ((h.link link hlink).upload count)
        ((h.progress link hlink).upload count) rfl
  | serverRead atEnd =>
      obtain ⟨link, link', hlink, hf, rfl⟩ := onLink_eq_some hstep
      obtain ⟨⟨item, framed⟩, hpoll, hact⟩ := Option.bind_eq_some_iff.mp hf
      refine h.act hlink hact ?_ fun _ heq => nomatch heq
      rintro req ⟨⟩ hphase
      exact (h.link link hlink).request_of_poll hphase hpoll rfl
  | serverReset =>
      obtain ⟨link, link', hlink, hf, rfl⟩ := onLink_eq_some hstep
      exact h.act hlink hf (fun _ heq => nomatch heq) fun _ heq => nomatch heq
  | warmup =>
      obtain ⟨link, link', hlink, hf, rfl⟩ := onLink_eq_some hstep
      refine h.act hlink hf (fun _ heq => nomatch heq) ?_
      rintro messages ⟨⟩
      rfl
  | proceed =>
      obtain ⟨link, link', hlink, hf, rfl⟩ := onLink_eq_some hstep
      exact h.act hlink hf (fun _ heq => nomatch heq) fun _ heq => nomatch heq
  | lagged =>
      obtain ⟨link, link', hlink, hf, rfl⟩ := onLink_eq_some hstep
      exact h.act hlink hf (fun _ heq => nomatch heq) fun _ heq => nomatch heq
  | sendFailed =>
      obtain ⟨link, link', hlink, hf, rfl⟩ := onLink_eq_some hstep
      exact h.act hlink hf (fun _ heq => nomatch heq) fun _ heq => nomatch heq
  | download count =>
      obtain ⟨link, link', hlink, hf, rfl⟩ := onLink_eq_some hstep
      cases hf
      have hinv := h.link link hlink
      exact h.set_link hlink ⟨hinv.sound, hinv.plain, hinv.request⟩
        ((h.progress link hlink).download count) rfl
  | clientRead atEnd =>
      obtain ⟨link, hlink, hmap⟩ := Option.bind_eq_some_iff.mp hstep
      obtain ⟨⟨item, framed⟩, hpoll, rfl⟩ := Option.map_eq_some_iff.mp hmap
      exact h.clientRead hkeeps hlink hpoll
  | clientReset =>
      obtain ⟨link, hlink, rfl⟩ := Option.map_eq_some_iff.mp hstep
      exact h.poll_broken hlink (.inr rfl)
  | loginTimeout =>
      obtain ⟨link, hlink, hif⟩ := Option.bind_eq_some_iff.mp hstep
      split at hif
      next =>
        cases hif
        exact h.attemptFailed .loginTimeout
      next => cases hif

/-- A message returned is the one the store has under its number. -/
theorem Inv.view_of_returned {first : σ} {start i : Nat} {r : UInt64} {m : Message}
    (hinv : net.Inv cfg first start) (hkeeps : net.KeepsLog ∧ net.BelowMax)
    (hr : net.firstAccepted = some r) (hm : net.messages[i]? = some m) :
    ∃ n : UInt64, n.toNat = r.toNat + i ∧ view net.server.store n = some m := by
  have hhistory := hinv.after r hr
  have hlt : (latestSeq net.server.store).toNat < 2 ^ 64 - 1 :=
    Nat.lt_sub_of_add_lt (Word64.succ_lt_of_ne_max hkeeps.2)
  have hpos : 0 < r.toNat := Nat.pos_of_ne_zero fun heq => hhistory.ne_zero (Word64.eq_iff.mpr heq)
  obtain ⟨n, hn, hwas⟩ := hhistory.stored i m hm
  refine ⟨n, hn, ?_⟩
  obtain ⟨m', hm', -⟩ := hkeeps.1 n (fun hzero => by
    rw [hzero, UInt64.toNat_zero] at hn
    omega) (Word64.le_iff.mpr (hinv.ledger.le_latest _ _ hwas))
  rcases hinv.ledger.view_of_wasStored hlt _ _ hwas with hsome | hnone
  · exact hsome
  · cases hm'.symm.trans hnone

/-- In every run in which the store keeps its log and the largest sequence number is not
in use, the messages a reconnecting client returns are the ones of the log under the number
of its first login and the numbers after it, in order and each once. -/
theorem reconnecting_client_returns_log (cfg : ServerConfig) (rcfg : ResilientSoupConfig)
    (first : σ) (startSequence : UInt64)
    (hrun : Run (Net.step cfg rcfg) (fun net => net.KeepsLog ∧ net.BelowMax)
      (Net.start rcfg first startSequence) net) :
    (net.firstAccepted = none → net.messages = []) ∧
    ∀ r, net.firstAccepted = some r → ∀ i m, net.messages[i]? = some m →
      ∃ n : UInt64, n.toNat = r.toNat + i ∧ view net.server.store n = some m := by
  have hinv : net.Inv cfg first (Server.start first startSequence).nextSeq.toNat :=
    hrun.invariant (fun _ => inv_start cfg rcfg first startSequence)
      fun _ _ _ hkeeps hinv hstep _ => hinv.step hkeeps hstep
  refine ⟨fun hnone => (hinv.before hnone).1, fun r hr i m hm => ?_⟩
  exact hinv.view_of_returned hrun.good hr hm

/-- A client that asks for a sequence number. -/
def clientFor (initialSequence : UInt64) : ResilientSoupConfig where
  username := []
  password := []
  requestedSession := none
  initialSequence := initialSequence
  maxAttempts := none

/-- The client connects and the server reads its request. -/
def dial : List NetAction :=
  [.connect, .upload 64, .serverRead false]

/-- Two messages are ingested. -/
def twoIngested : List NetAction :=
  [.ingest (.store (emptyEvent .startOfMessages) false), .ingest .broadcast,
    .ingest (.store (emptyEvent .endOfMessages) false), .ingest .broadcast]

/-- The connection is reset in the middle of the second message. -/
def readAndReset : List NetAction :=
  [.proceed, .proceed, .warmup, .proceed, .proceed, .proceed, .proceed, .download 55,
    .clientRead false, .clientRead false, .clientReset]

def readRest : List NetAction :=
  [.proceed, .proceed, .warmup, .proceed, .proceed, .proceed, .download 128, .clientRead false,
    .clientRead false]

def resetInside : List NetAction :=
  twoIngested ++ dial ++ readAndReset ++ dial ++ readRest

/-- The next connection brings the second message. -/
theorem reconnecting_client_returns_log_reset :
    ∃ net : Net RingBufferSeqStore,
      Run (Net.step openServer (clientFor 1)) (fun net => net.KeepsLog ∧ net.BelowMax)
        (Net.start (clientFor 1) (RingBufferSeqStore.withCapacity 4) 1) net ∧
      net.messages = [emptyEvent .startOfMessages, emptyEvent .endOfMessages] ∧
      (net.firstAccepted = none → net.messages = []) ∧
      ∀ r, net.firstAccepted = some r → ∀ i m, net.messages[i]? = some m →
        ∃ n : UInt64, n.toNat = r.toNat + i ∧ view net.server.store n = some m := by
  have hexec : (exec (Net.step openServer (clientFor 1))
      (fun net => net.KeepsLog ∧ net.BelowMax)
      (Net.start (clientFor 1) (RingBufferSeqStore.withCapacity 4) 1) resetInside).map
        Net.messages = some [emptyEvent .startOfMessages, emptyEvent .endOfMessages] := by
    decide +kernel
  obtain ⟨net, hrun, hmessages⟩ :=
    exists_run_of_exec resetInside Net.messages (by decide +kernel) hexec
  exact ⟨net, hrun, hmessages,
    reconnecting_client_returns_log openServer (clientFor 1)
      (RingBufferSeqStore.withCapacity 4) 1 hrun⟩

end Net

/-! ## The largest sequence number -/

namespace RingBufferSeqStore

/-- A buffer with room for every number, after a message was stored under each of the first
`k` numbers. -/
structure Filled (msg : Message) (k : Nat) (s : RingBufferSeqStore) : Prop where
  capacity : s.capacity = 2 ^ 64 - 1
  size_le : s.map.size ≤ k
  maxSeen : s.maxSeen.toNat = k
  get : ∀ n : UInt64, s.map[n]? = if n ≠ 0 ∧ n.toNat ≤ k then some msg else none

theorem filled_withCapacity (msg : Message) : Filled msg 0 (withCapacity Word64.max) where
  capacity := Nat.max_eq_left (by decide)
  size_le := Nat.le_of_eq Std.ExtTreeMap.size_empty
  maxSeen := rfl
  get n := by
    rw [if_neg]
    · exact Std.ExtTreeMap.getElem?_empty
    · rintro ⟨hne, hle⟩
      exact hne (Word64.eq_iff.mpr (by rw [UInt64.toNat_zero]; omega))

variable {msg : Message} {k : Nat} {s : RingBufferSeqStore} {n : UInt64}

/-- It takes the next message without evicting one. -/
theorem Filled.store (h : Filled msg k s) (hk : k < 2 ^ 64 - 1) (hn : n.toNat = k + 1) :
    SeqStore.store s n msg = some (s.put n msg) ∧ Filled msg (k + 1) (s.put n msg) := by
  have hsize := h.size_le
  have hevicted : s.evicted = s.map := by
    rw [evicted, if_neg (by rw [h.capacity]; omega)]
  have hget : s.map[n]? = none := by
    rw [h.get, if_neg (by omega)]
  have hinsert : (s.map.insert n msg).size ≤ s.map.size + 1 := Std.ExtTreeMap.size_insert_le
  refine ⟨?_, h.capacity, ?_, ?_, ?_⟩
  · show (s.store n msg).toOption = _
    rw [RingBufferSeqStore.store, hget]
    rfl
  · show (s.evicted.insert n msg).size ≤ _
    rw [hevicted]
    omega
  · show (s.seen n).toNat = _
    rw [toNat_seen, h.maxSeen]
    omega
  · intro a
    show (s.evicted.insert n msg)[a]? = _
    rw [hevicted, FinMap.get_insert, h.get]
    by_cases ha : n = a
    · subst ha
      rw [if_pos rfl, if_pos]
      refine ⟨fun hzero => ?_, by omega⟩
      rw [hzero, UInt64.toNat_zero] at hn
      omega
    · have hne : a.toNat ≠ k + 1 := fun heq => ha (Word64.eq_iff.mpr (by omega))
      rw [if_neg ha]
      congr 1
      simp only [eq_iff_iff, and_congr_right_iff]
      omega

/-- Once it is full, a read at the largest number returns that number. -/
theorem Filled.range_max (h : Filled msg (2 ^ 64 - 1) s) :
    SeqStore.range s Word64.max replayChunk = some [(Word64.max, msg)] := by
  have hget : s.map[Word64.max]? = some msg := by
    rw [h.get, if_pos ⟨by decide, Nat.le_of_eq Word64.toNat_max⟩]
  show some (s.range Word64.max 256) = _
  rw [range_eq_consecutive, consecutive, hget]
  rfl

end RingBufferSeqStore

/-- A server that has the largest number in its store sends it again and again. -/
theorem Subscriber.exec_replay_max {σ : Type} [SeqStore σ] {srv : Server σ} {msg : Message}
    (hlatest : SeqStore.latest srv.store = some Word64.max)
    (hrange : SeqStore.range srv.store Word64.max replayChunk = some [(Word64.max, msg)]) :
    ∃ s, exec (Subscriber.step openServer srv) (fun _ => True)
        { Subscriber.accept srv with phase := .readLatest Word64.max }
        [.proceed, .proceed, .warmup (some []), .proceed, .proceed, .proceed, .proceed, .proceed,
          .proceed] = some s ∧
      s.out = [.loginAccepted { session := [], sequence := Word64.max }, dataPacket msg,
        dataPacket msg] := by
  have hne : Word64.max ≠ 0 := by decide
  have hsucc : Word64.saturatingSucc Word64.max = Word64.max := rfl
  simp [exec, step, proceed, accept, send, warm, readChunk, sendReplay, encodeMessage_eq,
    dataPacket, openServer, hlatest, hrange, hne, hsucc]

namespace Net

variable {rcfg : ResilientSoupConfig} {cfg : ServerConfig} {k : Nat}

omit [LawfulSeqStore σ] in
theorem server_poll {net : Net σ} {link : Link σ} {item : Option (Except SoupError SoupPacket)} :
    (net.poll rcfg link item).server = net.server := by
  unfold poll
  split
  next =>
    split
    next => rfl
    next => rfl
    next => rfl
  next =>
    split
    next => rfl
    next => rfl

/-- Only the ingest task changes the server. -/
theorem server_of_step {net net' : Net σ} {action : NetAction}
    (h : net.step cfg rcfg action = some net') (hne : ∀ a, action ≠ .ingest a) :
    net'.server = net.server := by
  have hlink : ∀ {f}, net.onLink f = some net' → net'.server = net.server := by
    intro f hf
    obtain ⟨_, _, -, -, rfl⟩ := onLink_eq_some hf
    rfl
  cases action with
  | ingest a => exact absurd rfl (hne a)
  | connect =>
      rw [Net.step] at h
      split at h
      next => cases h
      next =>
        cases h
        rfl
  | connectFails =>
      rw [Net.step] at h
      split at h
      next => cases h
      next =>
        cases h
        rfl
  | clientRead atEnd =>
      obtain ⟨link, -, hmap⟩ := Option.bind_eq_some_iff.mp h
      obtain ⟨⟨item, framed⟩, -, rfl⟩ := Option.map_eq_some_iff.mp hmap
      exact server_poll
  | clientReset =>
      obtain ⟨link, -, rfl⟩ := Option.map_eq_some_iff.mp h
      exact server_poll
  | loginTimeout =>
      obtain ⟨link, -, hif⟩ := Option.bind_eq_some_iff.mp h
      split at hif
      next =>
        cases hif
        rfl
      next => cases hif
  | _ => exact hlink h

/-- The network after `k` messages were ingested, before the client does anything. -/
structure Idle (k : Nat) (net : Net RingBufferSeqStore) : Prop where
  store : RingBufferSeqStore.Filled (emptyEvent .startOfMessages) k net.server.store
  nextSeq : net.server.nextSeq.toNat = min (k + 1) (2 ^ 64 - 1)
  stored : net.server.stored = none
  closed : net.server.closed = false
  client : net.client = .new (clientFor Word64.max)
  link : net.link = none
  returned : net.returned = []
  firstAccepted : net.firstAccepted = none

theorem keepsLog_of_filled {net : Net RingBufferSeqStore}
    (h : RingBufferSeqStore.Filled (emptyEvent .startOfMessages) k net.server.store) :
    net.KeepsLog := by
  intro n hne hle
  refine ⟨emptyEvent .startOfMessages, ?_, by decide⟩
  show net.server.store.map[n]? = _
  rw [h.get, if_pos]
  refine ⟨hne, ?_⟩
  rw [← h.maxSeen]
  exact Word64.le_iff.mp hle

theorem exists_idle (hk : k ≤ 2 ^ 64 - 1) :
    ∃ net, Run (Net.step openServer (clientFor Word64.max)) Net.KeepsLog
      (Net.start (clientFor Word64.max) (RingBufferSeqStore.withCapacity Word64.max) 1) net ∧
      Idle k net := by
  induction k with
  | zero =>
      have hfilled := RingBufferSeqStore.filled_withCapacity (emptyEvent .startOfMessages)
      exact ⟨_, .start (keepsLog_of_filled hfilled), hfilled, by decide, rfl, rfl, rfl, rfl, rfl,
        rfl⟩
  | succ k ih =>
      obtain ⟨net, hrun, hidle⟩ := ih (by omega)
      have hnext := hidle.nextSeq
      have hsucc := Word64.toNat_saturatingSucc net.server.nextSeq
      have hturn : net.server.nextSeq.toNat = k + 1 := by omega
      obtain ⟨hstore, hfilled⟩ := hidle.store.store (by omega) hturn
      have hstep : net.step openServer (clientFor Word64.max)
          (.ingest (.store (emptyEvent .startOfMessages) false)) = some { net with
            server := { net.server with
              store := net.server.store.put net.server.nextSeq (emptyEvent .startOfMessages)
              stored := some (emptyEvent .startOfMessages)
              written := net.server.written
                ++ [(net.server.nextSeq, emptyEvent .startOfMessages)] } } := by
        simp [Net.step, Server.step, hidle.stored, hidle.closed, hstore]
      have hrun := (hrun.step hstep (keepsLog_of_filled hfilled)).step
        (show Net.step openServer (clientFor Word64.max) _ (.ingest .broadcast) = _ from rfl)
        (keepsLog_of_filled hfilled)
      exact ⟨_, hrun, {
        store := hfilled
        nextSeq := by
          show (Word64.saturatingSucc net.server.nextSeq).toNat = _
          omega
        stored := rfl
        closed := hidle.closed
        client := hidle.client
        link := hidle.link
        returned := hidle.returned
        firstAccepted := hidle.firstAccepted }⟩

/-- A connection on which the client waits for the reply. -/
def waiting (s : Subscriber RingBufferSeqStore) : Link RingBufferSeqStore where
  subscriber := s
  login := (ResilientSoupClient.new (clientFor Word64.max)).request (clientFor Word64.max)
  request := []
  serverFramed := .new
  delivered := 0
  framed := .new
  conn := none

theorem exec_dial {net : Net RingBufferSeqStore} (h : Idle k net) :
    exec (Net.step openServer (clientFor Word64.max)) (fun _ => True) net dial =
      some { net with
        link := some
          (waiting { Subscriber.accept net.server with phase := .readLatest Word64.max }) } := by
  obtain ⟨srv, client, link, returned, firstAccepted⟩ := net
  obtain rfl : client = .new (clientFor Word64.max) := h.client
  obtain rfl : link = none := h.link
  have hread : Link.serverRead openServer srv false (Link.upload 64 (Link.opened srv
      ((ResilientSoupClient.new (clientFor Word64.max)).request (clientFor Word64.max)))) =
      some (waiting { Subscriber.accept srv with phase := .readLatest Word64.max }) := by
    have hpoll : (Link.upload 64 (Link.opened srv ((ResilientSoupClient.new
        (clientFor Word64.max)).request (clientFor Word64.max)))).serverFramed.poll false =
        some (some (.ok (.loginRequest ((ResilientSoupClient.new
          (clientFor Word64.max)).request (clientFor Word64.max)))), Framed.new) := rfl
    rw [Link.serverRead, hpoll]
    rfl
  show (Net.onLink _ (Link.serverRead openServer srv false)).bind _ = _
  rw [Net.onLink]
  show ((Link.serverRead openServer srv false (Link.upload 64 (Link.opened srv _))).map _).bind _ = _
  rw [hread]
  rfl

/-- The task of the server runs on the connection as it does by itself. -/
theorem exec_act {net : Net σ} {link : Link σ} {s : Subscriber σ}
    {acts : List (NetAction × SubscriberAction)}
    (hacts : ∀ a ∈ acts, ∀ net : Net σ,
      net.step cfg rcfg a.1 = net.onLink (Link.act cfg net.server a.2))
    (hlink : net.link = some link)
    (h : exec (Subscriber.step cfg net.server) (fun _ => True) link.subscriber
      (acts.map Prod.snd) = some s) :
    exec (Net.step cfg rcfg) (fun _ => True) net (acts.map Prod.fst) =
      some { net with link := some { link with subscriber := s } } := by
  induction acts generalizing net link with
  | nil =>
      cases h
      rw [← hlink]
      rfl
  | cons a acts ih =>
      obtain ⟨s₁, hs₁, hrest⟩ := Option.bind_eq_some_iff.mp h
      have hstep : net.step cfg rcfg a.1 =
          some { net with link := some { link with subscriber := s₁ } } := by
        rw [hacts a List.mem_cons_self, Net.onLink, hlink]
        simp [Link.act, hs₁]
      rw [List.map_cons, exec, hstep, Option.bind_some, if_pos trivial]
      rw [if_pos trivial] at hrest
      have hlink₁ : Net.link { net with link := some { link with subscriber := s₁ } } =
          some { link with subscriber := s₁ } := rfl
      have hexec := ih (fun b hb => hacts b (List.mem_cons_of_mem a hb)) hlink₁ hrest
      exact hexec

/-- What the task of the server does up to the second time it sends the message. -/
def replayTwice : List (NetAction × SubscriberAction) :=
  [(.proceed, .proceed), (.proceed, .proceed), (.warmup, .warmup (some [])),
    (.proceed, .proceed), (.proceed, .proceed), (.proceed, .proceed), (.proceed, .proceed),
    (.proceed, .proceed), (.proceed, .proceed)]

theorem step_replayTwice (rcfg : ResilientSoupConfig) : ∀ a ∈ replayTwice, ∀ net : Net σ,
    net.step cfg rcfg a.1 = net.onLink (Link.act cfg net.server a.2) := by
  simp [replayTwice, Net.step]

/-- The client takes the reply and the two packets after it. -/
def readReplay : List NetAction :=
  [.download 128, .clientRead false, .clientRead false, .clientRead false]

theorem exec_readReplay {net : Net RingBufferSeqStore} {s : Subscriber RingBufferSeqStore}
    (h : Idle k net)
    (hout : s.out = [.loginAccepted { session := [], sequence := Word64.max },
      dataPacket (emptyEvent .startOfMessages), dataPacket (emptyEvent .startOfMessages)]) :
    ∃ net', exec (Net.step openServer (clientFor Word64.max)) (fun _ => True)
        { net with link := some (waiting s) } readReplay = some net' ∧
      net'.firstAccepted = some Word64.max ∧
      net'.messages = [emptyEvent .startOfMessages, emptyEvent .startOfMessages] := by
  obtain ⟨srv, client, link, returned, firstAccepted⟩ := net
  obtain rfl : client = .new (clientFor Word64.max) := h.client
  obtain rfl : returned = [] := h.returned
  obtain rfl : firstAccepted = none := h.firstAccepted
  obtain ⟨phase, rxPos, ne, out, trace⟩ := s
  obtain rfl : out = _ := hout
  exact ⟨_, rfl, rfl, rfl⟩

theorem keepsLog_of_step {net net' : Net σ} {action : NetAction}
    (hne : ∀ a, action ≠ .ingest a) (h : net.KeepsLog)
    (hstep : net.step cfg rcfg action = some net') : net'.KeepsLog := by
  unfold KeepsLog
  rw [server_of_step hstep hne]
  exact h

/-- After `2 ^ 64 - 1` messages the store holds one under the largest number.  A client that
asks for it gets it twice. -/
theorem largest_message_returned_twice :
    ∃ net : Net RingBufferSeqStore,
      Run (Net.step openServer (clientFor Word64.max)) Net.KeepsLog
        (Net.start (clientFor Word64.max) (RingBufferSeqStore.withCapacity Word64.max) 1) net ∧
      net.firstAccepted = some Word64.max ∧
      net.messages = [emptyEvent .startOfMessages, emptyEvent .startOfMessages] := by
  obtain ⟨net, hrun, hidle⟩ := exists_idle (Nat.le_refl (2 ^ 64 - 1))
  have hseen : net.server.store.maxSeen = Word64.max :=
    Word64.eq_iff.mpr (hidle.store.maxSeen.trans Word64.toNat_max.symm)
  have hlatest : SeqStore.latest net.server.store = some Word64.max := congrArg some hseen
  obtain ⟨s, hs, hout⟩ := Subscriber.exec_replay_max hlatest hidle.store.range_max
  have hlink : Net.link { net with
      link := some
        (waiting { Subscriber.accept net.server with phase := .readLatest Word64.max }) } =
      some (waiting { Subscriber.accept net.server with phase := .readLatest Word64.max }) := rfl
  have hserver := exec_act (step_replayTwice (clientFor Word64.max)) hlink hs
  obtain ⟨net', hread, hfirst, hmessages⟩ := exec_readReplay hidle hout
  have hexec : exec (Net.step openServer (clientFor Word64.max)) (fun _ => True) net
      (dial ++ replayTwice.map Prod.fst ++ readReplay) = some net' := by
    rw [exec_append, exec_append, exec_dial hidle, Option.bind_some, hserver, Option.bind_some]
    exact hread
  refine ⟨net', hrun.exec_of_keeps (fun _ a _ ha hkeeps hstep => ?_) hexec, hfirst, hmessages⟩
  refine keepsLog_of_step (fun b hb => ?_) hkeeps hstep
  subst hb
  simp [dial, replayTwice, readReplay] at ha

end Net

end Itch
