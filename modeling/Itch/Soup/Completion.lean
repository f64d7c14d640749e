import Itch.Soup.EndToEnd

/-!
# The end of a session is the end of the log

The server says that the session has ended once the channel is closed and the connection has
received everything on it.  By then the connection was sent every number the store has, from
the one that was announced (`Finished`).  The packets reach the client in their order, so a
client that is told of the end has taken all of them, and over all its connections it has the
log from its first login to the end.  Nothing is stored any more after that.

A client that is disconnected without being told knows nothing of the kind.
-/

namespace Itch

open Lib

variable {σ : Type}

/-! ## A closed server -/

namespace Server

variable [SeqStore σ]

/-- The channel is closed and nothing waits to be sent on it. -/
structure IsOver (srv : Server σ) : Prop where
  closed : srv.closed = true
  stored : srv.stored = none

theorem IsOver.step {srv srv' : Server σ} {action : IngestAction} (h : srv.IsOver)
    (hstep : srv.step action = some srv') : srv'.IsOver ∧ srv'.store = srv.store := by
  obtain ⟨hclosed, hstored⟩ := h
  cases action with
  | store msg fails => simp [Server.step, hclosed, hstored] at hstep
  | broadcast => simp [Server.step, hstored] at hstep
  | close =>
      simp only [Server.step, hstored, Option.some_inj] at hstep
      subst hstep
      exact ⟨⟨rfl, rfl⟩, rfl⟩

/-- The channel is closed only when nothing waits to be sent on it. -/
theorem isOver_of_step {srv srv' : Server σ} {action : IngestAction}
    (h : srv.closed = true → srv.IsOver) (hstep : srv.step action = some srv')
    (hclosed : srv'.closed = true) : srv'.IsOver := by
  by_cases hbefore : srv.closed = true
  · exact ((h hbefore).step hstep).1
  · have hmove := step_move hstep
    cases hmove with
    | close hstored => exact ⟨rfl, hstored⟩
    | _ => exact absurd hclosed hbefore

end Server

/-! ## The last words of a connection -/

namespace Subscriber

section Steps

variable [SeqStore σ] {cfg : ServerConfig} {srv srv' : Server σ} {s s' : Subscriber σ}
  {action : SubscriberAction}

/-- A receiver does not pass the end of the channel. -/
theorem Move.rxPos_le (hmove : Move cfg srv s action s') (h : s.rxPos ≤ srv.channel.length) :
    s'.rxPos ≤ srv.channel.length := by
  cases hmove with
  | skip _ hget => exact (List.getElem?_eq_some_iff.mp hget).1
  | forward _ hget => exact (List.getElem?_eq_some_iff.mp hget).1
  | _ => exact h

end Steps

variable [LawfulSeqStore σ] {cfg : ServerConfig} {first : σ} {start : Nat} {srv srv' : Server σ}
  {s s' : Subscriber σ} {action : SubscriberAction}

open LawfulSeqStore (view latestSeq)

/-- What holds once the end of the session was said. -/
structure Finished (srv : Server σ) (s : Subscriber σ) : Prop where
  phase : s.phase = .closed
  isOver : srv.IsOver
  reached : ∀ r, s.trace.announced = some r →
    (latestSeq srv.store).toNat < r.toNat + s.trace.sent.length

/-- The receiver is on the channel, and the end of the session is said at its end. -/
structure Ending (srv : Server σ) (s : Subscriber σ) : Prop where
  rxPos_le : s.rxPos ≤ srv.channel.length
  finished : .endOfSession ∈ s.out → s.Finished srv

theorem ending_accept : (accept srv).Ending srv where
  rxPos_le := le_rfl
  finished h := absurd h List.not_mem_nil

theorem Ending.step (h : s.Ending srv) (hsound : s.Sound cfg first start srv)
    (hledger : srv.Ledger first start) (hover : srv.closed = true → srv.IsOver)
    (hretains : ∀ r, s.trace.announced = some r → ∀ n : UInt64, r ≤ n →
      n ≤ latestSeq srv.store → view srv.store n ≠ none)
    (hlt : (latestSeq srv.store).toNat < 2 ^ 64 - 1)
    (hstep : s.step cfg srv action = some s') : s'.Ending srv := by
  have hmove := step_move hstep
  refine ⟨hmove.rxPos_le h.rxPos_le, fun hnew => ?_⟩
  have hold : .endOfSession ∉ s.out := by
    intro hold
    rw [step_closed (h.finished hold).phase] at hstep
    cases hstep
  obtain ⟨hphase, hnone, hclosed, hphase', htrace⟩ := caughtUp_of_endOfSession hstep hold hnew
  have hpos : s.rxPos = srv.channel.length :=
    h.rxPos_le.antisymm (List.getElem?_eq_none_iff.mp hnone)
  refine ⟨hphase', hover hclosed, fun r hr => ?_⟩
  rw [htrace] at hr ⊢
  exact hsound.latest_lt_of_caughtUp hledger hr (hretains r hr) hlt hphase hpos
    (hover hclosed).stored

theorem Ending.move_server {ingest : IngestAction} (h : s.Ending srv)
    (hstep : srv.step ingest = some srv') : s.Ending srv' := by
  refine ⟨h.rxPos_le.trans (Server.step_move hstep).channel_le.length_le, fun hsaid => ?_⟩
  have hfinished := h.finished hsaid
  obtain ⟨hover, hstore⟩ := hfinished.isOver.step hstep
  refine ⟨hfinished.phase, hover, fun r hr => ?_⟩
  rw [hstore]
  exact hfinished.reached r hr

omit [LawfulSeqStore σ] in
/-- Each message sent has its packet. -/
theorem Sends.getElem_sent {r : UInt64} {k : Nat} {e : UInt64 × Message} (h : s.Sends cfg)
    (hr : s.trace.announced = some r) (hwarmed : s.trace.warmed = [])
    (he : s.trace.sent[k]? = some e) : s.out[k + 1]? = some (dataPacket e.2) := by
  obtain ⟨last, -, hout⟩ := h.exists_last
  have hlt := (List.getElem?_eq_some_iff.mp he).1
  rw [hout, Trace.packets, hr, hwarmed, List.map_nil, List.nil_append, List.cons_append,
    List.getElem?_cons_succ, List.getElem?_append_left (by simpa using hlt), List.getElem?_map, he]
  rfl

end Subscriber

/-! ## What the client is told -/

namespace SoupConnection

theorem onReplyItem_ne_sessionEnded {requestedSession : Text} {e : SoupError}
    {item : Option (Except SoupError SoupPacket)} (hitem : item ≠ some (.error .sessionEnded))
    (h : onReplyItem requestedSession item = some (.error e)) : e ≠ .sessionEnded := by
  rintro rfl
  rcases item with _ | e | p
  · cases h
  · obtain rfl := Except.error.inj (Option.some.inj h)
    exact hitem rfl
  · cases p with
    | loginAccepted acc =>
        simp only [onReplyItem, onReply] at h
        split at h
        next => cases h
        next => cases h
    | _ => cases h

theorem pollNext_sessionEnded {conn conn' : SoupConnection}
    {item : Option (Except SoupError SoupPacket)}
    (h : conn.pollNext item = (some (some (.error .sessionEnded)), conn')) :
    item = some (.error .sessionEnded) ∨ item = some (.ok .endOfSession) := by
  unfold pollNext at h
  split at h
  next => cases h
  next =>
    rcases item with _ | e | p
    · cases h
    · cases h
      exact .inl rfl
    · cases p with
      | endOfSession => exact .inr rfl
      | sequencedData payload =>
          simp only [onPacket, deliverSequenced] at h
          split at h
          next => cases h
          next => cases h
      | _ => cases h

end SoupConnection

namespace Net

variable [LawfulSeqStore σ] {cfg : ServerConfig} {rcfg : ResilientSoupConfig} {first : σ}
  {start : Nat} {net net' : Net σ} {link link' : Link σ}

open LawfulSeqStore (view latestSeq)

/-- The end of the session, on the server, on the connection and at the client. -/
structure Ends (net : Net σ) : Prop where
  isOver : net.server.closed = true → net.server.IsOver
  link : ∀ link, net.link = some link → link.subscriber.Ending net.server
  told : .error .sessionEnded ∈ net.returned → net.server.IsOver ∧
    ∃ r, net.firstAccepted = some r ∧
      (latestSeq net.server.store).toNat < r.toNat + net.messages.length

theorem ends_start (rcfg : ResilientSoupConfig) (first : σ) (startSequence : UInt64) :
    (Net.start rcfg first startSequence).Ends where
  isOver h := nomatch h
  link _ h := nomatch h
  told h := absurd h List.not_mem_nil

/-- A step of the client that does not tell it of the end. -/
theorem Ends.client (h : net.Ends) (hserver : net'.server = net.server)
    (hlink : ∀ link', net'.link = some link' →
      ∃ link, net.link = some link ∧ link'.subscriber = link.subscriber)
    (hfirst : ∀ r, net.firstAccepted = some r → net'.firstAccepted = some r)
    (hmessages : net.messages.length ≤ net'.messages.length)
    (htold : .error .sessionEnded ∈ net'.returned → .error .sessionEnded ∈ net.returned) :
    net'.Ends where
  isOver := by
    rw [hserver]
    exact h.isOver
  link link' hlink' := by
    obtain ⟨link, hsome, hsub⟩ := hlink link' hlink'
    rw [hserver, hsub]
    exact h.link link hsome
  told hnew := by
    obtain ⟨hover, r, hr, hlt⟩ := h.told (htold hnew)
    rw [hserver]
    exact ⟨hover, r, hfirst r hr, hlt.trans_le (Nat.add_le_add_left hmessages _)⟩

/-- The client keeps its connection. -/
theorem Ends.keep {client : ResilientSoupClient} {accepted : Option UInt64} (h : net.Ends)
    (hlink : net.link = some link) (hsub : link'.subscriber = link.subscriber)
    (hfirst : ∀ r, net.firstAccepted = some r → accepted = some r) :
    Ends { net with client := client, link := some link', firstAccepted := accepted } := by
  refine h.client rfl ?_ hfirst le_rfl id
  rintro _ ⟨⟩
  exact ⟨link, hlink, hsub⟩

theorem Ends.attemptFailed {e : SoupError} (h : net.Ends) (he : e ≠ .sessionEnded) :
    (net.attemptFailed rcfg e).Ends := by
  have hreturned : ∃ errors : List SoupError, .sessionEnded ∉ errors ∧
      (net.attemptFailed rcfg e).returned = net.returned ++ errors.map Except.error := by
    simp only [Net.attemptFailed, ResilientSoupClient.attemptFailed]
    split
    next => exact ⟨[e], by simpa using he.symm, rfl⟩
    next => exact ⟨[], List.not_mem_nil, rfl⟩
  obtain ⟨errors, hnot, hreturned⟩ := hreturned
  refine h.client rfl (fun _ hnone => nomatch hnone) (fun _ hr => hr) ?_ fun hmem => ?_
  · rw [messages, messages, hreturned, List.filterMap_append, List.length_append]
    exact Nat.le_add_right _ _
  · rw [hreturned] at hmem
    rcases List.mem_append.mp hmem with hold | hnew
    · exact hold
    · obtain ⟨e', he', heq⟩ := List.mem_map.mp hnew
      cases heq
      exact absurd he' hnot

theorem Ends.onResult {conn : SoupConnection} {result : Option (Except SoupError Message)}
    (h : net.Ends) (hlink : net.link = some link) (hsub : link'.subscriber = link.subscriber)
    (hresult : result ≠ some (.error .sessionEnded)) : (net.onResult link' conn result).Ends := by
  refine h.client rfl (fun link₁ hlink₁ => ?_) (fun _ hr => hr) ?_ fun hmem => ?_
  · refine ⟨link, hlink, ?_⟩
    simp only [Net.onResult] at hlink₁
    split at hlink₁
    next =>
      cases hlink₁
      exact hsub
    next => cases hlink₁
  · rw [messages, messages, Net.onResult]
    dsimp only
    rw [List.filterMap_append, List.length_append]
    exact Nat.le_add_right _ _
  · rcases List.mem_append.mp hmem with hold | hnew
    · exact hold
    · exact absurd (Option.mem_toList.mp hnew) hresult

variable {framed : Framed} {item : Option (Except SoupError SoupPacket)} {conn : SoupConnection}
  {r : UInt64} {k : Nat}

/-- The client reads something else than the end of the session. -/
theorem Ends.poll (h : net.Ends) (hlink : net.link = some link)
    (herror : item ≠ some (.error .sessionEnded)) (hitem : item ≠ some (.ok .endOfSession)) :
    (net.poll rcfg { link with framed := framed } item).Ends := by
  unfold Net.poll
  split
  next hconn =>
    split
    next => exact h.keep hlink rfl fun _ hr => hr
    next e hreply => exact h.attemptFailed (SoupConnection.onReplyItem_ne_sessionEnded herror hreply)
    next conn hreply =>
      refine h.keep hlink rfl fun r hr => ?_
      rw [hr]
      rfl
  next conn hconn =>
    split
    next => exact h.keep hlink rfl fun _ hr => hr
    next result conn' hpoll =>
      refine h.onResult hlink rfl ?_
      rintro rfl
      exact (SoupConnection.pollNext_sessionEnded hpoll).elim herror hitem

/-- The client reads the end of the session, after everything that was sent. -/
theorem Ends.poll_ended (h : net.Ends) (hinv : net.Inv cfg first start)
    (hlink : net.link = some link) (hconn : link.conn = some conn)
    (hfollow : link.Following net.client conn r k)
    (hget : link.subscriber.out[k + 1]? = some .endOfSession) :
    (net.poll rcfg { link with framed := framed } (some (.ok .endOfSession))).Ends := by
  have hfinished := (h.link link hlink).finished (List.mem_of_getElem? hget)
  have hpoll : conn.pollNext (some (.ok .endOfSession)) =
      (some (some (.error .sessionEnded)), { conn with sessionEnded := true }) := by
    simp [SoupConnection.pollNext, hfollow.sessionEnded, SoupConnection.onPacket]
  rw [poll_result hconn hpoll]
  have hall : link.subscriber.trace.sent.length ≤ k := by
    by_contra hlt
    have hlinkInv := hinv.link link hlink
    have he := List.getElem?_eq_getElem (Nat.lt_of_not_le hlt)
    have hdata := hlinkInv.sound.sends.getElem_sent hfollow.announced hlinkInv.plain.warmed he
    cases hget.symm.trans hdata
  obtain ⟨r₀, hr₀⟩ : ∃ r₀, net.firstAccepted = some r₀ := by
    refine Option.ne_none_iff_exists'.mp fun hnone => ?_
    cases hconn.symm.trans ((hinv.before hnone).2 link hlink)
  have hnext := (hinv.after r₀ hr₀).nextSequence
  rw [hfollow.nextSequence, hfollow.expected] at hnext
  have hreached := hfinished.reached r hfollow.announced
  refine ⟨fun _ => hfinished.isOver, by rintro _ ⟨⟩, fun _ => ⟨hfinished.isOver, r₀, hr₀, ?_⟩⟩
  have hmessages : messages (net.onResult { link with framed := framed }
      { conn with sessionEnded := true } (some (.error .sessionEnded))) = net.messages := by
    simp [messages, Net.onResult, ResilientSoupClient.onResult, Except.toOption]
  rw [hmessages]
  show (latestSeq net.server.store).toNat < _
  omega

/-! ## Every step -/

theorem Ends.clientRead {atEnd : Bool} (h : net.Ends) (hinv : net.Inv cfg first start)
    (hlink : net.link = some link) (hpoll : link.framed.poll atEnd = some (item, framed)) :
    (net.poll rcfg { link with framed := framed } item).Ends := by
  have hsends := (hinv.link link hlink).sound.sends
  have hbroken : item = none ∨ item = some (.error .io) →
      (net.poll rcfg { link with framed := framed } item).Ends := by
    rintro (rfl | rfl)
    · exact h.poll hlink (by rintro ⟨⟩) (by rintro ⟨⟩)
    · exact h.poll hlink (by rintro ⟨⟩) (by rintro ⟨⟩)
  cases hinv.progress link hlink with
  | handshake hconn hnext hqueued =>
      -- the reply comes first, so there is no end of the session to read yet
      rcases hqueued.poll hsends.fits hpoll with hitem | ⟨p, hget, rfl, -⟩
      · exact hbroken hitem
      · cases hr : link.subscriber.trace.announced with
        | none =>
            obtain ⟨reason, rfl⟩ := hsends.head_rejected hr hget
            exact h.poll hlink (by rintro ⟨⟩) (by rintro ⟨⟩)
        | some r =>
            obtain rfl := hsends.head_accepted hr hget
            exact h.poll hlink (by rintro ⟨⟩) (by rintro ⟨⟩)
  | following hconn hfollow =>
      rcases hfollow.queued.poll hsends.fits hpoll with hitem | ⟨p, hget, rfl, -⟩
      · exact hbroken hitem
      · rcases hsends.getElem_succ hfollow.announced (hinv.link link hlink).plain.warmed hget with
          ⟨e, -, rfl⟩ | rfl
        · exact h.poll hlink (by rintro ⟨⟩) (by rintro ⟨⟩)
        · exact h.poll_ended hinv hlink hconn hfollow hget

theorem Ends.act {action : SubscriberAction} {serverFramed : Framed} (h : net.Ends)
    (hinv : net.Inv cfg first start) (hkeeps : net.KeepsLog ∧ net.BelowMax)
    (hlink : net.link = some link)
    (hact : Link.act cfg net.server action { link with serverFramed := serverFramed } =
      some link') : Ends { net with link := some link' } := by
  obtain ⟨s, hs, rfl⟩ := Option.map_eq_some_iff.mp hact
  have hlinkInv := hinv.link link hlink
  have hlt : (latestSeq net.server.store).toNat < 2 ^ 64 - 1 :=
    Nat.lt_sub_of_add_lt (Word64.succ_lt_of_ne_max hkeeps.2)
  refine ⟨h.isOver, ?_, h.told⟩
  rintro _ ⟨⟩
  refine (h.link link hlink).step hlinkInv.sound hinv.ledger h.isOver (fun r hr n hle hlatest => ?_)
    hlt hs
  have hr0 : r ≠ 0 := (hlinkInv.plain.announced r hr).1
  have hpos : 0 < r.toNat := Nat.pos_of_ne_zero fun heq => hr0 (Word64.eq_iff.mpr heq)
  rw [Word64.le_iff] at hle
  obtain ⟨m, hm, -⟩ := hkeeps.1 n (fun hzero => by
    rw [hzero, UInt64.toNat_zero] at hle
    omega) hlatest
  simp [hm]

theorem Ends.ingest {action : IngestAction} {srv : Server σ} (h : net.Ends)
    (hstep : net.server.step action = some srv) : Ends { net with server := srv } where
  isOver hclosed := Server.isOver_of_step h.isOver hstep hclosed
  link link hlink := (h.link link hlink).move_server hstep
  told htold := by
    obtain ⟨hover, r, hr, hlt⟩ := h.told htold
    obtain ⟨hover', hstore⟩ := hover.step hstep
    refine ⟨hover', r, hr, ?_⟩
    show (latestSeq srv.store).toNat < _
    rw [hstore]
    exact hlt

theorem Ends.step {action : NetAction} (h : net.Ends) (hinv : net.Inv cfg first start)
    (hkeeps : net.KeepsLog ∧ net.BelowMax) (hstep : net.step cfg rcfg action = some net') :
    net'.Ends := by
  cases action with
  | ingest action =>
      obtain ⟨srv, hsrv, rfl⟩ := Option.map_eq_some_iff.mp hstep
      exact h.ingest hsrv
  | connect =>
      rw [Net.step] at hstep
      split at hstep
      next => cases hstep
      next =>
        cases hstep
        refine ⟨h.isOver, ?_, h.told⟩
        rintro _ ⟨⟩
        exact Subscriber.ending_accept
  | connectFails =>
      rw [Net.step] at hstep
      split at hstep
      next => cases hstep
      next =>
        cases hstep
        exact h.attemptFailed (by rintro ⟨⟩)
  | upload count =>
      obtain ⟨link, link', hlink, hf, rfl⟩ := onLink_eq_some hstep
      cases hf
      exact h.keep hlink rfl fun _ hr => hr
  | serverRead atEnd =>
      obtain ⟨link, link', hlink, hf, rfl⟩ := onLink_eq_some hstep
      obtain ⟨⟨item, framed⟩, -, hact⟩ := Option.bind_eq_some_iff.mp hf
      exact h.act hinv hkeeps hlink hact
  | serverReset =>
      obtain ⟨link, link', hlink, hf, rfl⟩ := onLink_eq_some hstep
      exact h.act hinv hkeeps hlink hf
  | warmup =>
      obtain ⟨link, link', hlink, hf, rfl⟩ := onLink_eq_some hstep
      exact h.act hinv hkeeps hlink hf
  | proceed =>
      obtain ⟨link, link', hlink, hf, rfl⟩ := onLink_eq_some hstep
      exact h.act hinv hkeeps hlink hf
  | lagged =>
      obtain ⟨link, link', hlink, hf, rfl⟩ := onLink_eq_some hstep
      exact h.act hinv hkeeps hlink hf
  | sendFailed =>
      obtain ⟨link, link', hlink, hf, rfl⟩ := onLink_eq_some hstep
      exact h.act hinv hkeeps hlink hf
  | download count =>
      obtain ⟨link, link', hlink, hf, rfl⟩ := onLink_eq_some hstep
      cases hf
      exact h.keep hlink rfl fun _ hr => hr
  | clientRead atEnd =>
      obtain ⟨link, hlink, hmap⟩ := Option.bind_eq_some_iff.mp hstep
      obtain ⟨⟨item, framed⟩, hpoll, rfl⟩ := Option.map_eq_some_iff.mp hmap
      exact h.clientRead hinv hlink hpoll
  | clientReset =>
      obtain ⟨link, hlink, rfl⟩ := Option.map_eq_some_iff.mp hstep
      exact h.poll hlink (by rintro ⟨⟩) (by rintro ⟨⟩)
  | loginTimeout =>
      obtain ⟨link, hlink, hif⟩ := Option.bind_eq_some_iff.mp hstep
      split at hif
      next =>
        cases hif
        exact h.attemptFailed (by rintro ⟨⟩)
      next => cases hif

/-- The messages the client has returned are those of the store from the number of its first
login on, and none of them is missing. -/
def HasAll (net : Net σ) : Prop :=
  ∃ r, net.firstAccepted = some r ∧ ∀ (n : UInt64) (m : Message), r ≤ n →
    (view net.server.store n = some m ↔ net.messages[n.toNat - r.toNat]? = some m)

theorem hasAll_of_told (hinv : net.Inv cfg first start) (hends : net.Ends)
    (hkeeps : net.KeepsLog ∧ net.BelowMax) (htold : .error .sessionEnded ∈ net.returned) :
    net.HasAll := by
  obtain ⟨-, r, hr, hlatest⟩ := hends.told htold
  have hreturned : ∀ (n : UInt64) (m : Message), r ≤ n →
      net.messages[n.toNat - r.toNat]? = some m → view net.server.store n = some m := by
    intro n m hle hm
    rw [Word64.le_iff] at hle
    obtain ⟨n', hn', hview⟩ := hinv.view_of_returned hkeeps hr hm
    obtain rfl : n' = n := Word64.eq_iff.mpr (by omega)
    exact hview
  refine ⟨r, hr, fun n m hle => ⟨fun hview => ?_, hreturned n m hle⟩⟩
  have hn := Word64.le_iff.mp (LawfulSeqStore.le_latestSeq _ n m hview)
  have hle' := Word64.le_iff.mp hle
  obtain ⟨m', hm'⟩ : ∃ m', net.messages[n.toNat - r.toNat]? = some m' :=
    ⟨_, List.getElem?_eq_getElem (by omega)⟩
  rw [hm', ← hview, hreturned n m' hle hm']

/-- What holds in every run in which the store keeps its log and the largest sequence number is
not in use. -/
theorem inv_ends_of_run {P : Net σ → Prop} (cfg : ServerConfig) (rcfg : ResilientSoupConfig)
    (first : σ) (startSequence : UInt64) (hP : ∀ net, P net → net.KeepsLog ∧ net.BelowMax)
    (hrun : Run (Net.step cfg rcfg) P (Net.start rcfg first startSequence) net) :
    net.Inv cfg first (Server.start first startSequence).nextSeq.toNat ∧ net.Ends :=
  hrun.invariant
    (I := fun net => net.Inv cfg first (Server.start first startSequence).nextSeq.toNat ∧
      net.Ends)
    (fun _ => ⟨inv_start cfg rcfg first startSequence, ends_start rcfg first startSequence⟩)
    fun _ _ _ hgood h hstep _ => ⟨h.1.step (hP _ hgood) hstep, h.2.step h.1 (hP _ hgood) hstep⟩

/-- In every run in which the store keeps its log and the largest sequence number is not in
use: once a reconnecting client has been told that the session ended, the messages it has
returned, over all its connections, are all the messages of the store from the number of its
first login on. -/
theorem session_end_complete (cfg : ServerConfig) (rcfg : ResilientSoupConfig) (first : σ)
    (startSequence : UInt64) (net : Net σ)
    (hrun : Run (Net.step cfg rcfg) (fun net => net.KeepsLog ∧ net.BelowMax)
      (Net.start rcfg first startSequence) net)
    (htold : .error .sessionEnded ∈ net.returned) : net.HasAll := by
  obtain ⟨hinv, hends⟩ := inv_ends_of_run cfg rcfg first startSequence (fun _ h => h) hrun
  exact hasAll_of_told hinv hends hrun.good htold

/-- Two messages are ingested and a client logs in.  Then the channel is closed, and the client
reads everything. -/
def readToEnd : List NetAction :=
  twoIngested ++ dial ++
    [.proceed, .proceed, .warmup, .ingest .close, .proceed, .proceed, .proceed, .proceed, .proceed,
      .proceed, .proceed, .download 128, .clientRead false, .clientRead false, .clientRead false,
      .clientRead false]

theorem session_end_complete_readToEnd :
    ∃ net : Net RingBufferSeqStore,
      Run (Net.step openServer (clientFor 1)) (fun net => net.KeepsLog ∧ net.BelowMax)
        (Net.start (clientFor 1) (RingBufferSeqStore.withCapacity 4) 1) net ∧
      net.messages = [emptyEvent .startOfMessages, emptyEvent .endOfMessages] ∧ net.HasAll := by
  have hexec : (exec (Net.step openServer (clientFor 1))
      (fun net => net.KeepsLog ∧ net.BelowMax)
      (Net.start (clientFor 1) (RingBufferSeqStore.withCapacity 4) 1) readToEnd).map
        Net.returned = some [.ok (emptyEvent .startOfMessages), .ok (emptyEvent .endOfMessages),
          .error .sessionEnded] := by
    decide +kernel
  obtain ⟨net, hrun, hreturned⟩ :=
    exists_run_of_exec readToEnd Net.returned (by decide +kernel) hexec
  refine ⟨net, hrun, ?_, session_end_complete openServer (clientFor 1)
    (RingBufferSeqStore.withCapacity 4) 1 net hrun ?_⟩
  · rw [messages, hreturned]
    rfl
  · rw [hreturned]
    simp

end Net

end Itch
