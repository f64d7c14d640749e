import Itch.Soup.Resilient

/-!
# The state of a connection

What ties the task of the server to the client it talks to: the announced number is the
one the client asked for, and the bytes in the buffer of the client, together with those
still on their way, are the frames of the packets the client has not consumed yet.
-/

namespace Itch

open Lib

variable {σ : Type}

/-! ## Growth of the output -/

namespace Subscriber

variable [SeqStore σ] {cfg : ServerConfig} {srv : Server σ} {s s' : Subscriber σ}
  {action : SubscriberAction}

theorem Move.out_append (h : Move cfg srv s action s') : ∃ ps, s'.out = s.out ++ ps := by
  cases h with
  | @close _ last => exact ⟨last, rfl⟩
  | accept => exact ⟨_, rfl⟩
  | warm => exact ⟨_, rfl⟩
  | replay => exact ⟨_, rfl⟩
  | forward => exact ⟨_, rfl⟩
  | _ => exact ⟨[], (List.append_nil _).symm⟩

theorem Move.length_sent_le (h : Move cfg srv s action s') :
    s.trace.sent.length ≤ s'.trace.sent.length := by
  cases h with
  | replay =>
      simp only [Trace.sent, List.length_append]
      omega
  | forward =>
      simp only [Trace.sent, List.length_append]
      omega
  | _ => exact le_rfl

/-- The task never comes back to the login. -/
theorem Move.phase_ne_login (h : Move cfg srv s action s') : s'.phase ≠ .login := by
  cases h with
  | ignore hphase => simp [hphase]
  | skip hphase => simp [hphase]
  | forward hphase => simp [hphase]
  | _ => simp

end Subscriber

namespace Phase

/-- The phases that hold nothing the client asked for. -/
def settled : Phase → Bool
  | .readLatest _ | .accept _ _ | .warming _ _ => false
  | _ => true

end Phase

namespace Subscriber

/-- The task serves a request for `q` without a warmup. -/
structure Plain (q : UInt64) (s : Subscriber σ) : Prop where
  requested : ∀ n, s.phase = .readLatest n → n = q
  resumeFrom : ∀ latest r, s.phase = .accept latest r → r ≠ 0 ∧ (q ≠ 0 → r = q)
  announced : ∀ r, s.trace.announced = some r → r ≠ 0 ∧ (q ≠ 0 → r = q)
  warming : ∀ latest messages, s.phase = .warming latest messages → messages = []
  warmed : s.trace.warmed = []

variable {q : UInt64} {s s' : Subscriber σ}

theorem Plain.of_settled (h : s.Plain q) (hphase : s'.phase.settled = true)
    (hannounced : s'.trace.announced = s.trace.announced)
    (hwarmed : s'.trace.warmed = s.trace.warmed) : s'.Plain q where
  requested n hn := by
    rw [hn] at hphase
    cases hphase
  resumeFrom latest r hr := by
    rw [hr] at hphase
    cases hphase
  announced := by
    rw [hannounced]
    exact h.announced
  warming latest messages hm := by
    rw [hm] at hphase
    cases hphase
  warmed := hwarmed.trans h.warmed

variable [SeqStore σ] {cfg : ServerConfig} {srv : Server σ} {action : SubscriberAction}

omit [SeqStore σ] in
theorem plain_accept : (accept srv).Plain q where
  requested _ h := nomatch h
  resumeFrom _ _ h := nomatch h
  announced _ h := nomatch h
  warming _ _ h := nomatch h
  warmed := rfl

theorem Plain.move (h : s.Plain q) (hmove : Move cfg srv s action s')
    (hreq : ∀ req, action = .packet (some (.ok (.loginRequest req))) → s.phase = .login →
      req.requestedSequence = q)
    (hwarm : ∀ messages, action = .warmup (some messages) → messages = []) : s'.Plain q := by
  cases hmove with
  | close => exact h.of_settled rfl rfl rfl
  | ignore => exact h
  | @passLogin req hphase =>
      exact {
        requested := by
          rintro n ⟨⟩
          exact hreq req rfl hphase
        resumeFrom := fun _ _ hn => nomatch hn
        announced := h.announced
        warming := fun _ _ hn => nomatch hn
        warmed := h.warmed }
  | @readLatest requested hphase =>
      have hq := h.requested requested hphase
      exact {
        requested := fun _ hn => nomatch hn
        resumeFrom := by
          rintro latest r ⟨⟩
          split
          next hzero =>
            refine ⟨fun hsucc => ?_, fun hne => absurd (hq ▸ hzero) hne⟩
            have hnat := congrArg UInt64.toNat hsucc
            rw [Word64.toNat_saturatingSucc, UInt64.toNat_zero] at hnat
            omega
          next hne => exact ⟨hne, fun _ => hq⟩
        announced := h.announced
        warming := fun _ _ hn => nomatch hn
        warmed := h.warmed }
  | accept hphase =>
      exact {
        requested := fun _ hn => nomatch hn
        resumeFrom := fun _ _ hn => nomatch hn
        announced := by
          rintro r ⟨⟩
          exact h.resumeFrom _ _ hphase
        warming := fun _ _ hn => nomatch hn
        warmed := h.warmed }
  | @warmup latest messages hphase =>
      exact {
        requested := fun _ hn => nomatch hn
        resumeFrom := fun _ _ hn => nomatch hn
        announced := h.announced
        warming := by
          rintro _ _ ⟨⟩
          exact hwarm messages rfl
        warmed := h.warmed }
  | warm hphase => exact absurd (h.warming _ _ hphase) (List.cons_ne_nil _ _)
  | startReplay => exact h.of_settled rfl rfl rfl
  | startLive => exact h.of_settled rfl rfl rfl
  | readChunk => exact h.of_settled rfl rfl rfl
  | endReplay => exact h.of_settled rfl rfl rfl
  | replay => exact h.of_settled rfl rfl rfl
  | nextChunk => exact h.of_settled rfl rfl rfl
  | skip hphase => exact h.of_settled (by simp [hphase, Phase.settled]) rfl rfl
  | forward hphase => exact h.of_settled (by simp [hphase, Phase.settled]) rfl rfl

end Subscriber

/-! ## The packets of a connection -/

theorem fits_dataPacket (msg : Message) : (dataPacket msg).Fits := by
  rw [SoupPacket.Fits, dataPacket, SoupPacket.encodedLen, SoupPacket.payloadLen,
    Message.wireImage_length]
  cases msg <;> exact Nat.le_of_ble_eq_true rfl

theorem fits_loginAccepted (acc : LoginAccepted) : (SoupPacket.loginAccepted acc).Fits :=
  Nat.le_of_ble_eq_true rfl

theorem fits_loginRequest (req : LoginRequest) : (SoupPacket.loginRequest req).Fits :=
  Nat.le_of_ble_eq_true rfl

theorem Farewell.fits {announced : Option UInt64} {last : List SoupPacket}
    (h : Farewell announced last) : ∀ p ∈ last, p.Fits := by
  intro p hp
  cases h with
  | silent => cases hp
  | rejected reason =>
      rw [List.mem_singleton.mp hp]
      exact Nat.le_of_ble_eq_true rfl
  | endOfSession r =>
      rw [List.mem_singleton.mp hp]
      exact Nat.le_of_ble_eq_true rfl

theorem Trace.fits_packets (cfg : ServerConfig) (t : Trace σ) : ∀ p ∈ t.packets cfg, p.Fits := by
  intro p hp
  unfold Trace.packets at hp
  split at hp
  next => cases hp
  next r _ =>
    rcases List.mem_cons.mp hp with rfl | hp
    · exact fits_loginAccepted _
    · rcases List.mem_append.mp hp with hp | hp
      · obtain ⟨m, -, rfl⟩ := List.mem_map.mp hp
        exact fits_dataPacket m
      · obtain ⟨e, -, rfl⟩ := List.mem_map.mp hp
        exact fits_dataPacket e.2

namespace Subscriber

variable {cfg : ServerConfig} {s : Subscriber σ} {r : UInt64}

theorem Sends.fits (h : s.Sends cfg) : ∀ p ∈ s.out, p.Fits := by
  intro p hp
  obtain ⟨last, hlast, hout⟩ := h.exists_last
  rw [hout] at hp
  rcases List.mem_append.mp hp with hp | hp
  · exact s.trace.fits_packets cfg p hp
  · exact hlast.fits p hp

/-- Before a number is announced, the only packet is a rejection. -/
theorem Sends.head_rejected {p : SoupPacket} (h : s.Sends cfg)
    (hr : s.trace.announced = none) (hp : s.out[0]? = some p) :
    ∃ reason, p = .loginRejected reason := by
  obtain ⟨last, hlast, hout⟩ := h.exists_last
  rw [hr] at hlast
  rw [hout, Trace.packets, hr, List.nil_append] at hp
  cases hlast with
  | silent => cases hp
  | rejected reason =>
      cases hp
      exact ⟨reason, rfl⟩

/-- The first packet announces the number. -/
theorem Sends.head_accepted {p : SoupPacket} (h : s.Sends cfg)
    (hr : s.trace.announced = some r) (hp : s.out[0]? = some p) :
    p = .loginAccepted { session := cfg.session, sequence := r } := by
  obtain ⟨last, -, hout⟩ := h.exists_last
  rw [hout, Trace.packets, hr] at hp
  cases hp
  rfl

/-- Then come the messages, and perhaps the end of the session. -/
theorem Sends.getElem_succ {p : SoupPacket} {k : Nat} (h : s.Sends cfg)
    (hr : s.trace.announced = some r) (hwarmed : s.trace.warmed = [])
    (hp : s.out[k + 1]? = some p) :
    (∃ e, s.trace.sent[k]? = some e ∧ p = dataPacket e.2) ∨ p = .endOfSession := by
  obtain ⟨last, hlast, hout⟩ := h.exists_last
  rw [hr] at hlast
  rw [hout, Trace.packets, hr, hwarmed, List.map_nil, List.nil_append, List.cons_append,
    List.getElem?_cons_succ] at hp
  by_cases hlt : k < s.trace.sent.length
  · rw [List.getElem?_append_left (by simpa using hlt), List.getElem?_map] at hp
    obtain ⟨e, he, hpe⟩ := Option.map_eq_some_iff.mp hp
    exact .inl ⟨e, he, hpe.symm⟩
  · rw [List.getElem?_append_right (by simpa using Nat.le_of_not_lt hlt)] at hp
    have hmem := List.mem_of_getElem? hp
    cases hlast with
    | silent => cases hmem
    | endOfSession => exact .inr (List.mem_singleton.mp hmem)

/-- A number is announced once. -/
theorem Move.announced_eq [LawfulSeqStore σ] {srv : Server σ} {s' : Subscriber σ}
    {action : SubscriberAction} {start : Nat} (hmove : Move cfg srv s action s')
    (hcursor : s.Cursor start s.phase) (hr : s.trace.announced = some r) :
    s'.trace.announced = some r := by
  cases hmove with
  | accept hphase =>
      rw [hphase] at hcursor
      exact absurd (hcursor.1.symm.trans hr) (Option.some_ne_none r).symm
  | _ => exact hr

end Subscriber

/-! ## Bytes on their way -/

namespace Link

/-- The client has consumed `j` packets of the server; the rest is in its buffer or on the
way. -/
structure Queued (link : Link σ) (j : Nat) : Prop where
  le_length : j ≤ link.subscriber.out.length
  delivered_le : link.delivered ≤ (wire link.subscriber.out).length
  codec : link.framed.codec = .new
  bytes : link.framed.buffer ++ (wire link.subscriber.out).drop link.delivered =
    wire (link.subscriber.out.drop j)

variable {link : Link σ} {j : Nat}

/-- The server writes more. -/
theorem Queued.grow {s : Subscriber σ} {serverFramed : Framed} {ps : List SoupPacket}
    (h : link.Queued j) (hout : s.out = link.subscriber.out ++ ps) :
    Queued { link with subscriber := s, serverFramed := serverFramed } j where
  le_length := by
    rw [hout, List.length_append]
    exact h.le_length.trans (Nat.le_add_right _ _)
  delivered_le := by
    rw [hout, wire_append, List.length_append]
    exact h.delivered_le.trans (Nat.le_add_right _ _)
  codec := h.codec
  bytes := by
    dsimp only
    rw [hout, wire_append, List.drop_append_of_le_length h.delivered_le, ← List.append_assoc,
      h.bytes, List.drop_append_of_le_length h.le_length, wire_append]

theorem Queued.upload (h : link.Queued j) (count : Nat) : (link.upload count).Queued j :=
  ⟨h.le_length, h.delivered_le, h.codec, h.bytes⟩

theorem Queued.download (h : link.Queued j) (count : Nat) : (link.download count).Queued j where
  le_length := h.le_length
  delivered_le := by
    have hle := h.delivered_le
    simp only [Link.download, List.length_take, List.length_drop]
    omega
  codec := h.codec
  bytes := by
    simp only [Link.download, Framed.receive]
    rw [← List.drop_drop, List.append_assoc,
      List.prefix_iff_eq_append.mp (List.take_prefix count _)]
    exact h.bytes

/-- What the client can read: nothing, the end or an I/O error, or the next packet. -/
theorem Queued.poll {atEnd : Bool} {item : Option (Except SoupError SoupPacket)}
    {framed : Framed} (h : link.Queued j) (hfits : ∀ p ∈ link.subscriber.out, p.Fits)
    (hpoll : link.framed.poll atEnd = some (item, framed)) :
    (item = none ∨ item = some (.error .io)) ∨
    ∃ p, link.subscriber.out[j]? = some p ∧ item = some (.ok p.onWire) ∧
      Queued { link with framed := framed } (j + 1) := by
  have hframed : link.framed = { codec := .new, buffer := link.framed.buffer } := by
    rw [← h.codec]
  rw [hframed] at hpoll
  have hcut := Framed.poll_cut (fun p hp => hfits p (List.mem_of_mem_drop hp))
    (h.bytes ▸ List.prefix_append link.framed.buffer _) hpoll
  rcases hcut with hbroken | ⟨p, rest, buffer', hdrop, hbuffer, hitem, hnew⟩
  · exact .inl hbroken
  · right
    have hget : link.subscriber.out[j]? = some p := by
      rw [← List.head?_drop, hdrop]
      rfl
    have hlt := (List.getElem?_eq_some_iff.mp hget).1
    refine ⟨p, hget, hitem, hlt, h.delivered_le, by rw [hnew], ?_⟩
    have hbytes := h.bytes
    rw [hdrop, wire_cons, hbuffer, List.append_assoc] at hbytes
    have hrest : link.subscriber.out.drop (j + 1) = rest := by
      rw [← List.tail_drop, hdrop]
      rfl
    rw [hnew, hrest]
    exact List.append_cancel_left hbytes

end Link

end Itch
