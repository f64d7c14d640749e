import Itch.Lib.TextCut
import Itch.Soup.Connection
import Itch.Soup.RoundTrip

/-!
# Session identifiers on both ends

The server cuts its session identifier after ten bytes, the wire keeps the last ten bytes of
the one a client asks for, and the client compares what it gets back with all of what it asked
for.  For an identifier of ten bytes or less the three are the same.
-/

namespace Itch

open Lib

/-- `SoupSession::new`, where `none` is a panic: `String::truncate` must not cut inside of a
character. -/
def SoupSession.new (id : Text) : Option Text :=
  if id.length > 10 then
    if Text.isCharBoundary id 10 then some (id.take 10) else none
  else some id

section Handshake

variable {σ : Type} [SeqStore σ] {cfg : ServerConfig} {srv : Server σ} {req : LoginRequest}

/-- What the server has sent once it has answered the request. -/
def replyTo (cfg : ServerConfig) (srv : Server σ) (req : LoginRequest) : List SoupPacket :=
  let s := (Subscriber.accept srv).login cfg (some (.ok (SoupPacket.loginRequest req).onWire))
  match s.proceed cfg srv with
  | none => s.out
  | some s =>
      match s.proceed cfg srv with
      | none => s.out
      | some s => s.out

/-- The login of a client at a server, both ends of it. -/
def handshake (cfg : ServerConfig) (srv : Server σ) (req : LoginRequest) :
    Option (Except SoupError (SoupConnection × List SoupPacket)) :=
  SoupConnection.login req.requestedSession ((replyTo cfg srv req).map SoupPacket.onWire)

/-- The server lets in the user of the request. -/
def Authorizes (cfg : ServerConfig) (req : LoginRequest) : Prop :=
  cfg.check (readAnum (padRight req.username 6)) (readAnum (padRight req.password 10)) = none

/-- The server takes the session asked for to be its own. -/
def Recognizes (session requested : Text) : Prop :=
  Text.trim (readAnum (padLeft requested 10)) = [] ∨
    Text.trim (readAnum (padLeft requested 10)) = Text.trim session

omit [SeqStore σ] in
theorem login_of_recognizes (hcheck : Authorizes cfg req)
    (h : Recognizes cfg.session req.requestedSession) (s : Subscriber σ) :
    s.login cfg (some (.ok (SoupPacket.loginRequest req).onWire)) =
      { s with phase := .readLatest req.requestedSequence } := by
  rw [Authorizes] at hcheck
  simp only [SoupPacket.onWire, Subscriber.login, hcheck]
  rcases h with h | h
  · rw [h]
    rfl
  · rw [h, bne_self_eq_false, Bool.and_false]
    rfl

omit [SeqStore σ] in
theorem login_of_not_recognizes (hcheck : Authorizes cfg req)
    (h : ¬ Recognizes cfg.session req.requestedSession) (s : Subscriber σ) :
    s.login cfg (some (.ok (SoupPacket.loginRequest req).onWire)) =
      (s.send (.loginRejected .sessionUnavailable)).close := by
  rw [Authorizes] at hcheck
  rw [Recognizes, not_or] at h
  simp [SoupPacket.onWire, Subscriber.login, hcheck, h.1, h.2]

/-- A client whose user is let in is logged in when the server recognizes the session, and the
client recognizes the one that comes back. -/
theorem handshake_completes_iff (hcheck : Authorizes cfg req) (hne : req.requestedSession ≠ []) :
    (∃ conn, handshake cfg srv req = some (.ok (conn, []))) ↔
      Recognizes cfg.session req.requestedSession ∧
        Text.trim (readAnum (padLeft cfg.session 10)) = Text.trim req.requestedSession := by
  by_cases h : Recognizes cfg.session req.requestedSession
  · rw [handshake, replyTo, login_of_recognizes hcheck h]
    by_cases hsame : Text.trim (readAnum (padLeft cfg.session 10)) = Text.trim req.requestedSession
    · refine iff_of_true ?_ ⟨h, hsame⟩
      simp [Subscriber.proceed, Subscriber.send, Subscriber.accept, SoupPacket.onWire,
        SoupConnection.login, SoupConnection.onReply, hsame]
    · refine iff_of_false ?_ (fun hboth => hsame hboth.2)
      simp [Subscriber.proceed, Subscriber.send, Subscriber.accept, SoupPacket.onWire,
        SoupConnection.login, SoupConnection.onReply, hsame, hne]
  · refine iff_of_false ?_ (fun hboth => h hboth.1)
    rw [handshake, replyTo, login_of_not_recognizes hcheck h]
    simp [Subscriber.proceed, Subscriber.send, Subscriber.close, Subscriber.accept,
      SoupPacket.onWire, SoupConnection.login, SoupConnection.onReply]

/-! ## Long identifiers -/

variable {s : Text}

theorem trim_readAnum (h : Text.IsUTF8 s) : Text.trim (readAnum s) = Text.trim s := by
  rw [readAnum, h.trimSpaces.lossy, Text.trim_trimSpaces]

/-- An identifier of more than ten bytes is the same on both ends when its first ten bytes and
its last ten bytes are. -/
theorem recognized_iff_of_long (hs : Text.IsUTF8 s) (hlong : 10 < s.length)
    (hcut : Text.isCharBoundary s 10 = true) :
    (Recognizes (s.take 10) s ∧ Text.trim (readAnum (padLeft (s.take 10) 10)) = Text.trim s) ↔
      Text.trim (s.take 10) = Text.trim s ∧
        (Text.trim (readAnum (s.drop (s.length - 10))) = [] ∨
          Text.trim (readAnum (s.drop (s.length - 10))) = Text.trim s) := by
  have hwire : padLeft s 10 = s.drop (s.length - 10) := if_pos hlong.le
  have hlen : (s.take 10).length = 10 := by
    rw [List.length_take]
    omega
  have hback : padLeft (s.take 10) 10 = s.take 10 := by
    rw [padLeft, hlen, if_pos le_rfl, Nat.sub_self, List.drop_zero]
  rw [Recognizes, hwire, hback, trim_readAnum (hs.take hcut), and_comm]
  refine and_congr_right fun hsame => ?_
  rw [hsame]

/-- The identifier can be made, and a client that asks for it is logged in. -/
def SameOnBothEnds (srv : Server σ) (s : Text) : Prop :=
  ∃ id, SoupSession.new s = some id ∧
    (Text.Trimmed s → s ≠ [] → ∀ cfg req, cfg.session = id → req.requestedSession = s →
      Authorizes cfg req → ∃ conn, handshake cfg srv req = some (.ok (conn, [])))

theorem sameOnBothEnds_of_short (srv : Server σ) (hs : Text.IsUTF8 s) (hshort : s.length ≤ 10) :
    SameOnBothEnds srv s := by
  refine ⟨s, if_neg (Nat.not_lt.mpr hshort), ?_⟩
  rintro htrimmed hne cfg req hsession hrequested hcheck
  have hfield : FitsField 10 s := ⟨hs, hshort, htrimmed⟩
  rw [handshake_completes_iff hcheck (hrequested ▸ hne), hsession, hrequested, Recognizes,
    hfield.readAnum_padLeft]
  exact ⟨.inr rfl, rfl⟩

/-- An identifier means the same on both ends if it has ten bytes at most, or if cutting it
on either side loses nothing but white space. -/
theorem session_same_iff (srv : Server σ) (s : Text) (hs : Text.IsUTF8 s) :
    SameOnBothEnds srv s ↔ s.length ≤ 10 ∨ Text.isCharBoundary s 10 = true ∧
      (Text.Trimmed s → s ≠ [] → Text.trim (s.take 10) = Text.trim s ∧
        (Text.trim (readAnum (s.drop (s.length - 10))) = [] ∨
          Text.trim (readAnum (s.drop (s.length - 10))) = Text.trim s)) := by
  by_cases hshort : s.length ≤ 10
  · exact iff_of_true (sameOnBothEnds_of_short srv hs hshort) (.inl hshort)
  · have hlong : 10 < s.length := by omega
    rw [or_iff_right hshort]
    constructor
    · rintro ⟨id, hid, hlogin⟩
      rw [SoupSession.new, if_pos hlong] at hid
      split at hid
      next hcut =>
        cases hid
        refine ⟨hcut, fun htrimmed hne => ?_⟩
        rw [← recognized_iff_of_long hs hlong hcut]
        let cfg : ServerConfig := { session := s.take 10, check := fun _ _ => none }
        let req : LoginRequest :=
          { username := [], password := [], requestedSession := s, requestedSequence := 0 }
        have hcheck : Authorizes cfg req := rfl
        exact (handshake_completes_iff hcheck hne).mp
          (hlogin htrimmed hne cfg req rfl rfl hcheck)
      next => cases hid
    · rintro ⟨hcut, hsame⟩
      refine ⟨s.take 10, ?_, ?_⟩
      · rw [SoupSession.new, if_pos hlong, if_pos hcut]
      · rintro htrimmed hne cfg req hsession hrequested hcheck
        rw [handshake_completes_iff hcheck (hrequested ▸ hne), hsession, hrequested,
          recognized_iff_of_long hs hlong hcut]
        exact hsame htrimmed hne

/-- The identifier `ITCH`. -/
theorem session_same_iff_short :
    SameOnBothEnds (Server.start (RingBufferSeqStore.withCapacity 4) 1) [0x49, 0x54, 0x43, 0x48] :=
  (session_same_iff _ _ ⟨['I', 'T', 'C', 'H'], rfl⟩).mpr (.inl (by decide))

/-- The identifier `ABCDEFGHIJK` is `ABCDEFGHIJ` to the server, and a client that asks for it
is rejected; nine digits and a two-byte character cannot be made an identifier. -/
theorem long_session_rejected :
    let session : Text := [0x41, 0x42, 0x43, 0x44, 0x45, 0x46, 0x47, 0x48, 0x49, 0x4A, 0x4B]
    let cfg : ServerConfig := { session := session.take 10, check := fun _ _ => none }
    let req : LoginRequest :=
      { username := [], password := [], requestedSession := session, requestedSequence := 0 }
    SoupSession.new session = some cfg.session ∧
    handshake cfg (Server.start (RingBufferSeqStore.withCapacity 4) 1) req =
      some (.error (.loginRejected .sessionUnavailable)) ∧
    SoupSession.new [0x31, 0x32, 0x33, 0x34, 0x35, 0x36, 0x37, 0x38, 0x39, 0xC3, 0xA9] = none := by
  decide

end Handshake

end Itch
