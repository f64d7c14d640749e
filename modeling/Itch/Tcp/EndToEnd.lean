import Itch.Tcp.Client
import Itch.Tcp.Segments

/-!
# From the server to the printed line over plain TCP

A connection of the server writes frames, some prefix of them arrives, in pieces that the
network chooses, and the client prints what it decodes.  Nothing on this way adds, drops or
reorders a message: what is printed is a beginning of the warmup and of what was stored after
the connection had subscribed.  How the client ends says where the stream stopped.  It exits
with the code of a fatal error if that was within a frame, and with the code of a lost
connection if it was between two of them.
-/

namespace Itch

open Lib

namespace TcpClient

/-! ## The loop on messages -/

/-- The exit code and what is printed for messages that arrive, if the loop would end with the
code `atEnd` after the last of them. -/
def shows (write : Message → WriteResult) (atEnd : Nat) : List Message → Nat × List Message
  | [] => (atEnd, [])
  | msg :: msgs =>
      match write msg with
      | .written =>
          if endsMessages msg then (0, [msg])
          else ((shows write atEnd msgs).1, msg :: (shows write atEnd msgs).2)
      | .brokenPipe => (0, [])
      | .failed => (4, [])

theorem shows_le (write : Message → WriteResult) (atEnd : Nat) (msgs : List Message) :
    (shows write atEnd msgs).2 <+: msgs := by
  induction msgs with
  | nil => exact List.nil_prefix
  | cons msg msgs ih =>
      rw [shows]
      cases write msg with
      | written =>
          by_cases hends : endsMessages msg = true
          · simp [hends]
          · simpa [hends] using ih
      | brokenPipe => exact List.nil_prefix
      | failed => exact List.nil_prefix

/-- The code for a stream that stops with a part of a frame. -/
def codeAt (part : Bytes) : Nat :=
  if part = [] then 5 else 3

theorem parse_wireImage (msg : Message) :
    ItchCodec.format.parse msg.wireImage = .ok msg.onWire := by
  change ItchCodec.decodeMessage msg.wireImage = .ok msg.onWire
  rw [ItchCodec.decodeMessage, Message.decode_wireImage]

theorem wireImage_le_limit {msgs : List Message} {body : Bytes}
    (h : body ∈ msgs.map Message.wireImage) : body.length ≤ ItchCodec.format.limit := by
  obtain ⟨msg, -, rfl⟩ := List.mem_map.mp h
  have hlen := msg.encodedLen_le
  change msg.wireImage.length ≤ 1024
  rw [Message.wireImage_length]
  omega

variable {write : Message → WriteResult} {c : TcpClient} {src part : Bytes}
  {framed : FramedRead ItchCodec} {reads : List Bytes}

/-- The end of a stream that stops with a part of a frame. -/
theorem exitCode_atEnd : exitCode write
    (if part = [] then none else some (.error (Decoder.remaining ItchCodec))) =
      some (codeAt part) ∧
    printedOf write (if part = [] then none else some (.error (Decoder.remaining ItchCodec))) =
      [] := by
  by_cases hnil : part = []
  · simp [hnil, codeAt, exitCode, printedOf]
  · simp [hnil, codeAt, exitCode, printedOf, Decoder.remaining]

/-- The next item of a stream of messages that stops with a part of a frame. -/
theorem pollNext_messages {msgs : List Message} (hpart : ItchCodec.format.Unfinished part)
    (hat : FramedRead.At ItchCodec.mk { skip := 0, buffer := src } framed)
    (h : src ++ reads.flatten = Framing.frames (msgs.map Message.wireImage) ++ part)
    (hfirst : framed.isReadable = true ∨ src = []) :
    (msgs = [] ∧ ∃ framed', framed.pollNext reads =
      (if part = [] then none else some (.error (Decoder.remaining ItchCodec)), framed', [])) ∨
    ∃ msg rest framed' reads' src', msgs = msg :: rest ∧
      framed.pollNext reads = (some (.ok msg.onWire), framed', reads') ∧
      FramedRead.At ItchCodec.mk { skip := 0, buffer := src' } framed' ∧
      framed'.isReadable = true ∧
      src' ++ reads'.flatten = Framing.frames (rest.map Message.wireImage) ++ part := by
  have hok : ∀ b ∈ msgs.map Message.wireImage, (ItchCodec.format.parse b).isOk = true := by
    intro b hb
    obtain ⟨msg, -, rfl⟩ := List.mem_map.mp hb
    rw [parse_wireImage]
    rfl
  rcases FramedRead.pollNext_unfinished decodes hpart (fun _ => wireImage_le_limit) hok
    (by decide) hat h hfirst with
    ⟨hnil, hend⟩ | ⟨body, rest, framed', reads', src', hcons, hpoll, hat', hreadable, hrest⟩
  · exact .inl ⟨List.map_eq_nil_iff.mp hnil, hend⟩
  · obtain ⟨msg, msgs', rfl, rfl, rfl⟩ := List.map_eq_cons_iff.mp hcons
    rw [parse_wireImage] at hpoll
    exact .inr ⟨msg, msgs', framed', reads', src', rfl, hpoll, hat', hreadable, hrest⟩

/-- The loop ends as the messages say, and an interrupt cuts off what it prints. -/
structure Ends (write : Message → WriteResult) (atEnd : Nat) (msgs : List Message)
    (c c' : TcpClient) : Prop where
  exits : runTcp write (msgs.length + 1) c = some ((shows write atEnd msgs).1, c')
  printed : c'.printed = c.printed ++ (shows write atEnd msgs).2
  interrupted : ∀ turns,
    interruptTcp write turns c = ((shows write atEnd msgs).1, c') ∨
      (interruptTcp write turns c).1 = 0 ∧
        (interruptTcp write turns c).2.printed =
          c.printed ++ (shows write atEnd msgs).2.take turns

/-- The first turn ends the loop. -/
theorem Ends.of_exit {atEnd code : Nat} {msgs : List Message} {c' : TcpClient}
    (hturn : turn write c = (some code, c')) (hcode : (shows write atEnd msgs).1 = code)
    (hprinted : c'.printed = c.printed ++ (shows write atEnd msgs).2) :
    Ends write atEnd msgs c c' where
  exits := by rw [runTcp_exit hturn, hcode]
  printed := hprinted
  interrupted := by
    rintro (_ | turns)
    · exact .inr ⟨rfl, (List.append_nil _).symm⟩
    · exact .inl (by rw [interruptTcp_exit hturn, hcode])

/-- The first turn prints a message. -/
theorem Ends.of_goOn {atEnd : Nat} {msg : Message} {msgs : List Message} {c' c'' : TcpClient}
    (hturn : turn write c = (none, c')) (hwrite : write msg = .written)
    (hends : endsMessages msg = false) (hprinted : c'.printed = c.printed ++ [msg])
    (h : Ends write atEnd msgs c' c'') : Ends write atEnd (msg :: msgs) c c'' := by
  have hshows : shows write atEnd (msg :: msgs) =
      ((shows write atEnd msgs).1, msg :: (shows write atEnd msgs).2) := by
    simp [shows, hwrite, hends]
  constructor
  · rw [List.length_cons, runTcp_goOn hturn, hshows]
    exact h.exits
  · rw [h.printed, hprinted, hshows, List.append_assoc]
    rfl
  · rintro (_ | turns)
    · exact .inr ⟨rfl, (List.append_nil _).symm⟩
    · rw [interruptTcp_goOn hturn, hshows]
      refine (h.interrupted turns).imp_right fun hcut => ⟨hcut.1, ?_⟩
      rw [hcut.2, hprinted, List.append_assoc]
      rfl

/-- However the stream is cut, the loop ends as its messages say. -/
theorem ends_of_messages {msgs : List Message} (hpart : ItchCodec.format.Unfinished part)
    (hat : FramedRead.At ItchCodec.mk { skip := 0, buffer := src } c.framed)
    (h : src ++ c.reads.flatten = Framing.frames (msgs.map Message.wireImage) ++ part)
    (hfirst : c.framed.isReadable = true ∨ src = []) :
    ∃ c', Ends write (codeAt part) (msgs.map Message.onWire) c c' := by
  induction msgs generalizing c src with
  | nil =>
      rcases pollNext_messages hpart hat h hfirst with ⟨-, f', hpoll⟩ | ⟨_, _, _, _, _, hcons, -⟩
      · obtain ⟨hcode, hprinted⟩ := @exitCode_atEnd write part
        have hturn := @turn_of_pollNext write _ _ _ _ hpoll
        rw [hcode, hprinted] at hturn
        exact ⟨_, .of_exit hturn rfl rfl⟩
      · cases hcons
  | cons msg msgs ih =>
      rcases pollNext_messages hpart hat h hfirst with
        ⟨hnil, -⟩ | ⟨_, _, f', reads', src', hcons, hpoll, hat', hreadable, hrest⟩
      · cases hnil
      obtain ⟨rfl, rfl⟩ := List.cons.inj hcons
      have hturn := @turn_of_pollNext write _ _ _ _ hpoll
      rw [List.map_cons]
      cases hwrite : write msg.onWire with
      | written =>
          cases hends : endsMessages msg.onWire with
          | true =>
              simp only [exitCode, printedOf, hwrite, hends, if_true] at hturn
              exact ⟨_, .of_exit hturn (by simp [shows, hwrite, hends])
                (by simp [shows, hwrite, hends])⟩
          | false =>
              simp only [exitCode, printedOf, hwrite, hends, if_true] at hturn
              obtain ⟨c'', hc''⟩ := ih (c := { framed := f', reads := reads', printed := _ }) hat'
                hrest (.inl hreadable)
              exact ⟨c'', .of_goOn hturn hwrite hends rfl hc''⟩
      | brokenPipe =>
          simp only [exitCode, hwrite] at hturn
          exact ⟨_, .of_exit hturn (by simp [shows, hwrite])
            (by simp [shows, printedOf, hwrite])⟩
      | failed =>
          simp only [exitCode, hwrite] at hturn
          exact ⟨_, .of_exit hturn (by simp [shows, hwrite])
            (by simp [shows, printedOf, hwrite])⟩

end TcpClient

/-! ## Server, network and client -/

namespace TcpServer

variable {σ : Type} [SeqStore σ]

/-- What a connection has sent. -/
def sent (s : TcpSubscriber) : List Message :=
  s.warmed ++ s.forwarded.map Prod.snd

/-- What a connection is there to send: its warmup and what is stored after it subscribed. -/
def feed (sys : Hub (Serve σ) TcpSubscriber) (s : TcpSubscriber) : List Message :=
  s.policy ++ (sys.shared.server.written.drop s.start).map Prod.snd

theorem sent_le_feed {store : σ} {sys : Hub (Serve σ) TcpSubscriber} {s : TcpSubscriber}
    (hrun : Run step (fun _ => True) (start store) sys) (hs : s ∈ sys.parties) :
    sent s <+: feed sys s := by
  obtain ⟨⟨hrecords, -⟩, hparties⟩ := holds_of_run hrun
  have hsends := (hparties s hs).sends
  have hforwarded : s.forwarded <+: sys.shared.server.written.drop s.start :=
    hsends.segment.trans (hrecords.channel_le.drop s.start)
  obtain ⟨hwarmed, hall | ⟨hnone, -⟩⟩ := hsends.progress.warmed_or
  · rw [sent, feed, hall]
    exact (List.prefix_append_right_inj _).mpr (hforwarded.map _)
  · rw [sent, feed, hnone, List.map_nil, List.append_nil]
    exact hwarmed.trans (List.prefix_append _ _)

end TcpServer

end Itch
