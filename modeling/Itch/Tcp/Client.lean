import Itch.Lib.FramedRead
import Itch.Lib.Run
import Itch.Tcp.Codec

/-!
# The client on a plain TCP stream

The client prints the messages of its connection until the server says that there are no
more, and takes the end of the stream before that for a lost connection.  It means to go on
after a bad frame.  But the framed connection reports an end of the stream after every error,
which the client cannot tell from the real one.
-/

namespace Itch

open Lib

instance : Decoder TransportError Message ItchCodec where
  decode := ItchCodec.decode
  remaining := .io

/-- How printing a line went. -/
inductive WriteResult where
  | written
  | brokenPipe
  | failed
deriving Repr, DecidableEq

/-- The client, with what its socket will still return and the messages it has printed. -/
structure TcpClient where
  framed : FramedRead ItchCodec
  reads : List Bytes
  printed : List Message
deriving Repr, DecidableEq

def endsMessages : Message → Bool
  | .systemEvent s => s.eventCode = .endOfMessages
  | _ => false

namespace TcpClient

def start (reads : List Bytes) : TcpClient where
  framed := .new .new
  reads := reads
  printed := []

/-- The exit code, if the loop ends with the item. -/
def exitCode (write : Message → WriteResult) : Option (Except TransportError Message) → Option Nat
  | some (.ok msg) =>
      match write msg with
      | .written => if endsMessages msg then some 0 else none
      | .brokenPipe => some 0
      | .failed => some 4
  | some (.error (.protocol _)) => none
  | some (.error (.frameTooLarge _ _)) => none
  | some (.error .io) => some 3
  -- premature disconnect
  | none => some 5

/-- What is printed of the item. -/
def printedOf (write : Message → WriteResult) : Option (Except TransportError Message) → List Message
  | some (.ok msg) => if write msg = .written then [msg] else []
  | _ => []

/-- A turn of the loop without an interrupt: the exit code, if the loop ends, and the client
then. -/
def turn (write : Message → WriteResult) (c : TcpClient) : Option Nat × TcpClient :=
  let (item, framed, reads) := c.framed.pollNext c.reads
  (exitCode write item,
    { framed := framed, reads := reads, printed := c.printed ++ printedOf write item })

/-- The loop without an interrupt: the exit code and the client then, `none` if it goes on for
more turns. -/
def runTcp (write : Message → WriteResult) : Nat → TcpClient → Option (Nat × TcpClient)
  | 0, _ => none
  | turns + 1, c =>
      match turn write c with
      | (some code, c) => some (code, c)
      | (none, c) => runTcp write turns c

/-- The loop that the user interrupts after a number of turns, unless it has ended before. -/
def interruptTcp (write : Message → WriteResult) : Nat → TcpClient → Nat × TcpClient
  -- ctrl-c
  | 0, c => (0, c)
  | turns + 1, c =>
      match turn write c with
      | (some code, c) => (code, c)
      | (none, c) => interruptTcp write turns c

variable {write : Message → WriteResult} {turns turns' code : Nat} {c c' : TcpClient}

theorem runTcp_exit (h : turn write c = (some code, c')) :
    runTcp write (turns + 1) c = some (code, c') := by
  rw [runTcp, h]

theorem runTcp_goOn (h : turn write c = (none, c')) :
    runTcp write (turns + 1) c = runTcp write turns c' := by
  rw [runTcp, h]

theorem interruptTcp_exit (h : turn write c = (some code, c')) :
    interruptTcp write (turns + 1) c = (code, c') := by
  rw [interruptTcp, h]

theorem interruptTcp_goOn (h : turn write c = (none, c')) :
    interruptTcp write (turns + 1) c = interruptTcp write turns c' := by
  rw [interruptTcp, h]

/-- A loop that has ended stays as it is. -/
theorem runTcp_mono {result : Nat × TcpClient} (h : runTcp write turns c = some result)
    (hle : turns ≤ turns') : runTcp write turns' c = some result := by
  induction turns generalizing c turns' with
  | zero => cases h
  | succ turns ih =>
      cases turns' with
      | zero => cases hle
      | succ turns' =>
          rcases hturn : turn write c with ⟨_ | code, c'⟩
          · rw [runTcp_goOn hturn] at h ⊢
            exact ih h (Nat.le_of_succ_le_succ hle)
          · rw [runTcp_exit hturn] at h ⊢
            exact h

/-! ## A stream of frames -/

theorem decodes : FramedRead.Decodes ItchCodec.format ItchCodec.mk := by
  intro s
  have hnext := ItchConnection.next_ofReader s
  refine ⟨(ItchCodec.decode { pendingSkip := s.skip } s.buffer).1, congrArg Prod.fst hnext, ?_⟩
  have hconn := congrArg Prod.snd hnext
  exact Prod.ext rfl (Prod.ext (congrArg ItchConnection.codec hconn)
    (congrArg ItchConnection.buffer hconn))

/-- How the loop ends on the frames of a stream. -/
structure Ending where
  code : Nat
  printed : List Message
  /-- The end of the stream was read. -/
  eof : Bool

def ending : List Bytes → Ending
  | [] => { code := 5, printed := [], eof := true }
  | body :: rest =>
      match ItchCodec.outcome body with
      | .error _ => { code := 5, printed := [], eof := false }
      | .ok msg =>
          if endsMessages msg then { code := 0, printed := [msg], eof := false }
          else { ending rest with printed := msg :: (ending rest).printed }

theorem exitCode_of_bad {write : Message → WriteResult} {body : Bytes} {e : TransportError}
    (h : ItchCodec.outcome body = .error e) : exitCode write (some (.error e)) = none := by
  cases e with
  | io =>
      unfold ItchCodec.outcome ItchCodec.decodeMessage at h
      split at h
      next => cases h
      next => split at h <;> cases h
  | protocol e => rfl
  | frameTooLarge got max => rfl

variable {s : Framing.Reader} {bodies reads : List Bytes}
  {item : Option (Except TransportError Message)} {framed : FramedRead ItchCodec}

theorem turn_of_pollNext (h : c.framed.pollNext c.reads = (item, framed, reads)) :
    turn write c = (exitCode write item,
      { framed := framed, reads := reads, printed := c.printed ++ printedOf write item }) := by
  rw [turn, h]

/-- The turn after an error finds the end of the stream. -/
theorem runTcp_of_bad {err : TransportError}
    (hpoll : c.framed.pollNext c.reads = (some (.error err), framed, reads))
    (hgoesOn : exitCode write (some (.error err)) = none) (herrored : framed.hasErrored = true) :
    ∃ c', runTcp write (turns + 2) c = some (5, c') ∧ c'.printed = c.printed ∧
      c'.framed.eof = framed.eof := by
  have hturn := @turn_of_pollNext write _ _ _ _ hpoll
  rw [hgoesOn] at hturn
  obtain ⟨framed', hpoll', heof⟩ :
      ∃ framed', framed.pollNext reads = (none, framed', reads) ∧ framed'.eof = framed.eof :=
    FramedRead.pollNext_of_hasErrored herrored
  have hlast := @turn_of_pollNext write ⟨framed, reads, c.printed ++ []⟩ _ _ _ hpoll'
  rw [runTcp_goOn hturn]
  exact ⟨_, runTcp_exit hlast, (List.append_nil _).trans (List.append_nil _), heof⟩

/-- The loop ends as the frames say. -/
theorem runTcp_frames (hbodies : ∀ b ∈ bodies, b.length < 65536)
    (hat : FramedRead.At ItchCodec.mk s c.framed) (hholds : s.Holds c.reads.flatten bodies)
    (hfirst : c.framed.isReadable = true ∨ s = .start) :
    ∃ c', runTcp (fun _ => .written) (bodies.length + 2) c = some ((ending bodies).code, c') ∧
      c'.printed = c.printed ++ (ending bodies).printed ∧
      c'.framed.eof = (ending bodies).eof := by
  induction bodies generalizing c s with
  | nil =>
      rcases FramedRead.pollNext_frames decodes hbodies hat hholds hfirst with
        ⟨-, f', hpoll, heof⟩ | ⟨_, _, _, _, _, hcons, -⟩
      · exact ⟨_, runTcp_exit (turn_of_pollNext hpoll), rfl, heof⟩
      · cases hcons
  | cons body rest ih =>
      rcases FramedRead.pollNext_frames decodes hbodies hat hholds hfirst with
        ⟨hnil, -⟩ | ⟨_, _, f', reads', s', hcons, hpoll, hafter⟩
      · cases hnil
      cases hcons
      have houtcome : ItchCodec.format.outcome body = ItchCodec.outcome body := rfl
      rw [houtcome] at hpoll
      have herrored := hafter.hasErrored
      rw [houtcome] at herrored
      have hturn := @turn_of_pollNext (fun _ => .written) _ _ _ _ hpoll
      rw [List.length_cons, Nat.add_right_comm, ending]
      cases hbody : ItchCodec.outcome body with
      | error e =>
          rw [hbody] at herrored hpoll
          obtain ⟨c', hrun, hprinted, heof⟩ :=
            @runTcp_of_bad _ (rest.length + 1) _ _ _ _ hpoll (exitCode_of_bad hbody) herrored
          exact ⟨c', hrun, hprinted.trans (List.append_nil _).symm, heof.trans hafter.eof⟩
      | ok msg =>
          rw [hbody] at herrored hturn
          dsimp only
          by_cases hends : endsMessages msg = true
          · have hexit : exitCode (fun _ => .written) (some (.ok msg)) = some 0 := if_pos hends
            rw [hexit] at hturn
            rw [if_pos hends]
            exact ⟨_, runTcp_exit hturn, rfl, hafter.eof⟩
          · have hgo : exitCode (fun _ => .written) (some (.ok msg)) = none := if_neg hends
            rw [hgo] at hturn
            rw [if_neg hends, runTcp_goOn hturn]
            have hat' : FramedRead.At ItchCodec.mk s' f' :=
              ⟨hafter.codec, hafter.buffer, hafter.eof, herrored⟩
            obtain ⟨c', hrun, hprinted, heof⟩ := ih
              (c := { framed := f', reads := reads', printed := c.printed ++ [msg] })
              (fun b hb => hbodies b (List.mem_cons_of_mem _ hb)) hat' hafter.holds
              (.inl hafter.isReadable)
            refine ⟨c', hrun, ?_, heof⟩
            rw [hprinted, List.append_assoc]
            rfl

/-! ## When bad frames do no harm -/

/-- The messages of the valid frames. -/
def valid (bodies : List Bytes) : List Message :=
  bodies.filterMap fun body => (ItchCodec.outcome body).toOption

/-- The frame says that there are no more messages. -/
def isLast (body : Bytes) : Bool :=
  match ItchCodec.outcome body with
  | .ok msg => endsMessages msg
  | .error _ => false

/-- Every frame is valid up to the end of the messages, and none is after it. -/
def Orderly : Bool → List Bytes → Prop :=
  Along (fun ended body => ended || isLast body) fun ended body =>
    (ItchCodec.outcome body).isOk = !ended

variable {body : Bytes} {rest : List Bytes} {msg : Message} {e : TransportError} {ended : Bool}

theorem orderly_cons : Orderly ended (body :: rest) ↔
    (ItchCodec.outcome body).isOk = !ended ∧ Orderly (ended || isLast body) rest :=
  Iff.rfl

theorem valid_cons_of_ok (h : ItchCodec.outcome body = .ok msg) :
    valid (body :: rest) = msg :: valid rest := by
  simp [valid, h, Except.toOption]

theorem valid_cons_of_error (h : ItchCodec.outcome body = .error e) :
    valid (body :: rest) = valid rest := by
  simp [valid, h, Except.toOption]

theorem orderly_of_ended : Orderly true bodies ↔ valid bodies = [] := by
  induction bodies with
  | nil => exact iff_of_true trivial rfl
  | cons body rest ih =>
      rw [orderly_cons, Bool.true_or, ih]
      cases hbody : ItchCodec.outcome body with
      | error e =>
          rw [valid_cons_of_error hbody]
          exact and_iff_right rfl
      | ok msg =>
          rw [valid_cons_of_ok hbody]
          exact iff_of_false nofun nofun

/-- The loop prints every valid message and takes only the end of the stream for its end if
the stream is orderly. -/
theorem ending_iff : ((ending bodies).printed = valid bodies ∧
    ((ending bodies).code = 5 → (ending bodies).eof = true)) ↔ Orderly false bodies := by
  induction bodies with
  | nil => exact iff_of_true ⟨rfl, fun _ => rfl⟩ trivial
  | cons body rest ih =>
      rw [orderly_cons, Bool.false_or, isLast, ending]
      cases hbody : ItchCodec.outcome body with
      | error e => exact iff_of_false (fun h => nomatch h.2 rfl) nofun
      | ok msg =>
          rw [valid_cons_of_ok hbody]
          dsimp only
          by_cases hends : endsMessages msg = true
          · rw [if_pos hends, hends, orderly_of_ended]
            constructor
            · rintro ⟨hprinted, -⟩
              exact ⟨rfl, (List.cons.inj hprinted).2.symm⟩
            · rintro ⟨-, hvalid⟩
              exact ⟨by rw [hvalid], nofun⟩
          · rw [if_neg hends, Bool.eq_false_iff.mpr hends, ← ih]
            simp [Except.isOk, Except.toBool]

/-- However the stream is cut, the loop ends, prints every valid message and reports a lost
connection at the end of the stream only, exactly if the stream is orderly. -/
theorem tcp_loop_iff (bodies : List Bytes) (hbodies : ∀ b ∈ bodies, b.length < 65536)
    (chunks : List Bytes) (hcut : chunks.flatten = Framing.frames bodies) :
    (∃ turns code c, runTcp (fun _ => .written) turns (start chunks) = some (code, c) ∧
      c.printed = valid bodies ∧ (code = 5 → c.framed.eof = true)) ↔ Orderly false bodies := by
  have hat : FramedRead.At ItchCodec.mk .start (start chunks).framed := ⟨rfl, rfl, rfl, rfl⟩
  obtain ⟨c', hrun, hprinted, heof⟩ :=
    runTcp_frames (c := start chunks) hbodies hat ⟨[], rfl, hcut⟩ (.inr rfl)
  rw [← ending_iff, ← heof]
  have hprinted' : c'.printed = (ending bodies).printed := hprinted
  rw [← hprinted']
  constructor
  · rintro ⟨turns, code, c, hturns, hc⟩
    -- both runs have ended, so they are one
    have hmax := runTcp_mono hturns (Nat.le_max_left turns (bodies.length + 2))
    have hmax' := runTcp_mono hrun (Nat.le_max_right turns (bodies.length + 2))
    rw [hmax] at hmax'
    obtain ⟨rfl, rfl⟩ := Prod.mk.inj (Option.some.inj hmax')
    exact hc
  · exact fun h => ⟨_, _, c', hrun, h⟩

/-- A delete that arrives byte by byte. -/
theorem tcp_loop_iff_bytewise :
    ∃ turns code c, runTcp (fun _ => .written) turns
        (start ((Framing.frames [Message.sampleDelete.wireImage]).map fun b => [b])) =
          some (code, c) ∧
      c.printed = valid [Message.sampleDelete.wireImage] ∧ (code = 5 → c.framed.eof = true) :=
  (tcp_loop_iff [Message.sampleDelete.wireImage] (by decide +kernel) _
    (List.flatMap_singleton' _)).mpr ⟨by decide +kernel, trivial⟩

/-- An unknown tag and a delete, in one piece: the delete is not printed, and the client exits
before the stream has ended. -/
theorem bad_frame_ends_loop :
    (runTcp (fun _ => .written) 2
      (start [Framing.frames [[0x7A], Message.sampleDelete.wireImage]])).map
        (fun r => (r.1, r.2.printed, r.2.framed.eof)) = some (5, [], false) ∧
    valid [[0x7A], Message.sampleDelete.wireImage] = [Message.sampleDelete] := by
  decide +kernel

end TcpClient

end Itch
