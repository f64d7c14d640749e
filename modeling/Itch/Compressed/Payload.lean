import Itch.Protocol.RoundTrip
import Itch.Soup.Packet

/-!
# Compressed payloads

A payload is one zstd frame over concatenated messages.  Decompression writes to a buffer
through a writer that takes no more than `MAX_DECOMPRESSED_LEN` bytes, and the messages are
cut from the buffer one after the other.

The zstd library is a parameter: what it compresses data to, and the pieces it writes when
it decompresses a frame.
-/

namespace Itch

/-- The kinds of `io::Error` that are told apart. -/
inductive IoErrorKind where
  | invalidData
  | unexpectedEof
  | writeZero
  | other
deriving Repr, DecidableEq

inductive CompressedError where
  | soup (error : SoupError)
  | compression (reason : String)
  | protocol (error : ProtocolError)
deriving Repr, DecidableEq

/-- The zstd library. -/
structure Zstd where
  /-- `encode_all` at a compression level. -/
  encodeAll : Bytes → Int32 → Except IoErrorKind Bytes
  /-- `copy_decode`: the pieces it writes with `write_all`, then the error it found in the
  frame, if any. -/
  copyDecode : Bytes → List Bytes × Option IoErrorKind

/-- Decoding inverts encoding. -/
def Zstd.Inverts (z : Zstd) : Prop :=
  ∀ (data : Bytes) (level : Int32) (frame : Bytes), z.encodeAll data level = .ok frame →
    (z.copyDecode frame).1.flatten = data ∧ (z.copyDecode frame).2 = none

/-- The most bytes a payload may decompress to. -/
def maxDecompressedLen : Nat := 64 * 1024

/-! ## The capped writer -/

/-- A writer that fails once `inner` holds `cap` bytes. -/
structure LimitedWriter where
  inner : Bytes
  cap : Nat
deriving Repr, DecidableEq

namespace LimitedWriter

/-- Write what fits. -/
def write (w : LimitedWriter) (src : Bytes) : Except IoErrorKind Nat × LimitedWriter :=
  let remaining := w.cap - w.inner.length
  if remaining = 0 then (.error .writeZero, w)
  else
    let take := min src.length remaining
    (.ok take, { w with inner := w.inner ++ src.take take })

/-- The loop of `write_all`, which writes until nothing is left of the source. -/
def writeAllLoop : Nat → LimitedWriter → Bytes → Except IoErrorKind Unit × LimitedWriter
  | 0, w, _ => (.ok (), w)
  | fuel + 1, w, src =>
      if src.isEmpty then (.ok (), w)
      else match w.write src with
        | (.error e, w) => (.error e, w)
        | (.ok 0, w) => (.error .writeZero, w)
        | (.ok (n + 1), w) => writeAllLoop fuel w (src.drop (n + 1))

/-- Every write takes a byte or fails, so there are no more writes than bytes. -/
def writeAll (w : LimitedWriter) (src : Bytes) : Except IoErrorKind Unit × LimitedWriter :=
  writeAllLoop src.length w src

/-- `copy_decode` into the writer, which stops at the first write that fails. -/
def copyFrom (w : LimitedWriter) : List Bytes × Option IoErrorKind →
    Except IoErrorKind Unit × LimitedWriter
  | ([], none) => (.ok (), w)
  | ([], some e) => (.error e, w)
  | (piece :: pieces, e) =>
      match w.writeAll piece with
      | (.error e, w) => (.error e, w)
      | (.ok (), w) => copyFrom w (pieces, e)

theorem writeAllLoop_nil (fuel : Nat) (w : LimitedWriter) :
    writeAllLoop fuel w [] = (.ok (), w) := by
  cases fuel <;> rfl

/-- A writer at its cap refuses every byte. -/
theorem writeAllLoop_of_full {w : LimitedWriter} {src : Bytes} (fuel : Nat)
    (hw : w.cap ≤ w.inner.length) (hsrc : src ≠ []) :
    writeAllLoop (fuel + 1) w src = (.error .writeZero, w) := by
  have hfull : w.cap - w.inner.length = 0 := Nat.sub_eq_zero_of_le hw
  simp [writeAllLoop, write, hsrc, hfull]

/-- A writer with room takes what fits and goes on with the rest. -/
theorem writeAllLoop_of_room {w : LimitedWriter} {src : Bytes} (fuel : Nat)
    (hw : w.inner.length < w.cap) (hsrc : src ≠ []) :
    writeAllLoop (fuel + 1) w src =
      writeAllLoop fuel { w with inner := w.inner ++ src.take (w.cap - w.inner.length) }
        (src.drop (w.cap - w.inner.length)) := by
  have hroom : w.cap - w.inner.length ≠ 0 := by omega
  have hlen : 0 < src.length := List.length_pos_of_ne_nil hsrc
  obtain ⟨n, hn⟩ : ∃ n, min src.length (w.cap - w.inner.length) = n + 1 :=
    ⟨min src.length (w.cap - w.inner.length) - 1, by omega⟩
  have htake : src.take (n + 1) = src.take (w.cap - w.inner.length) := by
    rw [← hn, List.take_eq_take_iff]
    omega
  have hdrop : src.drop (n + 1) = src.drop (w.cap - w.inner.length) := by
    rw [← hn, List.drop_eq_drop_iff]
    omega
  simp only [writeAllLoop, write, List.isEmpty_iff, hsrc, if_false, hroom, hn, htake, hdrop]

/-- A write that fits is made whole. -/
theorem writeAll_of_fits {w : LimitedWriter} {src : Bytes}
    (h : w.inner.length + src.length ≤ w.cap) :
    w.writeAll src = (.ok (), { w with inner := w.inner ++ src }) := by
  cases src with
  | nil => simp [writeAll, writeAllLoop_nil]
  | cons b src =>
      have hroom : (b :: src).length ≤ w.cap - w.inner.length := by omega
      have hpos : 0 < (b :: src).length := Nat.succ_pos _
      rw [writeAll, List.length_cons, writeAllLoop_of_room _ (by omega) (List.cons_ne_nil b src),
        List.take_of_length_le hroom, List.drop_of_length_le hroom, writeAllLoop_nil]

/-- A write that does not fit fails. -/
theorem writeAll_of_overflows {w : LimitedWriter} {src : Bytes}
    (hw : w.inner.length ≤ w.cap) (h : w.cap < w.inner.length + src.length) :
    (w.writeAll src).1 = .error .writeZero := by
  have hsrc : src ≠ [] := List.ne_nil_of_length_pos (by omega)
  obtain ⟨fuel, hfuel⟩ : ∃ fuel, src.length = fuel + 1 := ⟨src.length - 1, by omega⟩
  rcases hw.lt_or_eq with hroom | hfull
  · -- The first write fills the buffer and the second finds it full.
    obtain ⟨fuel', rfl⟩ : ∃ fuel', fuel = fuel' + 1 := ⟨fuel - 1, by omega⟩
    have hrest : src.drop (w.cap - w.inner.length) ≠ [] :=
      List.ne_nil_of_length_pos (by rw [List.length_drop]; omega)
    have hnow : w.cap ≤ (w.inner ++ src.take (w.cap - w.inner.length)).length := by
      rw [List.length_append, List.length_take]
      omega
    rw [writeAll, hfuel, writeAllLoop_of_room _ hroom hsrc, writeAllLoop_of_full fuel' hnow hrest]
  · rw [writeAll, hfuel, writeAllLoop_of_full fuel hfull.ge hsrc]

/-- A frame whose data fits is copied whole, up to the error in it. -/
theorem copyFrom_of_fits {w : LimitedWriter} {e : Option IoErrorKind} (pieces : List Bytes)
    (h : w.inner.length + pieces.flatten.length ≤ w.cap) :
    w.copyFrom (pieces, e) = (match e with | none => .ok () | some k => .error k,
      { w with inner := w.inner ++ pieces.flatten }) := by
  induction pieces generalizing w with
  | nil => cases e <;> simp [copyFrom]
  | cons piece pieces ih =>
      rw [List.flatten_cons, List.length_append] at h
      have hrest : (w.inner ++ piece).length + pieces.flatten.length ≤ w.cap := by
        rw [List.length_append]
        omega
      rw [copyFrom, writeAll_of_fits (by omega)]
      simp only
      rw [ih hrest, List.flatten_cons, List.append_assoc]

/-- A frame whose data does not fit fails to be copied. -/
theorem copyFrom_of_overflows {w : LimitedWriter} {e : Option IoErrorKind} (pieces : List Bytes)
    (hw : w.inner.length ≤ w.cap) (h : w.cap < w.inner.length + pieces.flatten.length) :
    (w.copyFrom (pieces, e)).1 = .error .writeZero := by
  induction pieces generalizing w with
  | nil => exact absurd h (by simpa using hw)
  | cons piece pieces ih =>
      rw [List.flatten_cons, List.length_append] at h
      rw [copyFrom]
      by_cases hfits : w.inner.length + piece.length ≤ w.cap
      · rw [writeAll_of_fits hfits]
        have hlen : (w.inner ++ piece).length = w.inner.length + piece.length :=
          List.length_append
        have hover : w.cap < (w.inner ++ piece).length + pieces.flatten.length := by
          rw [hlen]
          omega
        exact ih (hlen.trans_le hfits) hover
      · have hfails := writeAll_of_overflows hw (Nat.lt_of_not_le hfits)
        rcases hwrite : w.writeAll piece with ⟨r, w'⟩
        rw [hwrite] at hfails
        rw [show r = .error .writeZero from hfails]

end LimitedWriter

/-! ## Decompression -/

def translateZstdIoError (kind : IoErrorKind) : CompressedError :=
  .compression (match kind with
    | .invalidData => "zstd invalid data"
    | .unexpectedEof => "zstd truncated frame"
    | .writeZero => "zstd output exceeds MAX_DECOMPRESSED_LEN"
    | .other => "zstd decompression failed")

section

variable (z : Zstd)

/-- Decompress a frame into a buffer, of which nothing is read as it is cleared first.  The
number of bytes written, and the buffer. -/
def decompressInto (src _dst : Bytes) : Except CompressedError Nat × Bytes :=
  let writer : LimitedWriter := { inner := [], cap := maxDecompressedLen }
  match writer.copyFrom (z.copyDecode src) with
  | (.error kind, writer) => (.error (translateZstdIoError kind), writer.inner)
  | (.ok (), writer) => (.ok writer.inner.length, writer.inner)

/-- The bytes of a frame, all of them. -/
def Zstd.output (frame : Bytes) : Bytes :=
  (z.copyDecode frame).1.flatten

/-- What a payload decompresses to: the bytes of a whole frame if they are not too many. -/
def decompressed (payload : Bytes) : Except CompressedError Bytes :=
  if maxDecompressedLen < (z.output payload).length then
    .error (translateZstdIoError .writeZero)
  else match (z.copyDecode payload).2 with
    | some kind => .error (translateZstdIoError kind)
    | none => .ok (z.output payload)

variable {z}

theorem decompressed_of_overflows {payload : Bytes}
    (h : maxDecompressedLen < (z.output payload).length) :
    decompressed z payload = .error (.compression "zstd output exceeds MAX_DECOMPRESSED_LEN") :=
  if_pos h

/-- Decompression gives what the payload decompresses to, whatever the buffer held. -/
theorem decompressInto_eq (payload dst : Bytes) :
    (∃ data, decompressed z payload = .ok data ∧
      decompressInto z payload dst = (.ok data.length, data)) ∨
    ∃ e, decompressed z payload = .error e ∧ (decompressInto z payload dst).1 = .error e := by
  rcases hz : z.copyDecode payload with ⟨pieces, e⟩
  have hout : z.output payload = pieces.flatten := by rw [Zstd.output, hz]
  by_cases hfits : pieces.flatten.length ≤ maxDecompressedLen
  · have hcopy := LimitedWriter.copyFrom_of_fits (e := e)
      (w := { inner := [], cap := maxDecompressedLen }) pieces
      (by rw [List.length_nil, Nat.zero_add]; exact hfits)
    rw [decompressed, if_neg (by rw [hout]; omega), hout]
    cases e with
    | none =>
        refine .inl ⟨pieces.flatten, by rw [hz], ?_⟩
        simp only [decompressInto, hz, hcopy, List.nil_append]
    | some kind =>
        refine .inr ⟨translateZstdIoError kind, by rw [hz], ?_⟩
        simp only [decompressInto, hz, hcopy]
  · have hover : maxDecompressedLen < (z.output payload).length := by rw [hout]; omega
    have hcopy := LimitedWriter.copyFrom_of_overflows (e := e)
      (w := { inner := [], cap := maxDecompressedLen }) pieces (Nat.zero_le _)
      (by rw [List.length_nil, Nat.zero_add]; exact Nat.lt_of_not_le hfits)
    refine .inr ⟨_, if_pos hover, ?_⟩
    simp only [decompressInto, hz]
    split
    · next kind w hfails =>
        rw [hfails] at hcopy
        exact congrArg (Except.error ∘ translateZstdIoError) (Except.error.inj hcopy)
    · next w hdone =>
        rw [hdone] at hcopy
        cases hcopy

end

/-! ## Messages -/

/-- The concatenated images of messages. -/
def wireImages (messages : List Message) : Bytes :=
  messages.flatMap Message.wireImage

@[simp] theorem wireImages_nil : wireImages [] = [] := rfl

@[simp] theorem wireImages_cons (m : Message) (messages : List Message) :
    wireImages (m :: messages) = m.wireImage ++ wireImages messages := rfl

theorem length_wireImages (messages : List Message) :
    (wireImages messages).length = (messages.map Message.encodedLen).sum := by
  simp [wireImages, List.length_flatMap]

theorem length_le_length_wireImages (messages : List Message) :
    messages.length ≤ (wireImages messages).length := by
  induction messages with
  | nil => exact Nat.le_refl 0
  | cons m messages ih =>
      have hpos : 0 < m.wireImage.length := Nat.succ_pos _
      rw [wireImages_cons, List.length_append, List.length_cons]
      omega

/-- `Vec::resize` with zeros. -/
def resize (buf : Bytes) (n : Nat) : Bytes :=
  buf.take n ++ List.replicate (n - buf.length) 0

@[simp] theorem length_resize (buf : Bytes) (n : Nat) : (resize buf n).length = n := by
  rw [resize, List.length_append, List.length_take, List.length_replicate]
  omega

/-- The loop that encodes messages one after the other through the buffer `tmp`. -/
def concatenate : Bytes → Bytes → List Message → Except CompressedError Bytes
  | _, concatenated, [] => .ok concatenated
  | tmp, concatenated, m :: messages =>
      match m.encode (resize tmp m.encodedLen) with
      | .error e => .error (.protocol e)
      | .ok (_, tmp) => concatenate tmp (concatenated ++ tmp) messages

def compressMessages (z : Zstd) (messages : List Message) (level : Int32) :
    Except CompressedError Bytes :=
  match concatenate [] [] messages with
  | .error e => .error e
  | .ok concatenated =>
      match z.encodeAll concatenated level with
      | .error _ => .error (.compression "zstd compression failed")
      | .ok compressed => .ok compressed

/-- The loop that decodes messages from `off` on. -/
def decodeFrom (scratch : Bytes) : Nat → Nat → List Message → Except CompressedError (List Message)
  | 0, _, out => .ok out
  | fuel + 1, off, out =>
      if off < scratch.length then
        match Message.decode (scratch.drop off) with
        | .error e => .error (.protocol e)
        | .ok msg => decodeFrom scratch fuel (off + msg.encodedLen) (out ++ [msg])
      else .ok out

/-- Every message has a byte, so there are no more messages than bytes. -/
def decompressMessages (z : Zstd) (compressed : Bytes) : Except CompressedError (List Message) :=
  match decompressInto z compressed [] with
  | (.error e, _) => .error e
  | (.ok _, scratch) => decodeFrom scratch scratch.length 0 []

theorem concatenate_eq (tmp concatenated : Bytes) (messages : List Message) :
    concatenate tmp concatenated messages = .ok (concatenated ++ wireImages messages) := by
  induction messages generalizing tmp concatenated with
  | nil => rw [concatenate, wireImages_nil, List.append_nil]
  | cons m messages ih =>
      have hlen : (resize tmp m.encodedLen).length = m.encodedLen := length_resize _ _
      have henc := Message.encode_eq hlen.ge
      rw [List.drop_of_length_le hlen.le, List.append_nil] at henc
      simp only [concatenate, henc]
      rw [ih, wireImages_cons, List.append_assoc]

/-- The image of a message decodes to it, whatever follows. -/
theorem decode_wireImage_append {m : Message} (h : m.FitsWire) (rest : Bytes) :
    Message.decode (m.wireImage ++ rest) = .ok m :=
  Message.decode_eq_ok.mpr ⟨h, List.prefix_append _ _⟩

theorem drop_wireImage_append (m : Message) (rest : Bytes) :
    (m.wireImage ++ rest).drop m.encodedLen = rest := by
  rw [← Message.wireImage_length, List.drop_left]

theorem decodeFrom_wireImages {scratch : Bytes} {off fuel : Nat} {out messages : List Message}
    (hfits : ∀ m ∈ messages, m.FitsWire) (hfuel : messages.length ≤ fuel)
    (h : scratch.drop off = wireImages messages) :
    decodeFrom scratch fuel off out = .ok (out ++ messages) := by
  induction messages generalizing off fuel out with
  | nil =>
      have hoff : ¬off < scratch.length := Nat.not_lt.mpr (List.drop_eq_nil_iff.mp h)
      cases fuel <;> simp [decodeFrom, hoff]
  | cons m messages ih =>
      obtain ⟨hm, hfits⟩ := List.forall_mem_cons.mp hfits
      obtain ⟨fuel, rfl⟩ : ∃ n, fuel = n + 1 :=
        ⟨fuel - 1, by rw [List.length_cons] at hfuel; omega⟩
      have hoff : off < scratch.length := by
        have hlen := congrArg List.length h
        simp only [wireImages_cons, List.length_append, List.length_drop, Message.wireImage,
          List.length_cons] at hlen
        omega
      have hrest : scratch.drop (off + m.encodedLen) = wireImages messages := by
        rw [← List.drop_drop, h, wireImages_cons, drop_wireImage_append]
      rw [decodeFrom, if_pos hoff, h, wireImages_cons, decode_wireImage_append hm]
      simp only
      rw [ih hfits (Nat.le_of_succ_le_succ hfuel) hrest, List.append_assoc, List.singleton_append]

/-- Messages that were compressed are decompressed to themselves. -/
theorem decompressMessages_compressMessages {z : Zstd} (hz : z.Inverts)
    {messages : List Message} {level : Int32} {compressed : Bytes}
    (hfits : ∀ m ∈ messages, m.FitsWire)
    (hlen : (messages.map Message.encodedLen).sum ≤ maxDecompressedLen)
    (h : z.encodeAll (wireImages messages) level = .ok compressed) :
    decompressMessages z compressed = .ok messages := by
  obtain ⟨hout, hend⟩ := hz _ _ _ h
  have hdata : decompressed z compressed = .ok (wireImages messages) := by
    rw [decompressed, Zstd.output, hout, hend, if_neg (by rw [length_wireImages]; omega)]
  rcases decompressInto_eq (z := z) compressed [] with ⟨data, hok, hinto⟩ | ⟨e, herr, -⟩
  · obtain rfl : data = wireImages messages := Except.ok.inj (hok.symm.trans hdata)
    simp only [decompressMessages, hinto]
    exact decodeFrom_wireImages hfits (length_le_length_wireImages messages) rfl
  · cases herr.symm.trans hdata

/-- Compression fails only if the library does. -/
theorem compressMessages_eq (z : Zstd) (messages : List Message) (level : Int32) :
    compressMessages z messages level =
      match z.encodeAll (wireImages messages) level with
      | .error _ => .error (.compression "zstd compression failed")
      | .ok compressed => .ok compressed := by
  simp only [compressMessages, concatenate_eq, List.nil_append]

/-- Any bytes are the images of messages and a rest that is empty or no message starts. -/
theorem exists_wireImages_append (data : Bytes) :
    ∃ messages rest, data = wireImages messages ++ rest ∧ (∀ m ∈ messages, m.FitsWire) ∧
      (rest = [] ∨ rest ≠ [] ∧ ∃ e, Message.decode rest = .error e) := by
  induction hn : data.length using Nat.strong_induction_on generalizing data with
  | _ n ih =>
      subst hn
      by_cases hnil : data = []
      · exact ⟨[], [], by simp [hnil], by simp, .inl rfl⟩
      rcases hdec : Message.decode data with e | m
      · exact ⟨[], data, rfl, by simp, .inr ⟨hnil, e, hdec⟩⟩
      · obtain ⟨hm, tail, rfl⟩ := Message.decode_eq_ok.mp hdec
        have hshort : tail.length < (m.wireImage ++ tail).length := by
          rw [List.length_append, Message.wireImage, List.length_cons]
          omega
        obtain ⟨messages, rest, rfl, hfits, hrest⟩ := ih _ hshort tail rfl
        exact ⟨m :: messages, rest, by rw [wireImages_cons, List.append_assoc],
          List.forall_mem_cons.mpr ⟨hm, hfits⟩, hrest⟩

end Itch
