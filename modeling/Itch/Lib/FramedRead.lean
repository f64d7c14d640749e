import Itch.Lib.Framing

/-!
# The reading side of a framed stream

The adapter that turns a byte stream and a decoder into a stream of items.  It decodes as
long as its buffer may hold an item, and reads when it does not.  At the end of the stream the
decoder is asked one last time, and an error is due if it leaves bytes behind.

An item that is an error is followed by one end of the stream, after which reading resumes.
So the end of the stream is reported at two places: where the bytes end, and after an error.

The stream is the list of the pieces that its reads return, none of them empty; after the
last one a read returns nothing.
-/

namespace Lib

class Decoder (ε α : outParam Type) (C : Type) where
  /-- The next item of a buffer if it is there, and what is left. -/
  decode : C → List UInt8 → Except ε (Option α) × C × List UInt8
  /-- The error for bytes that are left at the end of the stream. -/
  remaining : ε

structure FramedRead (C : Type) where
  codec : C
  buffer : List UInt8
  /-- The last read returned nothing. -/
  eof : Bool
  /-- The buffer may hold an item. -/
  isReadable : Bool
  /-- The last item was an error. -/
  hasErrored : Bool
deriving Repr, DecidableEq

namespace FramedRead

variable {ε α C : Type} [Decoder ε α C]

def new (codec : C) : FramedRead C where
  codec := codec
  buffer := []
  eof := false
  isReadable := false
  hasErrored := false

/-- The last call of the decoder. -/
def decodeEof (codec : C) (buffer : List UInt8) : Except ε (Option α) × C × List UInt8 :=
  match Decoder.decode codec buffer with
  | (.ok none, codec, buffer) =>
      if buffer.isEmpty then (.ok none, codec, buffer)
      else (.error (Decoder.remaining C), codec, buffer)
  | result => result

/-- A turn up to the next read: what is returned, or `none` to read. -/
def turn (f : FramedRead C) : Option (Option (Except ε α)) × FramedRead C :=
  if f.hasErrored then (some none, { f with isReadable := false, hasErrored := false })
  else if f.isReadable then
    if f.eof then
      match decodeEof f.codec f.buffer with
      | (.error e, codec, buffer) =>
          (some (some (.error e)), { f with codec := codec, buffer := buffer, hasErrored := true })
      | (.ok none, codec, buffer) =>
          (some none, { f with codec := codec, buffer := buffer, isReadable := false })
      | (.ok (some a), codec, buffer) =>
          (some (some (.ok a)), { f with codec := codec, buffer := buffer })
    else
      match Decoder.decode f.codec f.buffer with
      | (.error e, codec, buffer) =>
          (some (some (.error e)), { f with codec := codec, buffer := buffer, hasErrored := true })
      | (.ok none, codec, buffer) =>
          (none, { f with codec := codec, buffer := buffer, isReadable := false })
      | (.ok (some a), codec, buffer) =>
          (some (some (.ok a)), { f with codec := codec, buffer := buffer })
  else (none, f)

/-- A read that returns some bytes. -/
def receive (f : FramedRead C) (bytes : List UInt8) : FramedRead C :=
  { f with buffer := f.buffer ++ bytes, eof := false, isReadable := true }

/-- The next item, `none` for the end of the stream, with the reads that were not needed. -/
def pollNext (f : FramedRead C) :
    List (List UInt8) → Option (Except ε α) × FramedRead C × List (List UInt8)
  | [] =>
      match turn f with
      | (some item, f) => (item, f, [])
      | (none, f) =>
          if f.eof then (none, f, [])
          else
            match turn { f with eof := true, isReadable := true } with
            | (some item, f) => (item, f, [])
            | (none, f) => (none, f, [])
  | chunk :: chunks =>
      match turn f with
      | (some item, f) => (item, f, chunk :: chunks)
      | (none, f) => pollNext (f.receive chunk) chunks

/-! ## Streams of frames -/

open Framing

variable {F : Format (Except ε α)} {codecOf : Nat → C} {f : FramedRead C} {s : Reader}
  {reads : List (List UInt8)} {bodies : List (List UInt8)}

/-- The decoder reads the frames of a format, with a codec for the number of bytes to discard. -/
def Decodes (F : Format (Except ε α)) (codecOf : Nat → C) : Prop :=
  ∀ s : Reader, ∃ result, item result = (F.next s).1 ∧
    Decoder.decode (codecOf s.skip) s.buffer =
      (result, codecOf (F.next s).2.skip, (F.next s).2.buffer)

/-- The state of the adapter in the middle of a stream without an error so far. -/
structure At (codecOf : Nat → C) (s : Reader) (f : FramedRead C) : Prop where
  codec : f.codec = codecOf s.skip
  buffer : f.buffer = s.buffer
  eof : f.eof = false
  hasErrored : f.hasErrored = false

/-- An item is decoded as soon as it is complete. -/
theorem turn_of_some (hdecodes : Decodes F codecOf) (hat : At codecOf s f)
    (hreadable : f.isReadable = true) {r : Except ε α} {s' : Reader}
    (hnext : F.next s = (some r, s')) :
    turn f = (some (some r), { f with
      codec := codecOf s'.skip, buffer := s'.buffer, hasErrored := !r.isOk }) := by
  obtain ⟨result, hitem, hdecode⟩ := hdecodes s
  rw [hnext] at hitem hdecode
  rw [turn, hat.hasErrored, hreadable, hat.eof, hat.codec, hat.buffer, hdecode]
  match result, hitem with
  | .ok (some a), rfl => simp [Except.isOk, Except.toBool]
  | .error e, rfl => simp [Except.isOk, Except.toBool]

theorem turn_of_none (hdecodes : Decodes F codecOf) (hat : At codecOf s f)
    (hreadable : f.isReadable = true) {s' : Reader} (hnext : F.next s = (none, s')) :
    ∃ f', turn f = (none, f') ∧ At codecOf s' f' := by
  obtain ⟨result, hitem, hdecode⟩ := hdecodes s
  rw [hnext] at hitem hdecode
  refine ⟨{ f with codec := codecOf s'.skip, buffer := s'.buffer, isReadable := false }, ?_,
    rfl, rfl, hat.eof, hat.hasErrored⟩
  rw [turn, hat.hasErrored, hreadable, hat.eof, hat.codec, hat.buffer, hdecode]
  match result, hitem with
  | .ok none, _ => simp

/-- Where the stream ends with nothing left over, its end is reported. -/
theorem turn_at_end (hdecodes : Decodes F codecOf) (hat : At codecOf .start f) :
    ∃ f', turn { f with eof := true, isReadable := true } = (some none, f') ∧ f'.eof = true := by
  obtain ⟨result, hitem, hdecode⟩ := hdecodes .start
  have hnext : F.next .start = (none, .start) := rfl
  rw [hnext] at hitem hdecode
  refine ⟨{ f with codec := codecOf 0, buffer := [], eof := true, isReadable := false }, ?_, rfl⟩
  rw [turn, hat.hasErrored, decodeEof, hat.codec, hat.buffer, hdecode]
  match result, hitem with
  | .ok none, _ => rfl

theorem eq_nil_of_frames_eq_nil (h : frames bodies = []) : bodies = [] := by
  cases bodies with
  | nil => rfl
  | cons body rest =>
      have htwo := two_le_length_frame body
      rw [frames_cons] at h
      rw [(List.append_eq_nil_iff.mp h).1] at htwo
      cases htwo

/-- After a result: the frames behind it are still to come. -/
structure After (F : Format (Except ε α)) (codecOf : Nat → C) (body : List UInt8)
    (rest : List (List UInt8)) (f : FramedRead C) (reads : List (List UInt8)) (s : Reader) :
    Prop where
  holds : s.Holds reads.flatten rest
  codec : f.codec = codecOf s.skip
  buffer : f.buffer = s.buffer
  eof : f.eof = false
  isReadable : f.isReadable = true
  hasErrored : f.hasErrored = !(F.outcome body).isOk

/-- Either a result is there, or nothing is complete and the stream goes on behind it. -/
theorem turn_frames (hdecodes : Decodes F codecOf) (hbodies : ∀ b ∈ bodies, b.length < 65536)
    (hat : At codecOf s f) (hholds : s.Holds reads.flatten bodies)
    (hfirst : f.isReadable = true ∨ s = .start) :
    (∃ f' s', turn f = (none, f') ∧ At codecOf s' f' ∧ s'.Holds reads.flatten bodies ∧
      (reads.flatten = [] → bodies = [] ∧ s' = .start)) ∨
    ∃ body rest f' s', bodies = body :: rest ∧ turn f = (some (some (F.outcome body)), f') ∧
      After F codecOf body rest f' reads s' := by
  by_cases hreadable : f.isReadable = true
  · rcases hholds.next_cases (F := F) hbodies with
      ⟨s', hnext, hs', hend⟩ | ⟨body, rest, s', rfl, hnext, hs', -⟩
    · obtain ⟨f', hf', hat'⟩ := turn_of_none hdecodes hat hreadable hnext
      exact .inl ⟨f', s', hf', hat', hs', hend⟩
    · exact .inr ⟨body, rest, _, s', rfl, turn_of_some hdecodes hat hreadable hnext,
        hs', rfl, rfl, hat.eof, hreadable, rfl⟩
  · have hstart : s = .start := hfirst.resolve_left hreadable
    have hf : turn f = (none, f) := by
      rw [turn, hat.hasErrored, Bool.eq_false_iff.mpr hreadable]
      rfl
    refine .inl ⟨f, s, hf, hat, hholds, fun hnil => ⟨?_, hstart⟩⟩
    obtain ⟨junk, hjunk, hbytes⟩ := hholds
    rw [hstart, hnil] at hbytes
    exact eq_nil_of_frames_eq_nil (List.append_eq_nil_iff.mp hbytes.symm).2

/-- The next item is the result of the next frame, or the end of the stream if there is none. -/
theorem pollNext_frames (hdecodes : Decodes F codecOf) (hbodies : ∀ b ∈ bodies, b.length < 65536)
    (hat : At codecOf s f) (hholds : s.Holds reads.flatten bodies)
    (hfirst : f.isReadable = true ∨ s = .start) :
    (bodies = [] ∧ ∃ f', pollNext f reads = (none, f', []) ∧ f'.eof = true) ∨
    ∃ body rest f' reads' s', bodies = body :: rest ∧
      pollNext f reads = (some (F.outcome body), f', reads') ∧
      After F codecOf body rest f' reads' s' := by
  -- every turn without a result reads one more piece
  induction reads generalizing f s with
  | nil =>
      rcases turn_frames hdecodes hbodies hat hholds hfirst with
        ⟨f', s', hf', hat', -, hend⟩ | ⟨body, rest, f', s', rfl, hf', hafter⟩
      · obtain ⟨rfl, rfl⟩ := hend rfl
        obtain ⟨f'', hf'', heof⟩ := turn_at_end hdecodes hat'
        refine .inl ⟨rfl, f'', ?_, heof⟩
        rw [pollNext, hf']
        dsimp only
        rw [hat'.eof, hf'']
        rfl
      · refine .inr ⟨body, rest, f', [], s', rfl, ?_, hafter⟩
        rw [pollNext, hf']
  | cons chunk chunks ih =>
      rcases turn_frames hdecodes hbodies hat hholds hfirst with
        ⟨f', s', hf', hat', ⟨junk, hjunk, hbytes⟩, -⟩ | ⟨body, rest, f', s', rfl, hf', hafter⟩
      · have hreceived : (s'.receive chunk).Holds chunks.flatten bodies :=
          ⟨junk, hjunk, by rw [Reader.receive, List.append_assoc]; exact hbytes⟩
        have hat'' : At codecOf (s'.receive chunk) (f'.receive chunk) :=
          ⟨hat'.codec, congrArg (· ++ chunk) hat'.buffer, rfl, hat'.hasErrored⟩
        rw [pollNext, hf']
        exact ih hat'' hreceived (.inl rfl)
      · refine .inr ⟨body, rest, f', chunk :: chunks, s', rfl, ?_, hafter⟩
        rw [pollNext, hf']

/-- After an error the next item is the end of the stream, whatever is still to come. -/
theorem pollNext_of_hasErrored (h : f.hasErrored = true) :
    ∃ f', pollNext f reads = (none, f', reads) ∧ f'.eof = f.eof := by
  have hturn : turn f = (some none, { f with isReadable := false, hasErrored := false }) := by
    rw [turn, if_pos h]
  refine ⟨{ f with isReadable := false, hasErrored := false }, ?_, rfl⟩
  cases reads with
  | nil => rw [pollNext, hturn]
  | cons chunk chunks => rw [pollNext, hturn]

/-! ## Streams that stop within a frame -/

variable {src part : List UInt8}

/-- At the end of the stream the decoder finds nothing, and bytes that are left are an error. -/
theorem turn_eof (hdecodes : Decodes F codecOf)
    (hat : At codecOf { skip := 0, buffer := src } f)
    (hnext : F.next { skip := 0, buffer := src } = (none, { skip := 0, buffer := src })) :
    ∃ f', turn { f with eof := true, isReadable := true } =
      (some (if src = [] then none else some (.error (Decoder.remaining C))), f') := by
  obtain ⟨result, hitem, hdecode⟩ := hdecodes { skip := 0, buffer := src }
  rw [hnext] at hitem hdecode
  rw [turn, hat.hasErrored, decodeEof, hat.codec, hat.buffer, hdecode]
  match result, hitem with
  | .ok none, _ =>
      by_cases hsrc : src = []
      · simp [hsrc]
      · simp [hsrc]

/-- Either the first frame is there, or the turn only asks for a read. -/
theorem turn_unfinished (hdecodes : Decodes F codecOf) (hpart : F.Unfinished part)
    (hbodies : ∀ b ∈ bodies, b.length ≤ F.limit) (hok : ∀ b ∈ bodies, (F.parse b).isOk = true)
    (hlimit : F.limit < 65536) (hat : At codecOf { skip := 0, buffer := src } f)
    (h : src ++ reads.flatten = frames bodies ++ part)
    (hfirst : f.isReadable = true ∨ src = []) :
    (∃ f', turn f = (none, f') ∧ At codecOf { skip := 0, buffer := src } f' ∧
      F.next { skip := 0, buffer := src } = (none, { skip := 0, buffer := src }) ∧
      (reads.flatten = [] → bodies = [])) ∨
    ∃ body rest f' src', bodies = body :: rest ∧ turn f = (some (some (F.parse body)), f') ∧
      At codecOf { skip := 0, buffer := src' } f' ∧ f'.isReadable = true ∧
      src' ++ reads.flatten = frames rest ++ part := by
  by_cases hreadable : f.isReadable = true
  · rcases F.next_unfinished hpart hbodies hlimit h with
      ⟨hnext, hend⟩ | ⟨body, rest, left, rfl, hnext, hleft⟩
    · obtain ⟨f', hf', hat'⟩ := turn_of_none hdecodes hat hreadable hnext
      exact .inl ⟨f', hf', hat', hnext, hend⟩
    · refine .inr ⟨body, rest, _, left, rfl, turn_of_some hdecodes hat hreadable hnext,
        ⟨rfl, rfl, hat.eof, ?_⟩, hreadable, hleft⟩
      simp [hok body List.mem_cons_self]
  · obtain rfl := hfirst.resolve_left hreadable
    have hf : turn f = (none, f) := by
      rw [turn, hat.hasErrored, Bool.eq_false_iff.mpr hreadable]
      rfl
    refine .inl ⟨f, hf, hat, rfl, fun hnil => ?_⟩
    rw [hnil] at h
    exact eq_nil_of_frames_eq_nil (List.append_eq_nil_iff.mp h.symm).1

/-- The next item is the result of the next frame.  After the last one the end of the stream is
reported if it stops there, and an error if it stops within a frame. -/
theorem pollNext_unfinished (hdecodes : Decodes F codecOf) (hpart : F.Unfinished part)
    (hbodies : ∀ b ∈ bodies, b.length ≤ F.limit) (hok : ∀ b ∈ bodies, (F.parse b).isOk = true)
    (hlimit : F.limit < 65536) (hat : At codecOf { skip := 0, buffer := src } f)
    (h : src ++ reads.flatten = frames bodies ++ part)
    (hfirst : f.isReadable = true ∨ src = []) :
    (bodies = [] ∧ ∃ f', pollNext f reads =
      (if part = [] then none else some (.error (Decoder.remaining C)), f', [])) ∨
    ∃ body rest f' reads' src', bodies = body :: rest ∧
      pollNext f reads = (some (F.parse body), f', reads') ∧
      At codecOf { skip := 0, buffer := src' } f' ∧ f'.isReadable = true ∧
      src' ++ reads'.flatten = frames rest ++ part := by
  -- every turn without a result reads one more piece
  induction reads generalizing f src with
  | nil =>
      rcases turn_unfinished hdecodes hpart hbodies hok hlimit hat h hfirst with
        ⟨f', hf', hat', hnext, hend⟩ | ⟨body, rest, f', src', rfl, hf', hrest⟩
      · obtain rfl := hend rfl
        obtain rfl : src = part := (List.append_nil src).symm.trans h
        obtain ⟨f'', hf''⟩ := turn_eof hdecodes hat' hnext
        refine .inl ⟨rfl, f'', ?_⟩
        rw [pollNext, hf']
        dsimp only
        rw [hat'.eof, hf'']
        rfl
      · refine .inr ⟨body, rest, f', [], src', rfl, ?_, hrest⟩
        rw [pollNext, hf']
  | cons chunk chunks ih =>
      rcases turn_unfinished hdecodes hpart hbodies hok hlimit hat h hfirst with
        ⟨f', hf', hat', -, -⟩ | ⟨body, rest, f', src', rfl, hf', hrest⟩
      · have hreceived : At codecOf { skip := 0, buffer := src ++ chunk } (f'.receive chunk) :=
          ⟨hat'.codec, congrArg (· ++ chunk) hat'.buffer, rfl, hat'.hasErrored⟩
        rw [pollNext, hf']
        refine ih hreceived ?_ (.inl rfl)
        rw [List.append_assoc]
        exact h
      · refine .inr ⟨body, rest, f', chunk :: chunks, src', rfl, ?_, hrest⟩
        rw [pollNext, hf']

end FramedRead

end Lib
