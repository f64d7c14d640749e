import Itch.Lib.BigEndian

/-!
# Length-prefixed frames

A stream is cut into frames, each a two-byte length and a body.  A reader holds the bytes
received and not read yet.  A frame whose length is beyond a limit is reported as soon as
its prefix is there, and the reader then remembers how many of its bytes are still to be
discarded.

Bytes arrive in chunks, and after each chunk the reader is asked for results until it has
none.  `Holds` is the invariant of that loop: what is buffered and what is still to come
are the bytes to discard, followed by whole frames.  However the stream is cut, the
results are one per frame (`feeds_frames`).
-/

namespace Lib

namespace Framing

/-! ## Loops -/

section Loops

variable {σ τ ρ : Type} {next : σ → Option ρ × σ} {receive : σ → List UInt8 → σ} {s s' s'' : σ}

/-- The results of asking until there is none, and the state that leaves. -/
inductive Drains (next : σ → Option ρ × σ) : σ → List ρ → σ → Prop where
  | done {s s' : σ} : next s = (none, s') → Drains next s [] s'
  | more {s s' s'' : σ} {r : ρ} {rs : List ρ} :
      next s = (some r, s') → Drains next s' rs s'' → Drains next s (r :: rs) s''

/-- The results of a stream that arrives in chunks, drained after each. -/
inductive Feeds (next : σ → Option ρ × σ) (receive : σ → List UInt8 → σ) :
    σ → List (List UInt8) → List ρ → σ → Prop where
  | nil {s : σ} : Feeds next receive s [] [] s
  | cons {s s' s'' : σ} {chunk : List UInt8} {chunks : List (List UInt8)} {rs rs' : List ρ} :
      Drains next (receive s chunk) rs s' → Feeds next receive s' chunks rs' s'' →
        Feeds next receive s (chunk :: chunks) (rs ++ rs') s''

theorem Drains.unique {rs rs' : List ρ} (h : Drains next s rs s') (h' : Drains next s rs' s'') :
    rs = rs' ∧ s' = s'' := by
  induction h generalizing rs' with
  | done hnext =>
      cases h' with
      | done hnext' =>
          rw [hnext] at hnext'
          cases hnext'
          exact ⟨rfl, rfl⟩
      | more hnext' _ =>
          rw [hnext] at hnext'
          cases hnext'
  | more hnext _ ih =>
      cases h' with
      | done hnext' =>
          rw [hnext] at hnext'
          cases hnext'
      | more hnext' hrest =>
          rw [hnext] at hnext'
          cases hnext'
          obtain ⟨rfl, rfl⟩ := ih hrest
          exact ⟨rfl, rfl⟩

theorem Feeds.unique {chunks : List (List UInt8)} {rs rs' : List ρ}
    (h : Feeds next receive s chunks rs s') (h' : Feeds next receive s chunks rs' s'') :
    rs = rs' ∧ s' = s'' := by
  induction h generalizing rs' with
  | nil =>
      cases h'
      exact ⟨rfl, rfl⟩
  | cons hdrain _ ih =>
      cases h' with
      | cons hdrain' hrest =>
          obtain ⟨rfl, rfl⟩ := hdrain.unique hdrain'
          obtain ⟨rfl, rfl⟩ := ih hrest
          exact ⟨rfl, rfl⟩

/-! A reader that another one simulates has the same results. -/

variable {next' : τ → Option ρ × τ} {receive' : τ → List UInt8 → τ} {f : σ → τ}

theorem Drains.map {rs : List ρ} (hnext : ∀ s, next' (f s) = ((next s).1, f (next s).2))
    (h : Drains next s rs s') : Drains next' (f s) rs (f s') := by
  induction h with
  | done hs => exact .done (by rw [hnext, hs])
  | more hs _ ih => exact .more (by rw [hnext, hs]) ih

theorem Feeds.map {chunks : List (List UInt8)} {rs : List ρ}
    (hnext : ∀ s, next' (f s) = ((next s).1, f (next s).2))
    (hreceive : ∀ s chunk, receive' (f s) chunk = f (receive s chunk))
    (h : Feeds next receive s chunks rs s') : Feeds next' receive' (f s) chunks rs (f s') := by
  induction h with
  | nil => exact .nil
  | cons hdrain _ ih => exact .cons (by rw [hreceive]; exact hdrain.map hnext) ih

end Loops

/-- The item of a framed stream for a result of a codec: no frame is no item. -/
def item {ε α : Type} : Except ε (Option α) → Option (Except ε α)
  | .ok none => none
  | .ok (some a) => some (.ok a)
  | .error e => some (.error e)

@[simp] theorem item_map_some {ε α : Type} (x : Except ε α) : item (x.map some) = some x := by
  cases x <;> rfl

/-- Discarding the rest of a frame: wait as long as it is not all there, and go on after it
once it is. -/
theorem discard_eq {α : Type} (wait go : Nat → List UInt8 → α) (skip : Nat) (src : List UInt8) :
    (if skip > 0 then
      if skip - min skip src.length > 0 then
        wait (skip - min skip src.length) (src.drop (min skip src.length))
      else go (skip - min skip src.length) (src.drop (min skip src.length))
    else go skip src) =
    if src.length < skip then wait (skip - src.length) [] else go 0 (src.drop skip) := by
  by_cases h : src.length < skip
  · have hleft : skip - src.length > 0 := by omega
    rw [if_pos (Nat.zero_lt_of_lt h), if_pos h, Nat.min_eq_right h.le, if_pos hleft,
      List.drop_length]
  · rw [if_neg h, Nat.min_eq_left (Nat.le_of_not_lt h), Nat.sub_self, if_neg (Nat.lt_irrefl 0)]
    cases skip with
    | zero => rfl
    | succ skip => rw [if_pos (Nat.succ_pos skip)]

/-! ## Frames -/

/-- The bytes of a frame. -/
def frame (body : List UInt8) : List UInt8 :=
  toBE 2 body.length ++ body

/-- The bytes of a list of frames. -/
def frames (bodies : List (List UInt8)) : List UInt8 :=
  bodies.flatMap frame

@[simp] theorem frames_cons (body : List UInt8) (bodies : List (List UInt8)) :
    frames (body :: bodies) = frame body ++ frames bodies := rfl

/-- What the bodies of frames mean. -/
structure Format (ρ : Type) where
  /-- The largest body that is read. -/
  limit : Nat
  /-- The result for a larger one, by its length. -/
  tooLarge : Nat → ρ
  /-- The result for a body that is read. -/
  parse : List UInt8 → ρ

/-- What a reader holds. -/
structure Reader where
  /-- Bytes of a frame beyond the limit that are still to come and to be discarded. -/
  skip : Nat
  /-- Bytes received and not read. -/
  buffer : List UInt8

namespace Reader

def start : Reader where
  skip := 0
  buffer := []

def receive (s : Reader) (bytes : List UInt8) : Reader :=
  { s with buffer := s.buffer ++ bytes }

end Reader

namespace Format

variable {ρ : Type} (F : Format ρ)

/-- The result for a body. -/
def outcome (body : List UInt8) : ρ :=
  if F.limit < body.length then F.tooLarge body.length else F.parse body

/-- Read a frame off the front of a buffer. -/
def readFrame (src : List UInt8) : Option ρ × Reader :=
  match src with
  | hi :: lo :: body =>
      let length := ofBE [hi, lo]
      let total := 2 + length
      if F.limit < length then
        if src.length ≥ total then
          (some (F.tooLarge length), { skip := 0, buffer := src.drop total })
        else (some (F.tooLarge length), { skip := total - src.length, buffer := [] })
      else if src.length < total then (none, { skip := 0, buffer := src })
      else (some (F.parse (body.take length)), { skip := 0, buffer := body.drop length })
  | _ => (none, { skip := 0, buffer := src })

/-- A frame beyond the limit: what is there of it is dropped, and the rest will be. -/
theorem readFrame_large {hi lo : UInt8} {body : List UInt8} (h : F.limit < ofBE [hi, lo]) :
    F.readFrame (hi :: lo :: body) = (some (F.tooLarge (ofBE [hi, lo])),
      { skip := ofBE [hi, lo] - body.length, buffer := body.drop (ofBE [hi, lo]) }) := by
  rw [readFrame, if_pos h]
  by_cases hall : (hi :: lo :: body).length ≥ 2 + ofBE [hi, lo]
  · have hle : ofBE [hi, lo] ≤ body.length := by
      simp only [List.length_cons] at hall
      omega
    rw [if_pos hall, ← List.drop_drop, List.drop_succ_cons, List.drop_succ_cons, List.drop_zero,
      Nat.sub_eq_zero_of_le hle]
  · have hlt : body.length < ofBE [hi, lo] := by
      simp only [List.length_cons] at hall
      omega
    have hskip : 2 + ofBE [hi, lo] - (hi :: lo :: body).length = ofBE [hi, lo] - body.length := by
      simp only [List.length_cons]
      omega
    rw [if_neg hall, hskip, List.drop_of_length_le hlt.le]

/-- A frame that is read once it is complete. -/
theorem readFrame_small {hi lo : UInt8} {body : List UInt8} (h : ¬ F.limit < ofBE [hi, lo]) :
    F.readFrame (hi :: lo :: body) =
      if body.length < ofBE [hi, lo] then (none, { skip := 0, buffer := hi :: lo :: body })
      else (some (F.parse (body.take (ofBE [hi, lo]))),
        { skip := 0, buffer := body.drop (ofBE [hi, lo]) }) := by
  have hwait : (hi :: lo :: body).length < 2 + ofBE [hi, lo] ↔ body.length < ofBE [hi, lo] := by
    simp only [List.length_cons]
    omega
  rw [readFrame, if_neg h]
  simp only [hwait]

/-- The next result, or `none` to wait for more bytes. -/
def next (s : Reader) : Option ρ × Reader :=
  if s.buffer.length < s.skip then (none, { skip := s.skip - s.buffer.length, buffer := [] })
  else F.readFrame (s.buffer.drop s.skip)

end Format

/-- What is buffered and still to come are the bytes to discard, followed by frames. -/
def Reader.Holds (s : Reader) (coming : List UInt8) (bodies : List (List UInt8)) : Prop :=
  ∃ junk, junk.length = s.skip ∧ s.buffer ++ coming = junk ++ frames bodies

section Read

variable {ρ : Type} {F : Format ρ} {s : Reader} {coming src : List UInt8}
  {bodies : List (List UInt8)}

/-- Two ways to cut one list overlap. -/
theorem drop_append_eq_drop_append {α : Type} {a b x y : List α} (h : a ++ x = b ++ y) :
    a.drop b.length ++ x = b.drop a.length ++ y := by
  rcases List.append_eq_append_iff.mp h with ⟨c, rfl, rfl⟩ | ⟨c, rfl, rfl⟩
  · simp
  · simp

/-- Where a body is complete, it is what is read. -/
theorem take_of_append_eq {α : Type} {a b x y : List α} (h : a ++ x = b ++ y)
    (hle : b.length ≤ a.length) : a.take b.length = b := by
  have htake := congrArg (List.take b.length) h
  rwa [List.take_append_of_le_length hle, List.take_left] at htake

theorem two_le_length_frame (body : List UInt8) : 2 ≤ (frame body).length := by
  simp [frame]

/-- A buffer that begins with a frame has its prefix, or too few bytes for one. -/
theorem frame_cases {body rest : List UInt8} (hbody : body.length < 65536)
    (h : src ++ coming = frame body ++ rest) :
    src.length < 2 ∨ ∃ hi lo got, src = hi :: lo :: got ∧ ofBE [hi, lo] = body.length ∧
      got ++ coming = body ++ rest := by
  have hback : ofBE (toBE 2 body.length) = body.length := ofBE_toBE_of_lt hbody
  match hbytes : toBE 2 body.length, toBE_length 2 body.length with
  | [hi, lo], _ =>
      rw [frame, hbytes] at h
      rw [hbytes] at hback
      match src, h with
      | [], _ => exact .inl (by simp)
      | [_], _ => exact .inl (by simp)
      | b₀ :: b₁ :: got, hcut =>
          simp only [List.cons_append, List.nil_append, List.cons.injEq] at hcut
          obtain ⟨rfl, rfl, hrest⟩ := hcut
          exact .inr ⟨b₀, b₁, got, rfl, hback, hrest⟩

/-- Reading off a buffer that holds frames: nothing is complete yet, and then something must
still be coming, or the first frame gives its result. -/
theorem Format.readFrame_cases (hbodies : ∀ b ∈ bodies, b.length < 65536)
    (h : src ++ coming = frames bodies) :
    (∃ s', F.readFrame src = (none, s') ∧ s'.Holds coming bodies ∧
      (coming = [] → bodies = [] ∧ s' = .start)) ∨
    (∃ body rest s', bodies = body :: rest ∧ F.readFrame src = (some (F.outcome body), s') ∧
      s'.Holds coming rest ∧ s'.buffer.length < src.length) := by
  cases bodies with
  | nil =>
      obtain ⟨rfl, rfl⟩ := List.append_eq_nil_iff.mp h
      exact .inl ⟨.start, rfl, ⟨[], rfl, rfl⟩, fun _ => ⟨rfl, rfl⟩⟩
  | cons body rest =>
      rw [frames_cons] at h
      have hbody := hbodies body List.mem_cons_self
      have hwait : ({ skip := 0, buffer := src } : Reader).Holds coming (body :: rest) :=
        ⟨[], rfl, h⟩
      rcases frame_cases hbody h with hshort | ⟨hi, lo, got, rfl, hlength, hrest⟩
      · left
        refine ⟨{ skip := 0, buffer := src }, ?_, hwait, fun hnil => ?_⟩
        · match src, hshort with
          | [], _ => rfl
          | [_], _ => rfl
        · rw [hnil, List.append_nil] at h
          have htwo := two_le_length_frame body
          rw [h, List.length_append] at hshort
          omega
      · have hheld : ({ skip := body.length - got.length, buffer := got.drop body.length } :
            Reader).Holds coming rest :=
          ⟨body.drop got.length, List.length_drop, drop_append_eq_drop_append hrest⟩
        have hless : (got.drop body.length).length < (hi :: lo :: got).length := by
          simp only [List.length_drop, List.length_cons]
          omega
        by_cases hlimit : F.limit < body.length
        · right
          refine ⟨body, rest, _, rfl, ?_, hheld, hless⟩
          rw [readFrame_large F (by rwa [hlength]), hlength, outcome, if_pos hlimit]
        · by_cases hgot : got.length < body.length
          · left
            refine ⟨{ skip := 0, buffer := hi :: lo :: got }, ?_, hwait, fun hnil => ?_⟩
            · rw [readFrame_small F (by rwa [hlength]), hlength, if_pos hgot]
            · rw [hnil, List.append_nil] at hrest
              rw [hrest, List.length_append] at hgot
              omega
          · right
            have hle : body.length ≤ got.length := Nat.le_of_not_lt hgot
            rw [Nat.sub_eq_zero_of_le hle] at hheld
            refine ⟨body, rest, _, rfl, ?_, hheld, hless⟩
            rw [readFrame_small F (by rwa [hlength]), hlength, if_neg hgot,
              take_of_append_eq hrest hle, outcome, if_neg hlimit]

/-- The same, after the bytes to discard. -/
theorem Reader.Holds.next_cases (hbodies : ∀ b ∈ bodies, b.length < 65536)
    (h : s.Holds coming bodies) :
    (∃ s', F.next s = (none, s') ∧ s'.Holds coming bodies ∧
      (coming = [] → bodies = [] ∧ s' = .start)) ∨
    (∃ body rest s', bodies = body :: rest ∧ F.next s = (some (F.outcome body), s') ∧
      s'.Holds coming rest ∧ s'.buffer.length < s.buffer.length) := by
  obtain ⟨junk, hjunk, hbytes⟩ := h
  have hcut := drop_append_eq_drop_append hbytes
  rw [hjunk] at hcut
  by_cases hskip : s.buffer.length < s.skip
  · left
    refine ⟨_, by rw [Format.next, if_pos hskip], ⟨junk.drop s.buffer.length, ?_, ?_⟩, ?_⟩
    · rw [List.length_drop, hjunk]
    · rwa [List.drop_of_length_le hskip.le] at hcut
    · intro hnil
      have hlen := congrArg List.length hbytes
      rw [hnil, List.append_nil, List.length_append, hjunk] at hlen
      omega
  · have hle : s.skip ≤ s.buffer.length := Nat.le_of_not_lt hskip
    have hgone : junk.drop s.buffer.length = [] := List.drop_of_length_le (by rwa [hjunk])
    rw [hgone, List.nil_append] at hcut
    rw [Format.next, if_neg hskip]
    rcases Format.readFrame_cases (F := F) hbodies hcut with hwait | ⟨b, rest, s', hb, hnext, hs', hlt⟩
    · exact .inl hwait
    · rw [List.length_drop] at hlt
      exact .inr ⟨b, rest, s', hb, hnext, hs', by omega⟩

/-- Draining gives the results of the frames that are complete.  If nothing is coming, these
are all of them. -/
theorem Reader.Holds.drains (hbodies : ∀ b ∈ bodies, b.length < 65536)
    (h : s.Holds coming bodies) :
    ∃ done rest s', bodies = done ++ rest ∧ Drains F.next s (done.map F.outcome) s' ∧
      s'.Holds coming rest ∧ (coming = [] → rest = [] ∧ s' = .start) := by
  -- every result leaves fewer bytes in the buffer
  induction hn : s.buffer.length using Nat.strongRecOn generalizing s bodies with
  | _ n ih =>
      rcases h.next_cases (F := F) hbodies with
        ⟨s', hnext, hs', hend⟩ | ⟨body, rest, s', rfl, hnext, hs', hlt⟩
      · exact ⟨[], bodies, s', rfl, .done hnext, hs', hend⟩
      · obtain ⟨done, rest', s'', rfl, hdrain, hs'', hend⟩ :=
          ih _ (hn ▸ hlt) (fun b hb => hbodies b (List.mem_cons_of_mem _ hb)) hs' rfl
        exact ⟨body :: done, rest', s'', rfl, .more hnext hdrain, hs'', hend⟩

/-- However the rest of the stream is cut, it gives the results of its frames. -/
theorem Reader.Holds.feeds {chunks : List (List UInt8)} (hbodies : ∀ b ∈ bodies, b.length < 65536)
    (h : s.Holds chunks.flatten bodies) (hend : chunks = [] → bodies = [] ∧ s = .start) :
    Feeds F.next Reader.receive s chunks (bodies.map F.outcome) .start := by
  induction chunks generalizing s bodies with
  | nil =>
      obtain ⟨rfl, rfl⟩ := hend rfl
      exact .nil
  | cons chunk chunks ih =>
      obtain ⟨junk, hjunk, hbytes⟩ := h
      have hreceived : (s.receive chunk).Holds chunks.flatten bodies :=
        ⟨junk, hjunk, by rw [receive, List.append_assoc]; exact hbytes⟩
      obtain ⟨done, rest, s', rfl, hdrain, hs', hend'⟩ := hreceived.drains (F := F) hbodies
      rw [List.map_append]
      refine .cons hdrain (ih (fun b hb => hbodies b (List.mem_append_right _ hb)) hs' fun hnil => ?_)
      exact hend' (by rw [hnil]; rfl)

/-- However a stream of frames is cut, a reader gives one result per frame, in order, and
holds nothing in the end. -/
theorem feeds_frames {chunks : List (List UInt8)} (hbodies : ∀ b ∈ bodies, b.length < 65536)
    (hcut : chunks.flatten = frames bodies) :
    Feeds F.next Reader.receive .start chunks (bodies.map F.outcome) .start := by
  refine Reader.Holds.feeds hbodies ⟨[], rfl, hcut⟩ ?_
  rintro rfl
  refine ⟨?_, rfl⟩
  cases bodies with
  | nil => rfl
  | cons body rest =>
      have htwo := two_le_length_frame body
      have hlen := congrArg List.length hcut
      rw [frames_cons, List.length_append] at hlen
      simp at hlen
      omega

/-! ## A stream that stops within a frame -/

/-- Bytes of a frame that is read, but not all of them. -/
def Format.Unfinished (F : Format ρ) (part : List UInt8) : Prop :=
  ∃ body missing, missing ≠ [] ∧ part ++ missing = frame body ∧ body.length ≤ F.limit

theorem Format.readFrame_whole {body left : List UInt8} (hbody : body.length ≤ F.limit)
    (hlimit : F.limit < 65536) :
    F.readFrame (frame body ++ left) = (some (F.parse body), { skip := 0, buffer := left }) := by
  have hcut : frame body ++ left ++ [] = frame body ++ left := List.append_nil _
  rcases frame_cases (by omega) hcut with hshort | ⟨hi, lo, got, hsrc, hlength, hgot⟩
  · have htwo := two_le_length_frame body
    rw [List.length_append] at hshort
    omega
  · rw [List.append_nil] at hgot
    rw [hsrc, readFrame_small F (by omega), hlength, hgot, if_neg (by simp)]
    simp

theorem Format.readFrame_unfinished (hpart : F.Unfinished src) (hlimit : F.limit < 65536) :
    F.readFrame src = (none, { skip := 0, buffer := src }) := by
  obtain ⟨body, missing, hmissing, hframe, hbody⟩ := hpart
  have hcut : src ++ missing = frame body ++ [] := by rw [hframe, List.append_nil]
  rcases frame_cases (by omega) hcut with hshort | ⟨hi, lo, got, rfl, hlength, hgot⟩
  · match src, hshort with
    | [], _ => rfl
    | [_], _ => rfl
  · have hpos := List.length_pos_iff.mpr hmissing
    have hlen := congrArg List.length hgot
    simp only [List.length_append, List.append_nil] at hlen
    rw [readFrame_small F (by omega), hlength, if_pos (by omega)]

/-- Reading off a stream that stops within a frame: the first frame gives its result once it is
there, and nothing is read of the part that is left. -/
theorem Format.next_unfinished {part : List UInt8} (hpart : F.Unfinished part)
    (hbodies : ∀ b ∈ bodies, b.length ≤ F.limit) (hlimit : F.limit < 65536)
    (h : src ++ coming = frames bodies ++ part) :
    (F.next { skip := 0, buffer := src } = (none, { skip := 0, buffer := src }) ∧
      (coming = [] → bodies = [])) ∨
    (∃ body rest left, bodies = body :: rest ∧
      F.next { skip := 0, buffer := src } = (some (F.parse body), { skip := 0, buffer := left }) ∧
      left ++ coming = frames rest ++ part) := by
  have hnext : F.next { skip := 0, buffer := src } = F.readFrame src := rfl
  rw [hnext]
  cases bodies with
  | nil =>
      obtain ⟨body, missing, hmissing, hframe, hbody⟩ := hpart
      refine .inl ⟨readFrame_unfinished ⟨body, coming ++ missing, ?_, ?_, hbody⟩ hlimit, fun _ => rfl⟩
      · simp [hmissing]
      · rw [← List.append_assoc, h]
        exact hframe
  | cons body rest =>
      have hbody := hbodies body List.mem_cons_self
      rw [frames_cons, List.append_assoc] at h
      rcases List.append_eq_append_iff.mp h with ⟨missing, hframe, hcoming⟩ | ⟨left, hsrc, hrest⟩
      · by_cases hmissing : missing = []
        · -- the buffer ends where the frame does
          rw [hmissing, List.append_nil] at hframe
          rw [hmissing, List.nil_append] at hcoming
          refine .inr ⟨body, rest, [], rfl, ?_, hcoming⟩
          rw [← hframe, ← List.append_nil (frame body)]
          exact readFrame_whole hbody hlimit
        · refine .inl ⟨readFrame_unfinished ⟨body, missing, hmissing, hframe.symm, hbody⟩ hlimit, ?_⟩
          intro hnil
          rw [hnil] at hcoming
          exact absurd (List.append_eq_nil_iff.mp hcoming.symm).1 hmissing
      · refine .inr ⟨body, rest, left, rfl, ?_, hrest.symm⟩
        rw [hsrc]
        exact readFrame_whole hbody hlimit

/-- A stream of frames that stops somewhere has some of its frames and a part of the next. -/
theorem Format.exists_unfinished {arrived : List UInt8} (hbodies : ∀ b ∈ bodies, b.length ≤ F.limit)
    (h : arrived <+: frames bodies) :
    ∃ k part, arrived = frames (bodies.take k) ++ part ∧ F.Unfinished part := by
  induction bodies generalizing arrived with
  | nil =>
      obtain rfl := List.prefix_nil.mp h
      exact ⟨0, [], rfl, [], frame [], by decide, rfl, Nat.zero_le _⟩
  | cons body rest ih =>
      obtain ⟨missing, hmissing⟩ := h
      rw [frames_cons] at hmissing
      rcases List.append_eq_append_iff.mp hmissing with ⟨tail, hframe, -⟩ | ⟨left, rfl, hrest⟩
      · by_cases htail : tail = []
        · rw [htail, List.append_nil] at hframe
          obtain ⟨k, part, hk, hpart⟩ := ih (fun b hb => hbodies b (List.mem_cons_of_mem _ hb))
            (List.nil_prefix (l := frames rest))
          refine ⟨k + 1, part, ?_, hpart⟩
          rw [List.take_succ_cons, frames_cons, List.append_assoc, ← hk, List.append_nil, hframe]
        · exact ⟨0, arrived, rfl, body, tail, htail, hframe.symm, hbodies body List.mem_cons_self⟩
      · obtain ⟨k, part, rfl, hpart⟩ := ih (fun b hb => hbodies b (List.mem_cons_of_mem _ hb))
          ⟨missing, hrest.symm⟩
        refine ⟨k + 1, part, ?_, hpart⟩
        rw [List.take_succ_cons, frames_cons, List.append_assoc]

end Read

end Framing

end Lib
