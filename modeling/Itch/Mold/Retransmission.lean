import Itch.Lib.Framing
import Itch.Mold.Packing
import Itch.Mold.RequestServer

/-!
# What a retransmission brings back

A cache that is filled with consecutive frames holds consecutive frames, so the search
finds the place of a number and the loop after it returns what follows.  The client reads
back what the server has written, and the numbers it counts are those of the cache.
-/

namespace Itch

open Lib

/-- A frame as a numbered body. -/
def CachedFrame.entry (f : CachedFrame) : UInt64 × Bytes :=
  (f.sequence, f.body)

/-- The body fits a block and is not empty. -/
def CachedFrame.Fits (f : CachedFrame) : Prop :=
  1 ≤ f.body.length ∧ f.body.length ≤ maxBlockLen

namespace RequestServer.RingBufferSeqStore

/-- The body cached under a sequence number. -/
def cached (c : RingBufferSeqStore) (seq : UInt64) : Option Bytes :=
  (c.inner.find? fun f => f.sequence = seq).map CachedFrame.body

/-- A cache after some frames were pushed, and after the session has ended if it has. -/
def fill (capacity : Nat) (frames : List CachedFrame) (ended : Bool) : RingBufferSeqStore :=
  let c := frames.foldl push (withCapacity capacity)
  if ended then c.markEndOfSession else c

/-- Filled by pushing frames with consecutive sequence numbers. -/
def Filled (c : RingBufferSeqStore) : Prop :=
  ∃ capacity frames ended first, c = fill capacity frames ended ∧
    Consecutive first (frames.map CachedFrame.entry) ∧ ∀ f ∈ frames, f.Fits

variable {c : RingBufferSeqStore} {first : Nat} {seq : UInt64} {frames : List CachedFrame}

/-! ## The cache -/

theorem retains_fill (capacity : Nat) (frames : List CachedFrame) (ended : Bool) :
    (fill capacity frames ended).Retains frames := by
  have hpush : (frames.foldl push (withCapacity capacity)).Retains frames := by
    induction frames using List.reverseRecOn with
    | nil => exact ⟨List.nil_suffix, (Nat.min_zero _).symm⟩
    | append_singleton frames f ih =>
        rw [List.foldl_append]
        exact ih.push f
  unfold fill
  dsimp only
  split
  next => exact ⟨hpush.suffix, hpush.length⟩
  next => exact hpush

/-- A cache filled with consecutive frames holds consecutive frames. -/
theorem consecutive_fill {frames : List CachedFrame}
    (h : Consecutive first (frames.map CachedFrame.entry)) (capacity : Nat) (ended : Bool) :
    ∃ first, Consecutive first ((fill capacity frames ended).inner.map CachedFrame.entry) := by
  obtain ⟨evicted, hsplit⟩ := (retains_fill capacity frames ended).suffix
  rw [← hsplit, List.map_append] at h
  exact ⟨_, (Consecutive.append_iff.mp h).2⟩

theorem Filled.consecutive (h : c.Filled) :
    ∃ first, Consecutive first (c.inner.map CachedFrame.entry) := by
  obtain ⟨capacity, frames, ended, first, rfl, hcons, -⟩ := h
  exact consecutive_fill hcons capacity ended

theorem Filled.fits (h : c.Filled) : ∀ f ∈ c.inner, f.Fits := by
  obtain ⟨capacity, frames, ended, first, rfl, -, hfits⟩ := h
  intro f hf
  exact hfits f ((retains_fill capacity frames ended).suffix.subset hf)

theorem cached_eq_some_iff {body : Bytes} (h : Consecutive first (c.inner.map CachedFrame.entry)) :
    c.cached seq = some body ↔ (seq, body) ∈ c.inner.map CachedFrame.entry := by
  rw [cached, Option.map_eq_some_iff]
  constructor
  · rintro ⟨f, hf, rfl⟩
    have hseq : f.sequence = seq := by simpa using List.find?_some hf
    exact List.mem_map.mpr ⟨f, List.mem_of_find?_eq_some hf, by rw [CachedFrame.entry, hseq]⟩
  · intro hmem
    obtain ⟨f, hf, heq⟩ := List.mem_map.mp hmem
    have hseq : f.sequence = seq := congrArg Prod.fst heq
    have hsome : (c.inner.find? fun f => f.sequence = seq).isSome :=
      List.find?_isSome.mpr ⟨f, hf, decide_eq_true hseq⟩
    obtain ⟨g, hg⟩ := Option.isSome_iff_exists.mp hsome
    have hgseq : g.sequence = seq := by simpa using List.find?_some hg
    have hentry : g.entry = (seq, body) :=
      h.eq_of_mem (List.mem_map_of_mem (List.mem_of_find?_eq_some hg)) hmem hgseq
    exact ⟨g, hg, congrArg Prod.snd hentry⟩

/-- The loop over consecutive frames only stops at the cap. -/
theorem lookupLoop_eq {cap : Nat} (h : Consecutive seq.toNat (frames.map CachedFrame.entry)) :
    lookupLoop cap seq frames = frames.take cap := by
  induction cap generalizing seq frames with
  | zero =>
      cases frames with
      | nil => rfl
      | cons f frames => rfl
  | succ cap ih =>
      cases frames with
      | nil => rfl
      | cons f frames =>
          obtain ⟨hhead, htail⟩ := Consecutive.cons_iff.mp h
          have hseq : f.sequence = seq := Word64.eq_iff.mpr hhead
          rw [lookupLoop, if_neg (not_not.mpr hseq), ih htail.saturatingSucc, List.take_succ_cons]

/-- A lookup returns the longest run of the cache. -/
theorem longestRun_lookup (h : Consecutive first (c.inner.map CachedFrame.entry))
    (count : UInt32) : LongestRun c.cached seq (min count.toNat maxResponseFrames)
      ((c.lookup seq count).map CachedFrame.entry) := by
  have hsorted : c.inner.Pairwise fun f g : CachedFrame => f.sequence.toNat < g.sequence.toNat :=
    (List.pairwise_map (f := CachedFrame.entry)).mp h.pairwise
  have hnone : ∀ n : UInt64, (∀ body, (n, body) ∉ c.inner.map CachedFrame.entry) →
      c.cached n = none := by
    intro n hn
    refine Option.eq_none_iff_forall_ne_some.mpr fun body hbody => ?_
    exact hn body ((cached_eq_some_iff h).mp hbody)
  rw [lookup]
  split
  next pos hpos =>
    refine .nil fun _ => hnone seq fun body hmem => ?_
    obtain ⟨f, hf, heq⟩ := List.mem_map.mp hmem
    obtain ⟨i, hi⟩ := List.mem_iff_getElem?.mp hf
    have hkey : f.sequence.toNat = seq.toNat := congrArg (fun e => e.1.toNat) heq
    have hok := (binarySearchByKey_eq_ok_iff hsorted).mpr ⟨f, hi, hkey⟩
    rw [hpos] at hok
    cases hok
  next i hi =>
    obtain ⟨f, hf, hkey⟩ := (binarySearchByKey_eq_ok_iff hsorted).mp hi
    have hstart : first + i = seq.toNat := by
      rw [← hkey, ← h i f.entry (by rw [List.getElem?_map, hf, Option.map_some])]
      rfl
    have hdrop : Consecutive seq.toNat ((c.inner.drop i).map CachedFrame.entry) := by
      rw [List.map_drop, ← hstart]
      exact h.drop i
    rw [lookupLoop_eq hdrop, List.map_take]
    refine ⟨hdrop.take _, ?_, List.length_take_le _ _, ?_⟩
    · intro e he
      rw [cached_eq_some_iff h]
      have hmem := List.mem_of_mem_take he
      rw [List.map_drop] at hmem
      exact List.mem_of_mem_drop hmem
    · intro hlt n hn
      rw [List.length_take, List.length_map, List.length_drop] at hlt hn
      refine hnone n fun body hmem => ?_
      have hbounds := h.mem_bounds hmem
      rw [List.length_map] at hbounds
      dsimp only at hbounds
      omega

theorem mem_of_mem_lookup {f : CachedFrame} {count : UInt32} (h : f ∈ c.lookup seq count) :
    f ∈ c.inner := by
  have hloop : ∀ {cap : Nat} {seq : UInt64} {frames : List CachedFrame},
      f ∈ lookupLoop cap seq frames → f ∈ frames := by
    intro cap seq frames hf
    fun_induction lookupLoop cap seq frames with
    | case1 => cases hf
    | case2 => cases hf
    | case3 => cases hf
    | case4 cap seq g frames hseq ih =>
        rcases List.mem_cons.mp hf with rfl | hf
        · exact List.mem_cons_self
        · exact List.mem_cons_of_mem _ (ih hf)
  rw [lookup] at h
  split at h
  next => cases h
  next => exact List.mem_of_mem_drop (hloop h)

theorem lookup_zero (c : RingBufferSeqStore) (seq : UInt64) : c.lookup seq 0 = [] := by
  rw [lookup]
  split
  next => rfl
  next => rfl

end RequestServer.RingBufferSeqStore

/-! ## The wire -/

namespace RequestServer

theorem writeFrames_eq {frames : List CachedFrame} (h : ∀ f ∈ frames, f.Fits) :
    writeFrames frames = .ok (Framing.frames (frames.map CachedFrame.body)) := by
  induction frames with
  | nil => rfl
  | cons f frames ih =>
      have hle := (h f List.mem_cons_self).2
      rw [writeFrames, if_neg (Nat.not_lt.mpr hle), ih fun g hg => h g (List.mem_cons_of_mem f hg)]
      rfl

/-- A request is answered with what the cache holds. -/
theorem respond_requestFrame (cache : RingBufferSeqStore) (sequence : UInt64) (count : UInt32) :
    ∃ status, respond cache (RequestClient.requestFrame sequence count) =
      writeResponse status (cache.lookup sequence count) := by
  have hsequence : UInt64.ofNat (ofBE ((RequestClient.requestFrame sequence count).take 8))
      = sequence := by
    rw [RequestClient.requestFrame, List.take_left' (toBE_length _ _), u64_ofBE_iff (toBE_length _ _)]
  have hcount : UInt32.ofNat (ofBE ((RequestClient.requestFrame sequence count).drop 8))
      = count := by
    rw [RequestClient.requestFrame, List.drop_left' (toBE_length _ _), u32_ofBE_iff (toBE_length _ _)]
  unfold respond
  rw [hsequence, hcount]
  dsimp only
  split
  next hzero =>
    rw [hzero, RingBufferSeqStore.lookup_zero]
    exact ⟨_, rfl⟩
  next => exact ⟨_, rfl⟩

end RequestServer

namespace RequestClient

open RequestServer

theorem readExact_append {bytes rest : Bytes} {count : Nat} (h : bytes.length = count) :
    readExact count (bytes ++ rest) = some (bytes, rest) := by
  have hlen : ¬ (bytes ++ rest).length < count := by
    rw [List.length_append, h]
    omega
  rw [readExact, if_neg hlen, List.take_left' h, List.drop_left' h]

/-- The client reads back the frames that were written, if they are numbered as it counts. -/
theorem readFrames_frames {frames : List CachedFrame} {nextSeq : UInt64} (rest : Bytes)
    (hfits : ∀ f ∈ frames, f.Fits)
    (hcons : Consecutive nextSeq.toNat (frames.map CachedFrame.entry)) :
    readFrames frames.length nextSeq (Framing.frames (frames.map CachedFrame.body) ++ rest) =
      some (.ok frames, rest) := by
  induction frames generalizing nextSeq with
  | nil => rfl
  | cons f frames ih =>
      obtain ⟨hhead, htail⟩ := Consecutive.cons_iff.mp hcons
      obtain ⟨hpos, hle⟩ := hfits f List.mem_cons_self
      have hseq : f.sequence = nextSeq := Word64.eq_iff.mpr hhead
      have hlen : ofBE (toBE 2 f.body.length) = f.body.length :=
        ofBE_toBE_of_lt (hle.trans_lt (by decide))
      have hrest := ih (fun g hg => hfits g (List.mem_cons_of_mem f hg)) htail.saturatingSucc
      rw [List.length_cons, readFrames, List.map_cons, Framing.frames_cons, Framing.frame, List.append_assoc,
        List.append_assoc, readExact_append (toBE_length _ _)]
      simp only [Option.bind_eq_bind, Option.bind_some, hlen]
      rw [if_neg (by omega), if_neg (by omega), readExact_append rfl]
      simp only [Option.bind_some, hrest]
      rw [← hseq]
      rfl

theorem readResponse_append {hdr stream : Bytes} {sequence : UInt64}
    (h : hdr.length = responseHeaderLen) (hcount : ofBE (hdr.drop 4) ≤ maxResponseFrames) :
    readResponse sequence (hdr ++ stream) =
      (readFrames (ofBE (hdr.drop 4)) sequence stream).map fun r =>
        (r.1.map fun frames => { status := UInt32.ofNat (ofBE (hdr.take 4)), frames := frames },
          r.2) := by
  rw [readResponse, readExact_append h]
  simp only [Option.bind_eq_bind, Option.bind_some]
  rw [if_neg (Nat.not_lt.mpr hcount)]
  cases readFrames (ofBE (hdr.drop 4)) sequence stream with
  | none => rfl
  | some r => rfl

theorem readResponse_writeResponse {frames : List CachedFrame} {sequence : UInt64}
    {status : UInt32} {out : Bytes} (hfits : ∀ f ∈ frames, f.Fits)
    (hcons : Consecutive sequence.toNat (frames.map CachedFrame.entry))
    (hlen : frames.length ≤ maxResponseFrames) (hout : writeResponse status frames = .ok out) :
    readResponse sequence out = some (.ok { status := status, frames := frames }, []) := by
  rw [writeResponse, writeFrames_eq hfits] at hout
  cases hout
  have hheader : (toBE 4 status.toNat ++ toBE 4 frames.length).length = responseHeaderLen := by
    rw [List.length_append, toBE_length, toBE_length]
    rfl
  have hcount : ofBE ((toBE 4 status.toNat ++ toBE 4 frames.length).drop 4) = frames.length := by
    rw [List.drop_left' (toBE_length _ _)]
    exact ofBE_toBE_of_lt (hlen.trans_lt (by norm_num [maxResponseFrames]))
  have hstatus : UInt32.ofNat (ofBE ((toBE 4 status.toNat ++ toBE 4 frames.length).take 4))
      = status := by
    rw [List.take_left' (toBE_length _ _), u32_ofBE_iff (toBE_length _ _)]
  have hread := readFrames_frames [] hfits hcons
  rw [List.append_nil] at hread
  rw [readResponse_append hheader (hcount.trans_le hlen), hcount, hstatus, hread]
  rfl

theorem request_of_served {cache : RingBufferSeqStore} {conn served : Connection}
    {sequence : UInt64} {count : UInt32} {response : Except MoldError RequestResponse}
    {stream : Bytes}
    (hserve : serveConn cache { conn with
      toServer := conn.toServer ++ requestFrame sequence count } = some (.ok served))
    (hread : readResponse sequence served.toClient = some (response, stream)) :
    request cache conn sequence count = some (response, { served with toClient := stream }) := by
  rw [request, hserve]
  dsimp only
  rw [hread]
  rfl

/-- The server reads a request off an idle connection and writes its response. -/
theorem serveConn_requestFrame {cache : RingBufferSeqStore} {sequence : UInt64} {count : UInt32}
    {out : Bytes} (h : respond cache (requestFrame sequence count) = .ok out) :
    serveConn cache { Connection.new with
        toServer := Connection.new.toServer ++ requestFrame sequence count } =
      some (.ok { toServer := [], toClient := out }) := by
  have hframe : (requestFrame sequence count).length = requestFrameLen := by
    rw [requestFrame, List.length_append, toBE_length, toBE_length]
    rfl
  have hnew : Connection.new.toServer ++ requestFrame sequence count =
      requestFrame sequence count := rfl
  rw [hnew, serveConn, hframe, if_neg (Nat.lt_irrefl _), List.take_of_length_le hframe.le,
    List.drop_of_length_le hframe.le, h]
  rfl

/-- A request on an idle connection is answered and leaves the connection idle. -/
theorem request_eq {cache : RingBufferSeqStore} (hcache : cache.Filled) (sequence : UInt64)
    (count : UInt32) : ∃ status, request cache .new sequence count =
      some (.ok { status := status, frames := cache.lookup sequence count }, .new) := by
  obtain ⟨first, hcons⟩ := hcache.consecutive
  have hrun : LongestRun cache.cached sequence (min count.toNat maxResponseFrames)
      ((cache.lookup sequence count).map CachedFrame.entry) :=
    RingBufferSeqStore.longestRun_lookup hcons count
  have hfits : ∀ f ∈ cache.lookup sequence count, f.Fits :=
    fun f hf => hcache.fits f (RingBufferSeqStore.mem_of_mem_lookup hf)
  have hlen := hrun.length_le
  rw [List.length_map] at hlen
  obtain ⟨status, hrespond⟩ := respond_requestFrame cache sequence count
  obtain ⟨out, hout⟩ : ∃ out, writeResponse status (cache.lookup sequence count) = .ok out := by
    rw [writeResponse, writeFrames_eq hfits]
    exact ⟨_, rfl⟩
  rw [hout] at hrespond
  have hread := readResponse_writeResponse hfits hrun.consecutive
    (hlen.trans (Nat.min_le_right _ _)) hout
  exact ⟨status, request_of_served (serveConn_requestFrame hrespond) hread⟩

/-- Every request on a connection is answered with the longest run of consecutive frames the
cache holds from the number on, cut at the count and the cap, and the connection is idle
again after it. -/
theorem requests_answered (calls : List Call) (hfilled : ∀ call ∈ calls, call.cache.Filled) :
    ∃ responses : List RequestResponse,
      requests .new calls = some (responses.map Except.ok, .new) ∧
      List.Forall₂ (fun call response => LongestRun call.cache.cached call.sequence
        (min call.count.toNat maxResponseFrames)
        (response.frames.map CachedFrame.entry)) calls responses := by
  induction calls with
  | nil => exact ⟨[], rfl, .nil⟩
  | cons call calls ih =>
      have hcall := hfilled call List.mem_cons_self
      obtain ⟨responses, hrequests, hanswers⟩ :=
        ih fun later hlater => hfilled later (List.mem_cons_of_mem call hlater)
      obtain ⟨first, hcons⟩ := hcall.consecutive
      obtain ⟨status, hrequest⟩ := request_eq hcall call.sequence call.count
      refine ⟨{ status := status, frames := call.cache.lookup call.sequence call.count } ::
        responses, ?_, .cons (RingBufferSeqStore.longestRun_lookup hcons call.count) hanswers⟩
      simp only [requests, hrequest, Option.bind_eq_bind, Option.bind_some, hrequests]
      rfl

/-- Two requests to a cache that has evicted its first frame. -/
theorem requests_answered_evicted :
    let frames : List CachedFrame := [⟨7, [1]⟩, ⟨8, [2]⟩, ⟨9, [3]⟩]
    let cache := RingBufferSeqStore.fill 2 frames false
    let calls : List Call := [⟨cache, 7, 1⟩, ⟨cache, 8, 5⟩]
    ∃ responses : List RequestResponse,
      requests .new calls = some (responses.map Except.ok, .new) ∧
      List.Forall₂ (fun call response => LongestRun call.cache.cached call.sequence
        (min call.count.toNat maxResponseFrames)
        (response.frames.map CachedFrame.entry)) calls responses := by
  intro frames cache calls
  have hcache : cache.Filled := by
    refine ⟨2, frames, false, 7, rfl, ?_, ?_⟩
    · exact Consecutive.cons_iff.mpr ⟨rfl, Consecutive.cons_iff.mpr ⟨rfl,
        Consecutive.cons_iff.mpr ⟨rfl, .nil⟩⟩⟩
    · unfold CachedFrame.Fits
      decide
  refine requests_answered calls ?_
  simp [calls, hcache]

end RequestClient

end Itch
