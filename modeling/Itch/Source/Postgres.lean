import Itch.Protocol.RoundTrip
import Itch.Source.Contract

/-!
# The PostgreSQL store

Messages in a table whose primary key is a sequence number in a `BIGINT`, a signed word.
A statement is modelled by its effect on the rows.  The window of a range query ends at a
sum that the server computes, and a sum that does not fit a `BIGINT` fails the statement,
whatever rows there are: the operands are bound when it is planned.

`Holds` says which rows a history of stores leaves.  The loop of `range` over the rows of
the window is the loop of the ring buffer over the messages they hold.
-/

namespace Itch

open Lib

inductive SqlxError where
  | protocol (text : String)
  /-- Raised by the server. -/
  | bigintOutOfRange
deriving Repr, DecidableEq

inductive PostgresSeqStoreError where
  | sqlx (e : SqlxError)
  | encode (e : ProtocolError)
  | decode (e : ProtocolError)
deriving Repr, DecidableEq

/-! ## Statements -/

/-- The rows of the table, by primary key. -/
abbrev Rows := FinMap Int64 Bytes

/-- The sum of two `BIGINT`s. -/
def bigintAdd (a b : Int64) : Except SqlxError Int64 :=
  if -2 ^ 63 ≤ a.toInt + b.toInt ∧ a.toInt + b.toInt < 2 ^ 63 then
    .ok (Int64.ofInt (a.toInt + b.toInt))
  else .error .bigintOutOfRange

/-- `INSERT INTO … VALUES ($1, $2) ON CONFLICT (seq) DO NOTHING` -/
def insertRow (rows : Rows) (seq : Int64) (bytes : Bytes) : Rows :=
  rows.insertIfNew seq bytes

/-- `SELECT seq, bytes … WHERE seq >= $1 AND seq < $1 + $2 ORDER BY seq` -/
def selectWindow (rows : Rows) (start count : Int64) : Except SqlxError (List (Int64 × Bytes)) :=
  match bigintAdd start count with
  | .error e => .error e
  | .ok stop => .ok (rows.toList.filter fun row => start ≤ row.1 ∧ row.1 < stop)

/-- `SELECT COALESCE(MAX(seq), 0)::BIGINT` -/
def selectMax (rows : Rows) : Int64 :=
  ((FinMap.last? rows).map Prod.fst).getD 0

/-- `SELECT COALESCE(MIN(seq), 0)::BIGINT` -/
def selectMin (rows : Rows) : Int64 :=
  ((FinMap.first? rows).map Prod.fst).getD 0

/-! ## The store -/

def seqToI64 (seq : UInt64) : Option Int64 :=
  if seq > Int64.maxValue.toUInt64 then none else some seq.toInt64

/-- A machine word converted to a `BIGINT`, or the largest one where it does not fit. -/
def countToI64 (count : Nat) : Int64 :=
  if count < 2 ^ 63 then Int64.ofNat count else Int64.maxValue

structure PostgresSeqStore where
  rows : Rows

namespace PostgresSeqStore

/-- A store over a table without rows. -/
def empty : PostgresSeqStore where
  rows := ∅

def store (s : PostgresSeqStore) (seq : UInt64) (msg : Message) :
    Except PostgresSeqStoreError PostgresSeqStore :=
  match seqToI64 seq with
  | none => .error (.sqlx (.protocol s!"sequence {seq} exceeds BIGINT range"))
  | some seqI64 =>
      match msg.encode (List.replicate msg.encodedLen 0) with
      | .error e => .error (.encode e)
      | .ok (_, buf) => .ok { rows := insertRow s.rows seqI64 buf }

/-- The loop of `range` over the rows of the window. -/
def rangeLoop (count : Nat) (expected : UInt64) (result : List (UInt64 × Message)) :
    List (Int64 × Bytes) → Except PostgresSeqStoreError (List (UInt64 × Message))
  | [] => .ok result
  | (seqDb, bytes) :: rows =>
      -- a negative number can only come from an insert out of band
      if seqDb < 0 then .ok result
      else if seqDb.toUInt64 ≠ expected then .ok result
      else
        match Message.decode bytes with
        | .error e => .error (.decode e)
        | .ok msg =>
            if (result ++ [(seqDb.toUInt64, msg)]).length ≥ count then
              .ok (result ++ [(seqDb.toUInt64, msg)])
            else
              rangeLoop count (Word64.saturatingSucc expected)
                (result ++ [(seqDb.toUInt64, msg)]) rows

def range (s : PostgresSeqStore) (start : UInt64) (count : Nat) :
    Except PostgresSeqStoreError (List (UInt64 × Message)) :=
  if count = 0 then .ok []
  else
    match seqToI64 start with
    | none => .ok []
    | some startI64 =>
        match selectWindow s.rows startI64 (countToI64 count) with
        | .error e => .error (.sqlx e)
        | .ok rows => rangeLoop count start [] rows

def latest (s : PostgresSeqStore) : UInt64 :=
  (max (selectMax s.rows) 0).toUInt64

def earliest (s : PostgresSeqStore) : UInt64 :=
  (max (selectMin s.rows) 0).toUInt64

/-- A history of stores, each of which succeeds. -/
def storeAll (s : PostgresSeqStore) : List (UInt64 × Message) →
    Except PostgresSeqStoreError PostgresSeqStore
  | [] => .ok s
  | (seq, msg) :: calls =>
      match s.store seq msg with
      | .error e => .error e
      | .ok s => s.storeAll calls

/-! ## What the contract asks for -/

/-- The message first stored under a sequence number. -/
def firstStored (calls : List (UInt64 × Message)) (seq : UInt64) : Option Message :=
  (calls.find? (·.1 = seq)).map Prod.snd

/-- The answers to a query after a history of stores. -/
structure Answers (calls : List (UInt64 × Message)) (s : PostgresSeqStore) (start : UInt64)
    (count : Nat) : Prop where
  range : ∃ l, s.range start count = .ok l ∧ LongestRun (firstStored calls) start count l
  latest : IsGreatest {seq | seq ∈ calls.map Prod.fst} s.latest ∨ calls = [] ∧ s.latest = 0
  earliest : IsLeast {seq | seq ∈ calls.map Prod.fst} s.earliest ∨ calls = [] ∧ s.earliest = 0

/-- The end of the window fits a `BIGINT`, and a count beyond `BIGINT` is not cut short in a
table that holds every number. -/
def Expressible (calls : List (UInt64 × Message)) (start : UInt64) (count : Nat) : Prop :=
  count = 0 ∨ 2 ^ 63 ≤ start.toNat ∨
    start.toNat + min count (2 ^ 63 - 1) < 2 ^ 63 ∧
      (count < 2 ^ 63 ∨ ∃ seq : UInt64, seq.toNat < 2 ^ 63 ∧ firstStored calls seq = none)

end PostgresSeqStore

/-! ## Sequence numbers in a `BIGINT` -/

theorem seqToI64_of_lt {seq : UInt64} (h : seq.toNat < 2 ^ 63) :
    seqToI64 seq = some seq.toInt64 := by
  refine if_neg fun hgt => ?_
  have hlt := Word64.lt_iff.mp hgt
  rw [show Int64.maxValue.toUInt64.toNat = 2 ^ 63 - 1 from rfl] at hlt
  omega

theorem seqToI64_of_le {seq : UInt64} (h : 2 ^ 63 ≤ seq.toNat) : seqToI64 seq = none := by
  refine if_pos (Word64.lt_iff.mpr ?_)
  rw [show Int64.maxValue.toUInt64.toNat = 2 ^ 63 - 1 from rfl]
  omega

theorem toInt_countToI64 (count : Nat) :
    (countToI64 count).toInt = (min count (2 ^ 63 - 1) : Nat) := by
  unfold countToI64
  split
  next h => rw [Int64.toInt_ofNat_of_lt h, Nat.min_eq_left (by omega)]
  next h => rw [Int64.toInt_maxValue, Nat.min_eq_right (by omega)]; rfl

/-- The rows of a window that ends at a `BIGINT`. -/
theorem selectWindow_of_lt {rows : Rows} {start : UInt64} {count : Nat}
    (h : start.toNat + min count (2 ^ 63 - 1) < 2 ^ 63) :
    ∃ window, selectWindow rows start.toInt64 (countToI64 count) = .ok window ∧
      window.Sublist rows.toList ∧
      ∀ row : Int64 × Bytes, 0 ≤ row.1 → (row ∈ window ↔ row ∈ rows.toList ∧
        start.toNat ≤ row.1.toUInt64.toNat ∧
        row.1.toUInt64.toNat < start.toNat + min count (2 ^ 63 - 1)) := by
  have hstart : start.toInt64.toInt = start.toNat := Word64.toInt_toInt64 (by omega)
  have hsum : start.toInt64.toInt + (countToI64 count).toInt
      = (start.toNat + min count (2 ^ 63 - 1) : Nat) := by
    rw [hstart, toInt_countToI64, Nat.cast_add]
  have hadd : bigintAdd start.toInt64 (countToI64 count)
      = .ok (Int64.ofInt (start.toNat + min count (2 ^ 63 - 1) : Nat)) := by
    unfold bigintAdd
    rw [hsum, if_pos (by omega)]
  refine ⟨_, by rw [selectWindow, hadd], List.filter_sublist, fun row hrow => ?_⟩
  have hnat := Word64.toNat_toUInt64 hrow
  rw [List.mem_filter, decide_eq_true_iff, Int64.le_iff_toInt_le, Int64.lt_iff_toInt_lt, hstart,
    Int64.toInt_ofInt_of_le (by omega) (by omega), ← hnat, Nat.cast_le, Nat.cast_lt]

theorem selectWindow_of_le {rows : Rows} {start : UInt64} {count : Nat}
    (hstart : start.toNat < 2 ^ 63) (h : 2 ^ 63 ≤ start.toNat + min count (2 ^ 63 - 1)) :
    selectWindow rows start.toInt64 (countToI64 count) = .error .bigintOutOfRange := by
  have hadd : bigintAdd start.toInt64 (countToI64 count) = .error .bigintOutOfRange := by
    unfold bigintAdd
    rw [Word64.toInt_toInt64 hstart, toInt_countToI64, if_neg (by omega)]
  rw [selectWindow, hadd]

namespace PostgresSeqStore

/-! ## The rows after a history -/

section Stores

variable {s s' : PostgresSeqStore} {calls : List (UInt64 × Message)} {seq : UInt64}
  {msg : Message}

theorem store_of_lt (h : seq.toNat < 2 ^ 63) :
    s.store seq msg = .ok { rows := insertRow s.rows seq.toInt64 msg.wireImage } := by
  rw [store, seqToI64_of_lt h]
  dsimp only
  rw [msg.encode_fresh]

theorem store_eq_ok_iff : s.store seq msg = .ok s' ↔
    seq.toNat < 2 ^ 63 ∧ s' = { rows := insertRow s.rows seq.toInt64 msg.wireImage } := by
  constructor
  · intro hok
    by_cases h : seq.toNat < 2 ^ 63
    · rw [store_of_lt h] at hok
      exact ⟨h, (Except.ok.inj hok).symm⟩
    · rw [store, seqToI64_of_le (Nat.le_of_not_lt h)] at hok
      cases hok
  · rintro ⟨h, rfl⟩
    exact store_of_lt h

theorem firstStored_concat (n : UInt64) : firstStored (calls ++ [(seq, msg)]) n
    = (firstStored calls n).or (if seq = n then some msg else none) := by
  unfold firstStored
  rw [List.find?_append, Option.map_or]
  by_cases h : seq = n
  · simp [h]
  · simp [h]

theorem firstStored_ne_none_iff : firstStored calls seq ≠ none ↔ seq ∈ calls.map Prod.fst := by
  simp [firstStored, List.find?_eq_none]

theorem mem_of_firstStored (h : firstStored calls seq = some msg) : (seq, msg) ∈ calls := by
  obtain ⟨e, he, rfl⟩ := Option.map_eq_some_iff.mp h
  have hseq : e.1 = seq := by simpa using List.find?_some he
  rw [← hseq]
  exact List.mem_of_find?_eq_some he

/-- The rows hold the messages first stored, and nothing else. -/
structure Holds (s : PostgresSeqStore) (calls : List (UInt64 × Message)) : Prop where
  rows_eq : ∀ i : Int64, s.rows[i]? =
    if 0 ≤ i then (firstStored calls i.toUInt64).map Message.wireImage else none
  lt : ∀ e ∈ calls, e.1.toNat < 2 ^ 63

theorem holds_empty : Holds empty [] where
  rows_eq i := by
    rw [show empty.rows[i]? = none from Std.ExtTreeMap.getElem?_empty]
    split
    next => rfl
    next => rfl
  lt _ he := absurd he List.not_mem_nil

theorem Holds.store (h : Holds s calls) (hok : s.store seq msg = .ok s') :
    Holds s' (calls ++ [(seq, msg)]) := by
  obtain ⟨hlt, rfl⟩ := store_eq_ok_iff.mp hok
  have hpos := Word64.toInt64_nonneg hlt
  refine ⟨fun i => ?_, fun e he => ?_⟩
  · rw [insertRow, FinMap.get_insertIfNew, firstStored_concat]
    split
    next hi =>
      subst hi
      rw [h.rows_eq, if_pos hpos, if_pos hpos, UInt64.toUInt64_toInt64]
      cases firstStored calls seq with
      | none => rw [if_pos rfl]; rfl
      | some old => rfl
    next hi =>
      have hne : seq ≠ i.toUInt64 := by
        rintro rfl
        exact hi (Int64.toInt64_toUInt64 i)
      rw [h.rows_eq]
      rw [if_neg hne, Option.or_none]
  · rcases List.mem_append.mp he with he | he
    · exact h.lt e he
    · rw [List.mem_singleton.mp he]
      exact hlt

theorem Holds.storeAll {done : List (UInt64 × Message)} (h : Holds s done)
    (hok : s.storeAll calls = .ok s') : Holds s' (done ++ calls) := by
  induction calls generalizing s done with
  | nil =>
      rw [PostgresSeqStore.storeAll] at hok
      cases hok
      rwa [List.append_nil]
  | cons e calls ih =>
      rw [PostgresSeqStore.storeAll] at hok
      split at hok
      next => cases hok
      next s₁ hstore =>
        rw [List.append_cons]
        exact ih (h.store hstore) hok

theorem exists_storeAll (h : ∀ e ∈ calls, e.1.toNat < 2 ^ 63) : ∃ s', s.storeAll calls = .ok s' := by
  induction calls generalizing s with
  | nil => exact ⟨s, rfl⟩
  | cons e calls ih =>
      rw [storeAll, store_of_lt (h e List.mem_cons_self)]
      exact ih fun e' he' => h e' (List.mem_cons_of_mem e he')

end Stores

/-! ## Range queries -/

section Queries

variable {s : PostgresSeqStore} {calls : List (UInt64 × Message)} {start : UInt64} {count : Nat}

/-- The message in a row. -/
def decoded (row : Int64 × Bytes) : Option (UInt64 × Message) :=
  (Message.decode row.2).toOption.map (Prod.mk row.1.toUInt64)

/-- Over rows that decode, the loop is that of the ring buffer over their messages. -/
theorem rangeLoop_eq {result : List (UInt64 × Message)} {rows : List (Int64 × Bytes)}
    (hrows : ∀ row ∈ rows, 0 ≤ row.1 ∧ ∃ msg, Message.decode row.2 = .ok msg)
    (hlt : result.length < count) : rangeLoop count start result rows
      = .ok (result ++ RingBufferSeqStore.rangeLoop (count - result.length) start
          (rows.filterMap decoded)) := by
  induction rows generalizing start result with
  | nil =>
      rw [rangeLoop, List.filterMap_nil, RingBufferSeqStore.rangeLoop_nil, List.append_nil]
  | cons row rows ih =>
      obtain ⟨k, hk⟩ : ∃ k, count - result.length = k + 1 := ⟨count - result.length - 1, by omega⟩
      obtain ⟨hpos, msg, hmsg⟩ := hrows row List.mem_cons_self
      have hdecoded : decoded row = some (row.1.toUInt64, msg) := by
        rw [decoded, hmsg]
        rfl
      rw [rangeLoop, if_neg (Std.not_lt.mpr hpos), hk, List.filterMap_cons_some hdecoded,
        RingBufferSeqStore.rangeLoop]
      split
      next => rw [List.append_nil]
      next =>
        rw [hmsg]
        dsimp only
        rw [List.length_append, List.length_singleton]
        split
        next hfull =>
          have hzero : k = 0 := by omega
          rw [hzero, RingBufferSeqStore.rangeLoop]
        next hmore =>
          rw [ih (fun row' hrow' => hrows row' (List.mem_cons_of_mem _ hrow')) (by simp; omega),
            List.length_append, List.length_singleton, show count - (result.length + 1) = k by omega,
            List.append_assoc, List.singleton_append]

/-- The rows of the table, by the messages they hold. -/
theorem Holds.mem_rows_iff (h : Holds s calls) {row : Int64 × Bytes} :
    row ∈ s.rows.toList ↔
      0 ≤ row.1 ∧ ∃ msg, firstStored calls row.1.toUInt64 = some msg ∧ msg.wireImage = row.2 := by
  rw [FinMap.mem_entries, h.rows_eq]
  split
  next hpos => simp [hpos]
  next hneg => simp [hneg]

theorem Holds.row_of_firstStored (h : Holds s calls) {seq : UInt64} {msg : Message}
    (hlt : seq.toNat < 2 ^ 63) (hfirst : firstStored calls seq = some msg) :
    (seq.toInt64, msg.wireImage) ∈ s.rows.toList := by
  rw [h.mem_rows_iff, UInt64.toUInt64_toInt64]
  exact ⟨Word64.toInt64_nonneg hlt, msg, hfirst, rfl⟩

/-- A row of the table decodes to the message first stored under its number. -/
theorem Holds.decode_row (h : Holds s calls) (hfits : ∀ e ∈ calls, e.2.FitsWire)
    {row : Int64 × Bytes} (hrow : row ∈ s.rows.toList) :
    0 ≤ row.1 ∧ ∃ msg, firstStored calls row.1.toUInt64 = some msg ∧
      Message.decode row.2 = .ok msg ∧ decoded row = some (row.1.toUInt64, msg) := by
  obtain ⟨hpos, msg, hfirst, himage⟩ := h.mem_rows_iff.mp hrow
  have hmsg : Message.decode row.2 = .ok msg := by
    rw [← himage, Message.decode_eq_ok]
    exact ⟨hfits _ (mem_of_firstStored hfirst), List.prefix_rfl⟩
  refine ⟨hpos, msg, hfirst, hmsg, ?_⟩
  rw [decoded, hmsg]
  rfl

/-- The messages of the window, in the order of their numbers. -/
theorem Holds.window (h : Holds s calls) (hfits : ∀ e ∈ calls, e.2.FitsWire)
    (hlt : start.toNat + min count (2 ^ 63 - 1) < 2 ^ 63) :
    ∃ window, selectWindow s.rows start.toInt64 (countToI64 count) = .ok window ∧
      (∀ row ∈ window, 0 ≤ row.1 ∧ ∃ msg, Message.decode row.2 = .ok msg) ∧
      (window.filterMap decoded).Pairwise (fun e e' => e.1.toNat < e'.1.toNat) ∧
      ∀ e, e ∈ window.filterMap decoded ↔ start.toNat ≤ e.1.toNat ∧
        below (firstStored calls) (start.toNat + min count (2 ^ 63 - 1)) e.1 = some e.2 := by
  obtain ⟨window, hwindow, hsub, hmem⟩ := @selectWindow_of_lt s.rows start count hlt
  refine ⟨window, hwindow, fun row hrow => ?_, ?_, fun e => ?_⟩
  · obtain ⟨hpos, msg, -, hmsg, -⟩ := h.decode_row hfits (hsub.subset hrow)
    exact ⟨hpos, msg, hmsg⟩
  · refine List.pairwise_filterMap.mpr ?_
    refine (s.rows.ordered_keys_toList.sublist hsub).imp_of_mem fun {row row'} hrow hrow' hord => ?_
    intro e he e' he'
    obtain ⟨hpos, msg, -, -, hdec⟩ := h.decode_row hfits (hsub.subset hrow)
    obtain ⟨hpos', msg', -, -, hdec'⟩ := h.decode_row hfits (hsub.subset hrow')
    rw [Std.compare_eq_lt, Int64.lt_iff_toInt_lt, ← Word64.toNat_toUInt64 hpos,
      ← Word64.toNat_toUInt64 hpos', Nat.cast_lt] at hord
    rw [hdec] at he
    rw [hdec'] at he'
    cases he
    cases he'
    exact hord
  · rw [List.mem_filterMap]
    constructor
    · rintro ⟨row, hrow, he⟩
      obtain ⟨hpos, msg, hfirst, -, hdec⟩ := h.decode_row hfits (hsub.subset hrow)
      obtain ⟨-, hge, hbound⟩ := (hmem row hpos).mp hrow
      rw [hdec] at he
      cases he
      exact ⟨hge, (if_pos hbound).trans hfirst⟩
    · rintro ⟨hge, hview⟩
      unfold below at hview
      split at hview
      next hbound =>
        have hlt63 : e.1.toNat < 2 ^ 63 := by omega
        have hrow := h.row_of_firstStored hlt63 hview
        have hback : e.1.toInt64.toUInt64 = e.1 := e.1.toUInt64_toInt64
        have hwin : (e.1.toInt64, e.2.wireImage) ∈ window := by
          rw [hmem (e.1.toInt64, e.2.wireImage) (Word64.toInt64_nonneg hlt63), hback]
          exact ⟨hrow, hge, hbound⟩
        obtain ⟨-, msg, hfirst, -, hdec⟩ := h.decode_row hfits hrow
        rw [hback, hview] at hfirst
        refine ⟨(e.1.toInt64, e.2.wireImage), hwin, ?_⟩
        rw [hdec, hback, ← Option.some.inj hfirst]
      next => cases hview

/-- A query whose window ends at a `BIGINT` returns a run of the numbers below that. -/
theorem Holds.range_of_lt (h : Holds s calls) (hfits : ∀ e ∈ calls, e.2.FitsWire)
    (hcount : count ≠ 0) (hlt : start.toNat + min count (2 ^ 63 - 1) < 2 ^ 63) :
    s.range start count = .ok (consecutive
      (below (firstStored calls) (start.toNat + min count (2 ^ 63 - 1))) count start) := by
  obtain ⟨window, hwindow, hrows, hsorted, hmem⟩ := h.window hfits hlt
  have hloop : RingBufferSeqStore.rangeLoop count start (window.filterMap decoded)
      = consecutive (below (firstStored calls) (start.toNat + min count (2 ^ 63 - 1))) count
          start := by
    refine RingBufferSeqStore.rangeLoop_eq hsorted (fun e he => ((hmem e).mp he).1) ?_
    intro k m hk
    exact ((hmem (k, m)).trans (and_iff_right hk)).symm
  rw [range, if_neg hcount, seqToI64_of_lt (by omega)]
  dsimp only
  rw [hwindow]
  dsimp only
  rw [rangeLoop_eq hrows (Nat.pos_of_ne_zero hcount), List.nil_append, List.length_nil,
    Nat.sub_zero, hloop]

theorem range_of_ge (hcount : count ≠ 0) (hstart : start.toNat < 2 ^ 63)
    (hge : 2 ^ 63 ≤ start.toNat + min count (2 ^ 63 - 1)) :
    s.range start count = .error (.sqlx .bigintOutOfRange) := by
  rw [range, if_neg hcount, seqToI64_of_lt hstart]
  dsimp only
  rw [selectWindow_of_le hstart hge]

/-- The window cuts the run short where every `BIGINT` from zero on is stored. -/
theorem longestRun_iff_of_below {view : UInt64 → Option Message} {l : List (UInt64 × Message)}
    (hlt : start.toNat + min count (2 ^ 63 - 1) < 2 ^ 63)
    (h : LongestRun (below view (start.toNat + min count (2 ^ 63 - 1))) start count l) :
    LongestRun view start count l ↔
      (count < 2 ^ 63 ∨ ∃ seq : UInt64, seq.toNat < 2 ^ 63 ∧ view seq = none) := by
  have hlen : l.length ≤ min count (2 ^ 63 - 1) := by
    rcases h.length_le_of_below with rfl | hle
    · exact Nat.zero_le _
    · omega
  rw [h.of_below_iff]
  constructor
  · intro hstops
    by_contra hnot
    push Not at hnot
    obtain ⟨hbig, hall⟩ := hnot
    have hn : (UInt64.ofNat (start.toNat + l.length)).toNat = start.toNat + l.length :=
      Word64.toNat_ofNat (by omega)
    refine hall (UInt64.ofNat (start.toNat + l.length)) (by omega) ?_
    by_cases hend : l.length < min count (2 ^ 63 - 1)
    · have hview := h.stops (by omega) _ hn
      rwa [below, if_pos (by omega)] at hview
    · exact hstops (by omega) _ hn (by omega)
  · rintro (hsmall | ⟨seq, hseq, hnone⟩) hmore n hn hbound
    · omega
    · -- the run covers every number before the end of the window
      have hend : n.toNat = 2 ^ 63 - 1 := by omega
      by_cases hlast : seq.toNat = n.toNat
      · rw [← Word64.eq_iff.mpr hlast]
        exact hnone
      · have hi : seq.toNat < l.length := by omega
        have hget := List.getElem?_eq_getElem hi
        have hnum := h.consecutive _ _ hget
        have hview := h.bound _ (List.getElem_mem hi)
        rw [Word64.eq_iff.mpr (hnum.trans (by omega) : l[seq.toNat].1.toNat = seq.toNat), below,
          hnone] at hview
        split at hview <;> cases hview

end Queries

/-! ## The ends of the table -/

section Ends

variable {s : PostgresSeqStore} {calls : List (UInt64 × Message)}

theorem Holds.nonneg (h : Holds s calls) {i : Int64} (hi : i ∈ s.rows) : 0 ≤ i := by
  obtain ⟨bytes, hbytes⟩ := FinMap.mem_iff_get.mp hi
  exact (h.mem_rows_iff.mp (FinMap.mem_entries.mpr hbytes : (i, bytes) ∈ s.rows.toList)).1

/-- The keys of the table are the numbers stored. -/
theorem Holds.mem_calls_iff (h : Holds s calls) {seq : UInt64} :
    seq ∈ calls.map Prod.fst ↔ seq.toInt64 ∈ s.rows := by
  rw [Std.ExtTreeMap.mem_iff_isSome_getElem?, h.rows_eq, UInt64.toUInt64_toInt64,
    ← firstStored_ne_none_iff]
  split
  next => rw [Option.isSome_map, Option.isSome_iff_ne_none]
  next hneg =>
    rw [firstStored_ne_none_iff, List.mem_map]
    refine ⟨?_, nofun⟩
    rintro ⟨e, he, rfl⟩
    exact absurd (Word64.toInt64_nonneg (h.lt e he)) hneg

theorem Holds.mem_key (h : Holds s calls) {i : Int64} (hi : i ∈ s.rows) :
    i.toUInt64 ∈ calls.map Prod.fst := by
  rw [h.mem_calls_iff, Int64.toInt64_toUInt64]
  exact hi

theorem Holds.le_key_iff (h : Holds s calls) {i j : Int64} (hi : i ∈ s.rows) (hj : j ∈ s.rows) :
    i.toUInt64 ≤ j.toUInt64 ↔ compare i j ≠ .gt := by
  rw [Word64.le_iff, ← Int.ofNat_le, Word64.toNat_toUInt64 (h.nonneg hi),
    Word64.toNat_toUInt64 (h.nonneg hj), Ne, Std.compare_eq_gt, Int64.lt_iff_toInt_lt, Int.not_lt]

theorem Holds.eq_nil (h : Holds s calls) (hrows : ∀ i, i ∉ s.rows) : calls = [] := by
  cases calls with
  | nil => rfl
  | cons e calls => exact absurd (h.mem_calls_iff.mp List.mem_cons_self) (hrows e.1.toInt64)

theorem Holds.latest_spec (h : Holds s calls) :
    IsGreatest {seq | seq ∈ calls.map Prod.fst} s.latest ∨ calls = [] ∧ s.latest = 0 := by
  unfold latest selectMax
  cases hlast : (FinMap.last? s.rows).map Prod.fst with
  | none =>
      have hnone := Option.map_eq_none_iff.mp hlast
      exact .inr ⟨h.eq_nil fun i => FinMap.not_mem_of_last?_none hnone, rfl⟩
  | some i =>
      obtain ⟨hi, hmax⟩ := FinMap.last?_key_iff.mp hlast
      rw [Option.getD_some, Word64.max_zero (h.nonneg hi)]
      refine .inl ⟨h.mem_key hi, fun seq hseq => ?_⟩
      have hkey := h.mem_calls_iff.mp hseq
      have hle := (h.le_key_iff hkey hi).mpr (hmax _ hkey)
      rwa [UInt64.toUInt64_toInt64] at hle

theorem Holds.earliest_spec (h : Holds s calls) :
    IsLeast {seq | seq ∈ calls.map Prod.fst} s.earliest ∨ calls = [] ∧ s.earliest = 0 := by
  unfold earliest selectMin
  cases hfirst : (FinMap.first? s.rows).map Prod.fst with
  | none =>
      have hnone := Option.map_eq_none_iff.mp hfirst
      exact .inr ⟨h.eq_nil fun i => FinMap.not_mem_of_first?_none hnone, rfl⟩
  | some i =>
      obtain ⟨hi, hmin⟩ := FinMap.first?_key_iff.mp hfirst
      rw [Option.getD_some, Word64.max_zero (h.nonneg hi)]
      refine .inl ⟨h.mem_key hi, fun seq hseq => ?_⟩
      have hkey := h.mem_calls_iff.mp hseq
      have hle := (h.le_key_iff hi hkey).mpr (hmin _ hkey)
      rwa [UInt64.toUInt64_toInt64] at hle

end Ends

/-! ## Every query -/

/-- After a history of stores the contract's answers come back exactly for the queries whose
window PostgreSQL can express. -/
theorem answers_iff_expressible {calls : List (UInt64 × Message)} {s : PostgresSeqStore}
    (hfits : ∀ e ∈ calls, e.2.FitsWire) (hok : empty.storeAll calls = .ok s) (start : UInt64)
    (count : Nat) : Answers calls s start count ↔ Expressible calls start count := by
  have h : Holds s calls := holds_empty.storeAll hok
  have hanswers : Answers calls s start count ↔
      ∃ l, s.range start count = .ok l ∧ LongestRun (firstStored calls) start count l :=
    ⟨Answers.range, fun hrange => ⟨hrange, h.latest_spec, h.earliest_spec⟩⟩
  rw [hanswers, Expressible]
  by_cases hcount : count = 0
  · subst hcount
    exact iff_of_true ⟨[], rfl, .nil fun hlt => absurd hlt (Nat.lt_irrefl 0)⟩ (.inl rfl)
  by_cases hstart : 2 ^ 63 ≤ start.toNat
  · -- no number from here on is stored
    refine iff_of_true ⟨[], ?_, .nil fun _ => ?_⟩ (.inr (.inl hstart))
    · rw [range, if_neg hcount, seqToI64_of_le hstart]
    · by_contra hne
      obtain ⟨e, he, rfl⟩ := List.mem_map.mp (firstStored_ne_none_iff.mp hne)
      exact absurd (h.lt e he) (Nat.not_lt.mpr hstart)
  rw [or_iff_right hcount, or_iff_right hstart]
  by_cases hlt : start.toNat + min count (2 ^ 63 - 1) < 2 ^ 63
  · rw [and_iff_right hlt, ← longestRun_iff_of_below hlt (longestRun_consecutive _ count start),
      h.range_of_lt hfits hcount hlt]
    constructor
    · rintro ⟨l, hl, hrun⟩
      cases hl
      exact hrun
    · exact fun hrun => ⟨_, rfl, hrun⟩
  · refine iff_of_false ?_ fun hexp => hlt hexp.1
    rintro ⟨l, hl, -⟩
    rw [range_of_ge hcount (Nat.lt_of_not_le hstart) (Nat.le_of_not_lt hlt)] at hl
    cases hl

/-- A history with a gap and a number stored twice, and a query that runs into the gap. -/
theorem answers_iff_expressible_gap :
    ∃ s, empty.storeAll
        [(1, Message.sampleDelete), (3, Message.sampleDelete), (1, Message.sampleDelete)] = .ok s ∧
      Answers [(1, Message.sampleDelete), (3, Message.sampleDelete), (1, Message.sampleDelete)]
        s 1 5 := by
  obtain ⟨s, hok⟩ : ∃ s, empty.storeAll
      [(1, Message.sampleDelete), (3, Message.sampleDelete), (1, Message.sampleDelete)] = .ok s :=
    exists_storeAll (by decide)
  refine ⟨s, hok, (answers_iff_expressible (by decide) hok 1 5).mpr ?_⟩
  exact .inr (.inr ⟨by decide, .inl (by decide)⟩)

/-- A query for everything from the first number on fails: the window would end at the first
number after the `BIGINT`s. -/
theorem range_all_overflows :
    ∃ s, empty.storeAll [(1, Message.sampleDelete)] = .ok s ∧
      s.range 1 (2 ^ 64 - 1) = .error (.sqlx .bigintOutOfRange) ∧
      ¬ Answers [(1, Message.sampleDelete)] s 1 (2 ^ 64 - 1) := by
  obtain ⟨s, hok⟩ : ∃ s, empty.storeAll [(1, Message.sampleDelete)] = .ok s :=
    exists_storeAll (by decide)
  have hrange : s.range 1 (2 ^ 64 - 1) = .error (.sqlx .bigintOutOfRange) :=
    range_of_ge (by decide) (by decide) (by decide)
  refine ⟨s, hok, hrange, fun h => ?_⟩
  obtain ⟨l, hl, -⟩ := h.range
  rw [hrange] at hl
  cases hl

end PostgresSeqStore

end Itch
