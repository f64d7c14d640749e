import Itch.Source.RedisMemory

/-!
# What is read from the Redis store

Any number of calls of any number of stores take turns on one server, which may lose entries,
commands and replies as it likes.  As long as it makes nothing up, what the calls of a prefix
read was stored under this prefix, and under the number it is read with.

Nothing of this depends on time.  What is under a key says where it comes from (`Origin`).
-/

namespace Itch

open Lib

namespace RedisTask

/-- What a call asks to store. -/
def asks : RedisTask → Option (UInt64 × Message)
  | .store seq msg _ => some (seq, msg)
  | _ => none

end RedisTask

namespace RedisSystem

variable {S E B : Type} {srv : RedisServer S E B} {st : RedisSeqStore}
  {W : UInt64 → Message → Prop} {s s' : S}

/-- What is assumed of a call: if it has the prefix of `st`, it stores what `W` allows, and
otherwise its prefix does not lie under the marks of `st`. -/
structure Friendly (st : RedisSeqStore) (W : UInt64 → Message → Prop) (c : RedisCall) : Prop where
  asks : c.store.keyPrefix = st.keyPrefix → ∀ r ∈ c.task.asks, W r.1 r.2
  apart : c.store.keyPrefix ≠ st.keyPrefix → ¬ st.floorRoot <+: c.store.keyPrefix

def Shared (st : RedisSeqStore) (W : UInt64 → Message → Prop) (sys : RedisSystem S) : Prop :=
  ∀ c ∈ sys.calls, Friendly st W c

instance [∀ n m, Decidable (W n m)] (c : RedisCall) : Decidable (Friendly st W c) :=
  decidable_of_iff ((c.store.keyPrefix = st.keyPrefix → ∀ r ∈ c.task.asks, W r.1 r.2) ∧
    (c.store.keyPrefix ≠ st.keyPrefix → ¬ st.floorRoot <+: c.store.keyPrefix))
    ⟨fun ⟨h₁, h₂⟩ => ⟨h₁, h₂⟩, fun ⟨h₁, h₂⟩ => ⟨h₁, h₂⟩⟩

instance [∀ n m, Decidable (W n m)] : DecidablePred (@Shared S st W) :=
  fun sys => inferInstanceAs (Decidable (∀ c ∈ sys.calls, Friendly st W c))

/-! ## What is held under a key -/

/-- The value under a key of the prefix is one that was asked to be stored. -/
structure Origin (st : RedisSeqStore) (W : UInt64 → Message → Prop) (key value : Bytes) : Prop where
  message : ∀ n, key = st.key (.msg n) → ∃ m, W n m ∧ value = m.wireImage
  latest : key = st.key .latest → ∃ n m, W n m ∧ value = decimal n
  floor : st.floorPrefix <+: key → ∃ n m, W n m ∧ key = st.floorKey n

/-- Everything under the keys of the prefix was asked to be stored. -/
def Kept (srv : RedisServer S E B) (st : RedisSeqStore) (W : UInt64 → Message → Prop) (s : S) :
    Prop :=
  ∀ key value e, srv.entry s key = some (value, e) → Origin st W key value

/-- A key of another prefix is none of this one's. -/
theorem origin_other {c : RedisCall} {k : RedisKey} {value : Bytes} (hfriendly : Friendly st W c)
    (hpre : c.store.keyPrefix ≠ st.keyPrefix) : Origin st W (c.store.key k) value where
  message _ heq := absurd (RedisSeqStore.key_inj heq).1 hpre
  latest heq := absurd (RedisSeqStore.key_inj heq).1 hpre
  floor hfloor := by
    rcases RedisSeqStore.floor_of_starts hfloor with ⟨heq, -⟩ | hroot
    · exact absurd heq.symm hpre
    · exact absurd hroot (hfriendly.apart hpre)

/-- A key of the prefix starts as the marks do only if it is one. -/
theorem floor_of_own {s : RedisSeqStore} {k : RedisKey} (hpre : s.keyPrefix = st.keyPrefix)
    (h : st.floorPrefix <+: s.key k) : ∃ seq, k = .floor seq := by
  rcases RedisSeqStore.floor_of_starts h with ⟨-, hk⟩ | hroot
  · exact hk
  · rw [hpre] at hroot
    exact absurd hroot st.not_floorRoot_le

/-- What a call writes was asked to be stored. -/
theorem origin_of_writes {c : RedisCall} {k : RedisKey} {value : Bytes} {secs : Nat}
    (hwrites : Writes c.store c.task k value secs) (hfriendly : Friendly st W c)
    (hbuf : c.store.keyPrefix = st.keyPrefix →
      ∀ seq msg buf, c.task = .store seq msg (.setMsg buf) → buf = msg.wireImage) :
    Origin st W (c.store.key k) value := by
  by_cases hpre : c.store.keyPrefix = st.keyPrefix
  · have hasks := hfriendly.asks hpre
    have hbuf := hbuf hpre
    generalize c.task = task at hwrites hasks hbuf
    refine ⟨fun n heq => ?_, fun heq => ?_, fun hfloor => ?_⟩
    · obtain ⟨-, rfl⟩ := RedisSeqStore.key_inj heq
      cases hwrites with
      | @message seq msg buf => exact ⟨msg, hasks _ rfl, hbuf _ _ _ rfl⟩
    · obtain ⟨-, rfl⟩ := RedisSeqStore.key_inj heq
      cases hwrites with
      | @latest seq msg => exact ⟨seq, msg, hasks _ rfl, rfl⟩
    · obtain ⟨seq, rfl⟩ := floor_of_own hpre hfloor
      cases hwrites with
      | @floor seq msg =>
          refine ⟨seq, msg, hasks _ rfl, ?_⟩
          rw [RedisSeqStore.key, RedisSeqStore.floorKey, RedisSeqStore.floorPrefix, hpre]
          rfl
  · exact origin_other hfriendly hpre

/-! ## What holds of a call -/

/-- The messages of a list were stored, under its numbers from `start` on. -/
def Reads (W : UInt64 → Message → Prop) (start : UInt64) (result : List (UInt64 × Message)) :
    Prop :=
  ∀ i n m, result[i]? = some (n, m) →
    n = start + UInt64.ofNat i ∧ ∃ m', W n m' ∧ m = m'.onWire

/-- What holds of a call of the prefix. -/
inductive Good (W : UInt64 → Message → Prop) : RedisTask → Prop where
  | setMsg {seq : UInt64} {msg : Message} : Good W (.store seq msg (.setMsg msg.wireImage))
  | raiseLatest {seq : UInt64} {msg : Message} : Good W (.store seq msg .raiseLatest)
  | setFloor {seq : UInt64} {msg : Message} : Good W (.store seq msg .setFloor)
  | stored {seq : UInt64} {msg : Message} {r : Except RedisSeqStoreError Unit} :
      Good W (.store seq msg (.returned r))
  | fetch {start : UInt64} {count : Nat} {result : List (UInt64 × Message)} :
      Reads W start result → result.length < count → Good W (.range start count (.fetch result))
  | fetched {start : UInt64} {count : Nat} {result : List (UInt64 × Message)} :
      Reads W start result → result.length ≤ count →
      Good W (.range start count (.returned (.ok result)))
  | rangeFailed {start : UInt64} {count : Nat} {e : RedisSeqStoreError} :
      Good W (.range start count (.returned (.error e)))
  | getLatest : Good W (.latest none)
  | latest {n : UInt64} : (n = 0 ∨ ∃ m, W n m) → Good W (.latest (some (.ok n)))
  | latestFailed {e : RedisSeqStoreError} : Good W (.latest (some (.error e)))
  | scan {cursor : Nat} {n : UInt64} : (n = Word64.max ∨ ∃ m, W n m) →
      Good W (.earliest (.scan cursor n))
  | scanned {n : UInt64} : (n = 0 ∨ ∃ m, W n m) → Good W (.earliest (.returned (.ok n)))
  | scanFailed {e : RedisSeqStoreError} : Good W (.earliest (.returned (.error e)))

theorem good_start (request : RedisRequest) : Good W (.start request) := by
  cases request with
  | store seq msg =>
      rw [RedisTask.start, Message.encode_fresh]
      exact .setMsg
  | range start count =>
      have hnil : Reads W start [] := fun i n m h => absurd h (by simp)
      rw [RedisTask.start]
      by_cases hcount : count = 0
      · rw [if_pos hcount]
        exact .fetched hnil (Nat.zero_le _)
      · rw [if_neg hcount]
        exact .fetch hnil (Nat.pos_of_ne_zero hcount)
  | latest => exact .getLatest
  | earliest => exact .scan (.inl rfl)

/-- One more message is read. -/
theorem Reads.concat {start : UInt64} {result : List (UInt64 × Message)} {m : Message}
    (h : Reads W start result) (hm : W (start + UInt64.ofNat result.length) m) :
    Reads W start (result ++ [(start + UInt64.ofNat result.length, m.onWire)]) := by
  intro i n m' hi
  rcases Nat.lt_trichotomy i result.length with hlt | rfl | hgt
  · rw [List.getElem?_append_left hlt] at hi
    exact h i n m' hi
  · rw [List.getElem?_append_right le_rfl, Nat.sub_self] at hi
    cases hi
    exact ⟨rfl, m, hm, rfl⟩
  · rw [List.getElem?_eq_none (by simp; omega)] at hi
    cases hi

end RedisSystem

namespace RedisTask

variable {keys : List Bytes} {seq n : UInt64} {key : Bytes}

/-- One key of the loop. -/
def lower (seq : UInt64) (key : Bytes) : UInt64 :=
  match parseU64 (lastSegment key) with
  | some found => min seq found
  | none => seq

theorem lowest_eq_foldl (keys : List Bytes) (seq : UInt64) : lowest keys seq = keys.foldl lower seq :=
  rfl

theorem lower_cases (seq : UInt64) (key : Bytes) :
    (lower seq key).toNat ≤ seq.toNat ∧
    (∀ n, parseU64 (lastSegment key) = some n → (lower seq key).toNat ≤ n.toNat) ∧
    (lower seq key = seq ∨ parseU64 (lastSegment key) = some (lower seq key)) := by
  rw [lower]
  cases hparse : parseU64 (lastSegment key) with
  | none => exact ⟨le_rfl, nofun, .inl rfl⟩
  | some found =>
      have hmin : min seq found = if seq ≤ found then seq else found := rfl
      dsimp only
      rw [hmin]
      by_cases hle : seq ≤ found
      · rw [if_pos hle]
        refine ⟨le_rfl, fun n hn => ?_, .inl rfl⟩
        obtain rfl := Option.some.inj hn
        exact Word64.le_iff.mp hle
      · rw [if_neg hle]
        have hlt : found.toNat < seq.toNat := Nat.lt_of_not_le (mt Word64.le_iff.mpr hle)
        refine ⟨hlt.le, fun n hn => ?_, .inr rfl⟩
        obtain rfl := Option.some.inj hn
        exact le_rfl

theorem lowest_le (keys : List Bytes) (seq : UInt64) : (lowest keys seq).toNat ≤ seq.toNat := by
  rw [lowest_eq_foldl]
  induction keys generalizing seq with
  | nil => exact le_rfl
  | cons key keys ih => exact (ih _).trans (lower_cases seq key).1

theorem lowest_le_of_mem (hmem : key ∈ keys) (hparse : parseU64 (lastSegment key) = some n) :
    (lowest keys seq).toNat ≤ n.toNat := by
  induction keys generalizing seq with
  | nil => exact absurd hmem List.not_mem_nil
  | cons a keys ih =>
      rcases List.mem_cons.mp hmem with rfl | htail
      · exact (lowest_le keys _).trans ((lower_cases seq key).2.1 n hparse)
      · exact @ih (lower seq a) htail

/-- The smallest number is the one from before or that of a key. -/
theorem lowest_cases (keys : List Bytes) (seq : UInt64) :
    lowest keys seq = seq ∨
      ∃ key ∈ keys, parseU64 (lastSegment key) = some (lowest keys seq) := by
  rw [lowest_eq_foldl]
  induction keys generalizing seq with
  | nil => exact .inl rfl
  | cons a keys ih =>
      rw [List.foldl_cons]
      rcases ih (lower seq a) with heq | ⟨key, hkey, hparse⟩
      · rw [heq]
        rcases (lower_cases seq a).2.2 with hsame | hparse
        · exact .inl hsame
        · exact .inr ⟨a, List.mem_cons_self, hparse⟩
      · exact .inr ⟨key, List.mem_cons_of_mem a hkey, hparse⟩

end RedisTask

namespace RedisSystem

variable {S E B : Type} {srv : RedisServer S E B} {st : RedisSeqStore}
  {W : UInt64 → Message → Prop} {s s' : S} {choice : B} {reply : RedisReply}

/-- A message of the prefix that the server returns. -/
theorem Kept.get_msg (h : Kept srv st W s) (hhonest : srv.Honest) {n : UInt64} {bytes : Bytes}
    (hserve : srv.serve s (.get (st.key (.msg n))) choice = some (.bulk bytes, s')) :
    ∃ m, W n m ∧ bytes = m.wireImage := by
  obtain ⟨e, hentry⟩ := hhonest.get hserve
  exact (h _ _ _ hentry).message n rfl

/-- The marks that a scan returns have numbers of stored messages. -/
theorem Kept.lowest (h : Kept srv st W s) (hhonest : srv.Honest) (hliteral : Literal st.keyPrefix)
    {cursor count next : Nat} {keys : List Bytes} {seq : UInt64}
    (hserve : srv.serve s (.scan cursor st.floorPattern count) choice = some (.scan next keys, s'))
    (hseq : seq = Word64.max ∨ ∃ m, W seq m) :
    RedisTask.lowest keys seq = Word64.max ∨ ∃ m, W (RedisTask.lowest keys seq) m := by
  rcases RedisTask.lowest_cases keys seq with heq | ⟨key, hkey, hparse⟩
  · rw [heq]
    exact hseq
  · obtain ⟨⟨⟨v, e⟩, hentry⟩, hglob⟩ := hhonest.scan hserve key hkey
    have hstarts := (hhonest.glob (RedisSeqStore.literal_floorPrefix hliteral)).mp hglob
    obtain ⟨n, m, hm, rfl⟩ := (h _ _ _ hentry).floor hstarts
    rw [st.lastSegment_floorKey, parseU64_decimal] at hparse
    rw [← Option.some.inj hparse]
    exact .inr ⟨m, hm⟩

/-- The next piece of a range call. -/
theorem good_resumeRange {start : UInt64} {count : Nat} {result : List (UInt64 × Message)}
    (hreads : Reads W start result) (hlt : result.length < count)
    (hbulk : ∀ bytes, reply = .bulk bytes →
      ∃ m, W (start + UInt64.ofNat result.length) m ∧ bytes = m.wireImage) :
    Good W (.range start count (RedisTask.resumeRange start count (.fetch result) reply)) := by
  cases reply with
  | bulk bytes =>
      obtain ⟨m, hm, rfl⟩ := hbulk bytes rfl
      rw [RedisTask.resumeRange, Message.decode_wireImage]
      dsimp only
      have hlen : (result ++ [(start + UInt64.ofNat result.length, m.onWire)]).length =
          result.length + 1 := by simp
      split
      next hmore => exact .fetch (hreads.concat hm) hmore
      next => exact .fetched (hreads.concat hm) (by omega)
  | nil => exact .fetched hreads hlt.le
  | _ => exact .rangeFailed

/-- The next piece of a search for the smallest number. -/
theorem good_resumeEarliest {cursor : Nat} {n : UInt64}
    (hscan : ∀ next keys, reply = .scan next keys →
      RedisTask.lowest keys n = Word64.max ∨ ∃ m, W (RedisTask.lowest keys n) m) :
    Good W (.earliest (RedisTask.resumeEarliest (.scan cursor n) reply)) := by
  cases reply with
  | scan next keys =>
      have hlowest := hscan next keys rfl
      rw [RedisTask.resumeEarliest]
      split
      next =>
        refine .scanned ?_
        by_cases hmax : RedisTask.lowest keys n = Word64.max
        · rw [if_pos hmax]
          exact .inl rfl
        · rw [if_neg hmax]
          exact .inr (hlowest.resolve_left hmax)
      next => exact .scan hlowest
  | _ => exact .scanFailed

/-- A turn of a call of the prefix. -/
theorem Good.turn {task : RedisTask} {cmd : RedisCommand} (h : Good W task)
    (hhonest : srv.Honest) (hliteral : Literal st.keyPrefix) (hkept : Kept srv st W s)
    (hcmd : task.command st = some cmd) (hserve : srv.serve s cmd choice = some (reply, s')) :
    Good W (task.resume reply) := by
  cases h with
  | setMsg =>
      cases reply with
      | ok => exact .raiseLatest
      | _ => exact .stored
  | raiseLatest =>
      cases reply with
      | integer n => exact .setFloor
      | _ => exact .stored
  | setFloor => cases reply <;> exact .stored
  | stored => cases hcmd
  | fetch hreads hlt =>
      cases hcmd
      refine good_resumeRange hreads hlt ?_
      rintro bytes rfl
      exact hkept.get_msg hhonest hserve
  | fetched => cases hcmd
  | rangeFailed => cases hcmd
  | getLatest =>
      cases hcmd
      cases reply with
      | bulk value =>
          obtain ⟨e, hentry⟩ := hhonest.get hserve
          obtain ⟨n, m, hm, rfl⟩ := (hkept _ _ _ hentry).latest rfl
          rw [RedisTask.resume, RedisTask.resumeLatest, parseU64_decimal]
          exact .latest (.inr ⟨m, hm⟩)
      | nil => exact .latest (.inl rfl)
      | _ => exact .latestFailed
  | latest => cases hcmd
  | latestFailed => cases hcmd
  | scan hn =>
      cases hcmd
      refine good_resumeEarliest ?_
      rintro next keys rfl
      exact hkept.lowest hhonest hliteral hserve hn
  | scanned => cases hcmd
  | scanFailed => cases hcmd

/-! ## Every run -/

/-- The stores of a prefix share what they hold. -/
theorem Kept.of_prefix {a : RedisSeqStore} (h : Kept srv st W s)
    (hpre : a.keyPrefix = st.keyPrefix) : Kept srv a W s := by
  obtain ⟨p, ttl⟩ := a
  obtain rfl : p = st.keyPrefix := hpre
  intro key value e hentry
  have horigin := h key value e hentry
  exact ⟨horigin.message, horigin.latest, horigin.floor⟩

theorem Kept.serve {c : RedisCall} {cmd : RedisCommand} (h : Kept srv st W s)
    (hhonest : srv.Honest) (hfriendly : Friendly st W c)
    (hgood : c.store.keyPrefix = st.keyPrefix → Good W c.task)
    (hcmd : c.task.command c.store = some cmd)
    (hserve : srv.serve s cmd choice = some (reply, s')) : Kept srv st W s' := by
  intro key value e hentry
  rcases hhonest.serve hserve hentry with hold | ⟨value', secs, hwrite, heq⟩
  · exact h key value e hold
  · obtain ⟨k, rfl, hwrites⟩ := writes_of_command hcmd hwrite
    obtain ⟨rfl, -⟩ := Prod.mk.inj heq
    refine origin_of_writes hwrites hfriendly fun hpre seq msg buf htask => ?_
    have hgood := hgood hpre
    rw [htask] at hgood
    cases hgood
    rfl

/-- What holds of a call. -/
def CallOk (st : RedisSeqStore) (W : UInt64 → Message → Prop) (c : RedisCall) : Prop :=
  c.store.keyPrefix = st.keyPrefix → Good W c.task

theorem CallOk.turn {c : RedisCall} {cmd : RedisCommand} (h : CallOk st W c)
    (hhonest : srv.Honest) (hliteral : Literal st.keyPrefix) (hkept : Kept srv st W s)
    (hcmd : c.task.command c.store = some cmd)
    (hserve : srv.serve s cmd choice = some (reply, s')) :
    CallOk st W { c with task := c.task.resume reply } := by
  intro hpre
  refine (h hpre).turn hhonest ?_ (hkept.of_prefix hpre) hcmd hserve
  rw [hpre]
  exact hliteral

theorem sound (hhonest : srv.Honest) (hliteral : Literal st.keyPrefix)
    (W : UInt64 → Message → Prop) :
    Service.Sound srv.move (call srv) (act srv) (Shared st W) (Kept srv st W)
      (fun _ => CallOk st W) (fun _ _ => True) where
  stable _ _ hc := hc
  move hkept hmove :=
    ⟨fun _ _ _ hentry => hkept _ _ _ (hhonest.move hmove hentry), trivial⟩
  begin _ _ := fun _ => good_start _
  turn hshared hmem hkept hc hact := by
    obtain ⟨cmd, reply, hcmd, hserve, rfl⟩ := served_of_act hact
    exact ⟨hkept.serve hhonest (hshared _ hmem) hc hcmd hserve, trivial,
      hc.turn hhonest hliteral hkept hcmd hserve⟩

theorem kept_start (hhonest : srv.Honest) : Kept srv st W srv.start := by
  intro key value e hentry
  rw [hhonest.start] at hentry
  cases hentry

/-- Whatever the calls of one prefix read, in whatever order the commands of all calls are
served and whatever the server loses: it was stored under this prefix, and under the number it is
read with. -/
theorem reads_are_stored (srv : RedisServer S E B) (hhonest : srv.Honest) (st : RedisSeqStore)
    (hliteral : Literal st.keyPrefix) (W : UInt64 → Message → Prop) (sys : RedisSystem S)
    (hrun : Run (step srv) (Shared st W) (start srv) sys) (c : RedisCall) (hc : c ∈ sys.calls)
    (hpre : c.store.keyPrefix = st.keyPrefix) :
    (∀ start count result, c.task = .range start count (.returned (.ok result)) →
      result.length ≤ count ∧ ∀ i n m, result[i]? = some (n, m) →
        n = start + UInt64.ofNat i ∧ ∃ m', W n m' ∧ m = m'.onWire) ∧
    (∀ n, c.task = .latest (some (.ok n)) → n = 0 ∨ ∃ m, W n m) ∧
    (∀ n, c.task = .earliest (.returned (.ok n)) → n = 0 ∨ ∃ m, W n m) := by
  have hholds := (sound hhonest hliteral W).run hrun
    ⟨kept_start hhonest, fun _ h => absurd h List.not_mem_nil⟩
  have hgood := hholds.2 c hc hpre
  refine ⟨fun start count result htask => ?_, fun n htask => ?_, fun n htask => ?_⟩
  · rw [htask] at hgood
    cases hgood with
    | fetched hreads hle => exact ⟨hle, hreads⟩
  · rw [htask] at hgood
    cases hgood with
    | latest hn => exact hn
  · rw [htask] at hgood
    cases hgood with
    | scanned hn => exact hn

open RedisServer (memory memory_honest)

/-- The store with the default prefix, `itch:seq`. -/
def sampleStore : RedisSeqStore where
  keyPrefix := [0x69, 0x74, 0x63, 0x68, 0x3A, 0x73, 0x65, 0x71]
  ttlSecs := 3600

/-- Another store on the same server. -/
def otherStore : RedisSeqStore where
  keyPrefix := [0x78]
  ttlSecs := 1

def OnlyDelete (n : UInt64) (m : Message) : Prop :=
  n = 1 ∧ m = Message.sampleDelete

instance (n : UInt64) (m : Message) : Decidable (OnlyDelete n m) :=
  inferInstanceAs (Decidable (n = 1 ∧ m = Message.sampleDelete))

/-- A message is stored while another store writes, of which a reply is lost. -/
def deleteStored : List (RedisAction Nat RedisOutcome) :=
  [.begin (sampleStore, .store 1 Message.sampleDelete), .turn 0 .answered,
    .begin (otherStore, .store 7 Message.sampleDelete), .turn 1 .answered, .turn 1 .lost,
    .turn 0 .answered, .move 1, .turn 0 .answered]

/-- The message is read, after a search for the smallest number. -/
theorem reads_are_stored_delete :
    ∃ sys c, Run (step memory) (Shared sampleStore OnlyDelete) (start memory) sys ∧
      c ∈ sys.calls ∧ c.task = .range 1 2 (.returned (.ok [(1, Message.sampleDelete)])) ∧
      ∃ m', OnlyDelete 1 m' ∧ Message.sampleDelete = m'.onWire := by
  obtain ⟨sys, hrun, heq⟩ := exists_run_of_exec
    (deleteStored ++ [.begin (sampleStore, .earliest), .turn 2 .answered,
      .begin (sampleStore, .range 1 2), .turn 3 .answered, .turn 3 .answered])
    (fun sys : RedisSystem RedisDb => sys.calls[3]?) (by decide)
    (show (exec (step memory) (Shared sampleStore OnlyDelete) (start memory) _).map _ =
      some (some ⟨sampleStore, 1, .range 1 2 (.returned (.ok [(1, Message.sampleDelete)]))⟩)
      by decide +kernel)
  have hmem := List.mem_of_getElem? heq
  obtain ⟨hrange, -⟩ := reads_are_stored memory memory_honest sampleStore (by decide) OnlyDelete
    sys hrun _ hmem rfl
  exact ⟨sys, _, hrun, hmem, rfl, ((hrange _ _ _ rfl).2 0 _ _ rfl).2⟩

end RedisSystem

end Itch
