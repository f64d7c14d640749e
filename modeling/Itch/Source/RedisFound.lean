import Itch.Source.RedisReads

/-!
# What is found in the Redis store

On a server that keeps its entries until their time is over, and if all stores of a prefix keep
messages as long, a message whose store has returned is found by every call that begins then and
returns in time.  So is a mark that is no larger than its number.

`Keeps` says how the data of a prefix may change.  Each turn of each call is of this kind.
-/

namespace Itch

open Lib

namespace RedisSeqStore

/-- How long a message is kept. -/
def ttlMs (s : RedisSeqStore) : Nat :=
  s.ttlSecs * 1000

end RedisSeqStore

namespace RedisServer

variable {S E B : Type} {srv : RedisServer S E B} {s s' : S} {key value : Bytes} {t secs : Nat}
  {choice : B} {cmd : RedisCommand} {reply : RedisReply}

/-- Up to the moment `t` there is an entry under the key. -/
def Lasts (srv : RedisServer S E B) (s : S) (key : Bytes) (t : Nat) : Prop :=
  srv.now s ≤ t → ∃ v e, srv.entry s key = some (v, e) ∧ t ≤ e

theorem Lasts.get (h : srv.Lasts s key t) (hnow : srv.now s ≤ t) : ∃ v, srv.get s key = some v := by
  obtain ⟨v, e, hentry, hle⟩ := h hnow
  exact ⟨v, live_eq_some_iff.mpr ⟨e, hentry, hnow.trans hle⟩⟩

theorem Lasts.mono {t' : Nat} (h : srv.Lasts s key t) (hle : t' ≤ t) : srv.Lasts s key t' := by
  intro hnow
  obtain ⟨v, e, hentry, hte⟩ := h (hnow.trans hle)
  exact ⟨v, e, hentry, hle.trans hte⟩

theorem Lasts.move {event : E} (h : srv.Lasts s key t) (hdurable : srv.Durable)
    (hmove : srv.move s event = some s') : srv.Lasts s' key t := by
  intro hnow
  obtain ⟨v, e, hentry, hte⟩ := h ((hdurable.move_now hmove).trans hnow)
  exact ⟨v, e, hdurable.move_keeps hmove hentry (hnow.trans hte), hte⟩

/-- A command that writes the key does so for long enough. -/
theorem Lasts.serve (h : srv.Lasts s key t) (hdurable : srv.Durable)
    (hserve : srv.serve s cmd choice = some (reply, s'))
    (hlong : ∀ value secs, cmd.write = some (key, value, secs) →
      t ≤ srv.now s + secs * 1000) : srv.Lasts s' key t := by
  intro hnow
  rw [hdurable.serve_now hserve] at hnow
  obtain ⟨v, e, hentry, hte⟩ := h hnow
  rcases hdurable.serve_keeps hserve hentry (hnow.trans hte) with
    hsame | ⟨value, secs, hwrite, -, hnew⟩
  · exact ⟨v, e, hsame, hte⟩
  · exact ⟨value, _, hnew, hlong value secs hwrite⟩

theorem lasts_set (hdurable : srv.Durable)
    (hserve : srv.serve s (.setEx key value secs) choice = some (.ok, s'))
    (hle : t ≤ srv.now s + secs * 1000) : srv.Lasts s' key t :=
  fun _ => ⟨value, _, hdurable.set hserve, hle⟩

end RedisServer

namespace RedisSystem

variable {S E B : Type} {srv : RedisServer S E B} {st : RedisSeqStore}
  {W : UInt64 → Message → Prop} {s s' : S} {choice : B} {cmd : RedisCommand}
  {reply : RedisReply} {begun : Nat} {task : RedisTask} {c : RedisCall}

/-- What is assumed of the calls: besides, all stores of the prefix keep messages as long. -/
def Alike (st : RedisSeqStore) (W : UInt64 → Message → Prop) (sys : RedisSystem S) : Prop :=
  Shared st W sys ∧ ∀ c ∈ sys.calls, c.store.keyPrefix = st.keyPrefix → c.store = st

instance [∀ n m, Decidable (W n m)] : DecidablePred (@Alike S st W) :=
  fun sys => inferInstanceAs (Decidable (Shared st W sys ∧
    ∀ c ∈ sys.calls, c.store.keyPrefix = st.keyPrefix → c.store = st))

/-! ## How the data change -/

/-- A message or a mark that is there for no longer than a new one would be is there as long. -/
structure Keeps (srv : RedisServer S E B) (st : RedisSeqStore) (s s' : S) : Prop where
  now_le : srv.now s ≤ srv.now s'
  lasts : ∀ k t, k ≠ .latest → t ≤ srv.now s + st.ttlMs → srv.Lasts s (st.key k) t →
    srv.Lasts s' (st.key k) t

theorem keeps_move {event : E} (hdurable : srv.Durable) (hmove : srv.move s event = some s') :
    Keeps srv st s s' where
  now_le := hdurable.move_now hmove
  lasts _ _ _ _ h := h.move hdurable hmove

/-- A command that writes a key of the prefix is one of the store itself. -/
theorem writes_own {k : RedisKey} {value : Bytes} {secs : Nat}
    (hsame : c.store.keyPrefix = st.keyPrefix → c.store = st)
    (hcmd : c.task.command c.store = some cmd)
    (hwrite : cmd.write = some (st.key k, value, secs)) : Writes st c.task k value secs := by
  obtain ⟨k', hkey, hwrites⟩ := writes_of_command hcmd hwrite
  obtain ⟨hpre, rfl⟩ := RedisSeqStore.key_inj hkey
  rw [hsame hpre.symm] at hwrites
  exact hwrites

theorem keeps_serve (hdurable : srv.Durable)
    (hsame : c.store.keyPrefix = st.keyPrefix → c.store = st)
    (hcmd : c.task.command c.store = some cmd)
    (hserve : srv.serve s cmd choice = some (reply, s')) : Keeps srv st s s' where
  now_le := (hdurable.serve_now hserve).ge
  lasts k t hk ht h := by
    refine h.serve hdurable hserve fun value secs hwrite => ?_
    have hwrites := writes_own hsame hcmd hwrite
    generalize c.task = task at hwrites
    cases hwrites with
    | message => exact ht
    | latest => exact absurd rfl hk
    | floor => exact ht

/-! ## What holds of a call -/

/-- What a store has written is there for its time, from the beginning of the call on. -/
def Lasting (srv : RedisServer S E B) (st : RedisSeqStore) (s : S) (begun : Nat) : RedisTask → Prop
  | .store seq _ .raiseLatest => srv.Lasts s (st.key (.msg seq)) (begun + st.ttlMs)
  | .store seq _ .setFloor => srv.Lasts s (st.key (.msg seq)) (begun + st.ttlMs)
  | .store seq _ (.returned (.ok _)) =>
      srv.Lasts s (st.key (.msg seq)) (begun + st.ttlMs) ∧
        srv.Lasts s (st.key (.floor seq)) (begun + st.ttlMs)
  | _ => True

theorem Lasting.keeps (h : Lasting srv st s begun task) (hkeeps : Keeps srv st s s')
    (hbegun : begun ≤ srv.now s) : Lasting srv st s' begun task := by
  have hle : begun + st.ttlMs ≤ srv.now s + st.ttlMs := Nat.add_le_add_right hbegun _
  cases task with
  | store seq msg stage =>
      cases stage with
      | setMsg buf => trivial
      | raiseLatest => exact hkeeps.lasts _ _ (by rintro ⟨⟩) hle h
      | setFloor => exact hkeeps.lasts _ _ (by rintro ⟨⟩) hle h
      | returned r =>
          cases r with
          | ok u =>
              exact ⟨hkeeps.lasts _ _ (by rintro ⟨⟩) hle h.1,
                hkeeps.lasts _ _ (by rintro ⟨⟩) hle h.2⟩
          | error e => trivial
  | range start count stage => trivial
  | latest answer => trivial
  | earliest stage => trivial

theorem lasting_start (request : RedisRequest) : Lasting srv st s begun (.start request) := by
  cases request with
  | store seq msg =>
      rw [RedisTask.start, Message.encode_fresh]
      trivial
  | range start count => trivial
  | latest => trivial
  | earliest => trivial

theorem Lasting.turn (h : Lasting srv st s begun task) (hdurable : srv.Durable)
    (hkeeps : Keeps srv st s s') (hbegun : begun ≤ srv.now s)
    (hcmd : task.command st = some cmd) (hserve : srv.serve s cmd choice = some (reply, s')) :
    Lasting srv st s' begun (task.resume reply) := by
  have hle : begun + st.ttlMs ≤ srv.now s + st.ttlMs := Nat.add_le_add_right hbegun _
  cases task with
  | store seq msg stage =>
      cases stage with
      | setMsg buf =>
          cases hcmd
          cases reply with
          | ok => exact RedisServer.lasts_set hdurable hserve hle
          | _ => trivial
      | raiseLatest =>
          cases reply with
          | integer n => exact hkeeps.lasts (.msg seq) _ (by rintro ⟨⟩) hle h
          | _ => trivial
      | setFloor =>
          cases hcmd
          cases reply with
          | ok =>
              exact ⟨hkeeps.lasts (.msg seq) _ (by rintro ⟨⟩) hle h,
                RedisServer.lasts_set hdurable hserve hle⟩
          | _ => trivial
      | returned r => cases hcmd
  | range start count stage => trivial
  | latest answer => trivial
  | earliest stage => trivial

/-- What holds of a call. -/
structure CallLasts (srv : RedisServer S E B) (st : RedisSeqStore) (W : UInt64 → Message → Prop)
    (s : S) (c : RedisCall) : Prop where
  ok : CallOk st W c
  begun_le : c.begun ≤ srv.now s
  lasting : c.store.keyPrefix = st.keyPrefix → Lasting srv st s c.begun c.task

theorem sound_lasting (hhonest : srv.Honest) (hdurable : srv.Durable)
    (hliteral : Literal st.keyPrefix) (W : UInt64 → Message → Prop) :
    Service.Sound srv.move (call srv) (act srv) (Alike st W) (Kept srv st W)
      (CallLasts srv st W) (Keeps srv st) where
  stable _ hkeeps hc :=
    ⟨hc.ok, hc.begun_le.trans hkeeps.now_le,
      fun hpre => (hc.lasting hpre).keeps hkeeps hc.begun_le⟩
  move hkept hmove :=
    ⟨((sound hhonest hliteral W).move hkept hmove).1, keeps_move hdurable hmove⟩
  begin hP hkept :=
    ⟨(sound hhonest hliteral W).begin hP.1 hkept, le_rfl, fun _ => lasting_start _⟩
  turn hP hmem hkept hc hact := by
    obtain ⟨hkept', -, hok⟩ := (sound hhonest hliteral W).turn hP.1 hmem hkept hc.ok hact
    obtain ⟨cmd, reply, hcmd, hserve, rfl⟩ := served_of_act hact
    have hkeeps : Keeps srv st _ _ := keeps_serve hdurable (hP.2 _ hmem) hcmd hserve
    refine ⟨hkept', hkeeps, hok, hc.begun_le.trans hkeeps.now_le, fun hpre => ?_⟩
    rw [hP.2 _ hmem hpre] at hcmd
    exact (hc.lasting hpre).turn hdurable hkeeps hc.begun_le hcmd hserve

theorem holds_start (hhonest : srv.Honest) {J : S → RedisCall → Prop} :
    Service.Holds (Kept srv st W) J (start srv) :=
  ⟨kept_start hhonest, fun _ h => absurd h List.not_mem_nil⟩

/-! ## Calls that return in time -/

/-- A store of a number has returned, and what it wrote is to be there up to a moment. -/
def Stored (st : RedisSeqStore) (sys : RedisSystem S) (seq : UInt64) (deadline : Nat) : Prop :=
  ∃ c ∈ sys.calls, c.store = st ∧ (∃ msg, c.task = .store seq msg (.returned (.ok ()))) ∧
    deadline ≤ c.begun + st.ttlMs

theorem Stored.lasts {sys : RedisSystem S} {seq : UInt64} {deadline : Nat}
    (h : Stored st sys seq deadline)
    (hholds : Service.Holds (Kept srv st W) (CallLasts srv st W) sys) :
    srv.Lasts sys.state (st.key (.msg seq)) deadline ∧
      srv.Lasts sys.state (st.key (.floor seq)) deadline ∧
      deadline ≤ srv.now sys.state + st.ttlMs := by
  obtain ⟨c, hc, hstore, ⟨msg, htask⟩, hdeadline⟩ := h
  have hcall := hholds.2 c hc
  have hlasting := hcall.lasting (by rw [hstore])
  rw [htask] at hlasting
  exact ⟨hlasting.1.mono hdeadline, hlasting.2.mono hdeadline,
    hdeadline.trans (Nat.add_le_add_right hcall.begun_le _)⟩

/-- What holds of a range call over numbers that are all there up to the moment `deadline`. -/
structure Ranging (srv : RedisServer S E B) (st : RedisSeqStore) (first : UInt64)
    (count deadline : Nat) (s : S) (c : RedisCall) : Prop where
  store : c.store = st
  deadline_le : deadline ≤ srv.now s + st.ttlMs
  lasts : ∀ i < count, srv.Lasts s (st.key (.msg (first + UInt64.ofNat i))) deadline
  task : ∃ stage, c.task = .range first count stage
  all : ∀ result, c.task = .range first count (.returned (.ok result)) → srv.now s ≤ deadline →
    result.length = count

theorem Ranging.keeps {first : UInt64} {count deadline : Nat}
    (h : Ranging srv st first count deadline s c) (hkeeps : Keeps srv st s s') :
    Ranging srv st first count deadline s' c where
  store := h.store
  deadline_le := h.deadline_le.trans (Nat.add_le_add_right hkeeps.now_le _)
  lasts i hi := hkeeps.lasts _ _ (by rintro ⟨⟩) h.deadline_le (h.lasts i hi)
  task := h.task
  all result htask hnow := h.all result htask (hkeeps.now_le.trans hnow)

/-- A reply ends the call with all messages if the next one is there. -/
theorem length_of_resumeRange {first : UInt64} {count : Nat}
    {fetched result : List (UInt64 × Message)} (hlt : fetched.length < count)
    (hsome : reply ≠ .nil)
    (h : RedisTask.resumeRange first count (.fetch fetched) reply = .returned (.ok result)) :
    result.length = count := by
  cases reply with
  | nil => exact absurd rfl hsome
  | bulk bytes =>
      rw [RedisTask.resumeRange] at h
      split at h
      next => cases h
      next =>
        dsimp only at h
        split at h
        next => cases h
        next hdone =>
          cases h
          simp only [List.length_append, List.length_singleton] at hdone ⊢
          omega
  | _ => cases h

theorem Ranging.turn {first : UInt64} {count deadline : Nat}
    (h : Ranging srv st first count deadline s c) (hdurable : srv.Durable)
    (hkeeps : Keeps srv st s s') (hgood : Good W c.task)
    (hcmd : c.task.command c.store = some cmd)
    (hserve : srv.serve s cmd choice = some (reply, s')) :
    Ranging srv st first count deadline s' { c with task := c.task.resume reply } := by
  obtain ⟨stage, htask⟩ := h.task
  rw [h.store] at hcmd
  rw [htask] at hgood hcmd ⊢
  refine ⟨h.store, h.deadline_le.trans (Nat.add_le_add_right hkeeps.now_le _),
    fun i hi => hkeeps.lasts _ _ (by rintro ⟨⟩) h.deadline_le (h.lasts i hi), ⟨_, rfl⟩, ?_⟩
  intro result hresult hnow
  cases hgood with
  | @fetch _ _ fetched hreads hlt =>
      cases hcmd
      refine length_of_resumeRange hlt ?_ (RedisTask.range.inj hresult).2.2
      rintro rfl
      obtain ⟨v, hv⟩ := (h.lasts _ hlt).get (hkeeps.now_le.trans hnow)
      exact absurd ((hdurable.absent hserve).symm.trans hv) (Option.some_ne_none v).symm
  | fetched => cases hcmd
  | rangeFailed => cases hcmd

/-- The answer of a search while there is a mark for `seq`.  It is not above the mark, and it
says that there is none only if the search cannot tell. -/
structure Finds (W : UInt64 → Message → Prop) (seq n : UInt64) : Prop where
  le : n ≤ seq
  zero : n = 0 → (∃ m, W 0 m) ∨ seq = Word64.max

theorem finds_of_lowest {seq low : UInt64} (hle : low.toNat ≤ seq.toNat)
    (hlow : low = Word64.max ∨ ∃ m, W low m) :
    Finds W seq (if low = Word64.max then 0 else low) := by
  by_cases hmax : low = Word64.max
  · rw [if_pos hmax]
    subst hmax
    refine ⟨UInt64.zero_le, fun _ => .inr ?_⟩
    exact Word64.eq_iff.mpr (Nat.le_antisymm (Word64.le_max seq) hle)
  · rw [if_neg hmax]
    refine ⟨Word64.le_iff.mpr hle, ?_⟩
    rintro rfl
    exact .inl (hlow.resolve_left hmax)

/-- What holds of a search for the smallest number while a mark is there up to the moment
`deadline`: it has come by already, or it is not behind the scan. -/
structure Scanning (srv : RedisServer S E B) (st : RedisSeqStore) (W : UInt64 → Message → Prop)
    (seq : UInt64) (deadline : Nat) (s : S) (c : RedisCall) : Prop where
  store : c.store = st
  deadline_le : deadline ≤ srv.now s + st.ttlMs
  lasts : srv.Lasts s (st.key (.floor seq)) deadline
  task : ∃ stage, c.task = .earliest stage
  ahead : ∀ cursor n, c.task = .earliest (.scan cursor n) → srv.now s ≤ deadline →
    n.toNat ≤ seq.toNat ∨ ¬ srv.Behind cursor (st.floorKey seq)
  below : ∀ n, c.task = .earliest (.returned (.ok n)) → srv.now s ≤ deadline → Finds W seq n

theorem Scanning.keeps {seq : UInt64} {deadline : Nat} (h : Scanning srv st W seq deadline s c)
    (hkeeps : Keeps srv st s s') : Scanning srv st W seq deadline s' c where
  store := h.store
  deadline_le := h.deadline_le.trans (Nat.add_le_add_right hkeeps.now_le _)
  lasts := hkeeps.lasts _ _ (by rintro ⟨⟩) h.deadline_le h.lasts
  task := h.task
  ahead cursor n htask hnow := h.ahead cursor n htask (hkeeps.now_le.trans hnow)
  below n htask hnow := h.below n htask (hkeeps.now_le.trans hnow)

/-- A piece of the search finds the mark or stays before it. -/
theorem lowest_or_ahead {seq n : UInt64} {deadline cursor count next : Nat} {keys : List Bytes}
    (hhonest : srv.Honest) (hdurable : srv.Durable) (hliteral : Literal st.keyPrefix)
    (hlasts : srv.Lasts s (st.key (.floor seq)) deadline) (hnow : srv.now s ≤ deadline)
    (hserve : srv.serve s (.scan cursor st.floorPattern count) choice = some (.scan next keys, s'))
    (hn : n.toNat ≤ seq.toNat ∨ ¬ srv.Behind cursor (st.floorKey seq)) :
    (RedisTask.lowest keys n).toNat ≤ seq.toNat ∨
      (next ≠ 0 ∧ ¬ srv.Behind next (st.floorKey seq)) := by
  rcases hn with hle | hahead
  · exact .inl ((RedisTask.lowest_le keys n).trans hle)
  · obtain ⟨v, hget⟩ := hlasts.get hnow
    have hglob : srv.Glob st.floorPattern (st.floorKey seq) :=
      (hhonest.glob (RedisSeqStore.literal_floorPrefix hliteral)).mpr (List.prefix_append _ _)
    refine (hdurable.scan hserve hget hglob hahead).imp_left fun hkey => ?_
    have hparse : parseU64 (lastSegment (st.floorKey seq)) = some seq := by
      rw [st.lastSegment_floorKey, parseU64_decimal]
    exact RedisTask.lowest_le_of_mem hkey hparse

theorem Scanning.turn {seq : UInt64} {deadline : Nat} (h : Scanning srv st W seq deadline s c)
    (hhonest : srv.Honest) (hdurable : srv.Durable) (hliteral : Literal st.keyPrefix)
    (hkeeps : Keeps srv st s s') (hkept : Kept srv st W s) (hgood : Good W c.task)
    (hcmd : c.task.command c.store = some cmd)
    (hserve : srv.serve s cmd choice = some (reply, s')) :
    Scanning srv st W seq deadline s' { c with task := c.task.resume reply } := by
  obtain ⟨stage, htask⟩ := h.task
  have hahead := h.ahead
  rw [h.store] at hcmd
  rw [htask] at hgood hcmd hahead ⊢
  have hdeadline := h.deadline_le.trans (Nat.add_le_add_right hkeeps.now_le st.ttlMs)
  have hlasts := hkeeps.lasts (.floor seq) _ (by rintro ⟨⟩) h.deadline_le h.lasts
  cases stage with
  | returned r => cases hcmd
  | scan cursor n =>
      cases hcmd
      cases reply with
      | scan next keys =>
          have hcases : srv.now s' ≤ deadline → (RedisTask.lowest keys n).toNat ≤ seq.toNat ∨
              (next ≠ 0 ∧ ¬ srv.Behind next (st.floorKey seq)) := fun hnow =>
            lowest_or_ahead hhonest hdurable hliteral h.lasts (hkeeps.now_le.trans hnow) hserve
              (hahead cursor n rfl (hkeeps.now_le.trans hnow))
          have hlow : RedisTask.lowest keys n = Word64.max ∨ ∃ m, W (RedisTask.lowest keys n) m := by
            cases hgood with
            | scan hseq => exact hkept.lowest hhonest hliteral hserve hseq
          have hresume : RedisTask.resume (.earliest (.scan cursor n)) (.scan next keys) =
              .earliest (if next = 0 then
                .returned (.ok (if RedisTask.lowest keys n = Word64.max then 0
                  else RedisTask.lowest keys n))
              else .scan next (RedisTask.lowest keys n)) := rfl
          rw [hresume]
          refine ⟨h.store, hdeadline, hlasts, ⟨_, rfl⟩, fun cursor' n' htask' hnow => ?_,
            fun n' htask' hnow => ?_⟩
          · by_cases hend : next = 0
            · simp [hend] at htask'
            · simp only [if_neg hend] at htask'
              cases htask'
              exact (hcases hnow).imp_right And.right
          · by_cases hend : next = 0
            · have hle := (hcases hnow).resolve_right fun hnext => hnext.1 hend
              simp only [if_pos hend] at htask'
              cases htask'
              exact finds_of_lowest hle hlow
            · simp [hend] at htask'
      | _ =>
          exact ⟨h.store, hdeadline, hlasts, ⟨_, rfl⟩, by rintro _ _ ⟨⟩, by rintro _ ⟨⟩⟩

/-- What holds of a new call, is kept along `Keeps` and by its own commands holds of it when it
has returned. -/
theorem follow_call {K : S → RedisCall → Prop} {sys sys' : RedisSystem S}
    {request : RedisRequest} (hhonest : srv.Honest) (hdurable : srv.Durable)
    (hliteral : Literal st.keyPrefix) (hrun : Run (step srv) (Alike st W) (start srv) sys)
    (hrun' : Run (step srv) (Alike st W) (Service.opened (call srv) sys (st, request)) sys')
    (hget : sys'.calls[sys.calls.length]? = some c)
    (hcall : K sys.state (call srv sys.state (st, request)))
    (hstable : ∀ {s s' c}, Keeps srv st s s' → K s c → K s' c)
    (hturn : ∀ {s s' c cmd choice reply}, K s c → Keeps srv st s s' → Kept srv st W s →
      CallOk st W c →
      c.task.command c.store = some cmd → srv.serve s cmd choice = some (reply, s') →
      K s' { c with task := c.task.resume reply }) : K sys'.state c := by
  have hsound := sound_lasting hhonest hdurable hliteral W
  refine hsound.follow_opened hrun.good (hsound.run hrun (holds_start hhonest)) hrun' hcall
    (fun _ hkeeps hK => hstable hkeeps hK) ?_ hget
  intro h c choice s' c' hP hmem hkept hc hK hact
  obtain ⟨cmd, reply, hcmd, hserve, rfl⟩ := served_of_act hact
  exact hturn hK (keeps_serve hdurable (hP.2 c hmem) hcmd hserve) hkept hc.ok hcmd hserve

/-- Whatever the other calls do: if stores of consecutive numbers have returned, a range call
that begins then and returns before the first of them would expire finds them all, and a search
for the smallest number finds one that is not above them.  It can say that there is none only if
zero is a number in use or the largest number is the one stored. -/
theorem stored_is_found (srv : RedisServer S E B) (hhonest : srv.Honest) (hdurable : srv.Durable)
    (st : RedisSeqStore) (hliteral : Literal st.keyPrefix) (W : UInt64 → Message → Prop)
    (sys : RedisSystem S) (hrun : Run (step srv) (Alike st W) (start srv) sys) (first : UInt64)
    (count deadline : Nat) (hcount : 0 < count)
    (hstored : ∀ i < count, Stored st sys (first + UInt64.ofNat i) deadline) :
    (∀ sys' c result, Run (step srv) (Alike st W)
        (Service.opened (call srv) sys (st, .range first count)) sys' →
      sys'.calls[sys.calls.length]? = some c →
      c.task = .range first count (.returned (.ok result)) → srv.now sys'.state ≤ deadline →
      result.length = count) ∧
    (∀ sys' c n, Run (step srv) (Alike st W)
        (Service.opened (call srv) sys (st, .earliest)) sys' →
      sys'.calls[sys.calls.length]? = some c → c.task = .earliest (.returned (.ok n)) →
      srv.now sys'.state ≤ deadline → ∀ i < count, n ≤ first + UInt64.ofNat i ∧
        (n = 0 → (∃ m, W 0 m) ∨ first + UInt64.ofNat i = Word64.max)) := by
  have hholds := (sound_lasting hhonest hdurable hliteral W).run hrun (holds_start hhonest)
  have hlasts := fun i hi => (hstored i hi).lasts hholds
  constructor
  · intro sys' c result hrun' hget htask hnow
    have hfirst : Ranging srv st first count deadline sys.state
        (call srv sys.state (st, .range first count)) := by
      refine ⟨rfl, (hlasts 0 hcount).2.2, fun i hi => (hlasts i hi).1, ⟨_, rfl⟩, ?_⟩
      intro result hresult
      rw [call, RedisTask.start, if_neg (Nat.ne_of_gt hcount)] at hresult
      cases hresult
    have hranging : Ranging srv st first count deadline sys'.state c := by
      refine follow_call hhonest hdurable hliteral hrun hrun' hget hfirst
        (fun hkeeps h => h.keeps hkeeps) ?_
      intro s s' c cmd choice reply h hkeeps _ hok hcmd hserve
      exact h.turn hdurable hkeeps (hok (by rw [h.store])) hcmd hserve
    exact hranging.all result htask hnow
  · intro sys' c n hrun' hget htask hnow i hi
    have hfirst : Scanning srv st W (first + UInt64.ofNat i) deadline sys.state
        (call srv sys.state (st, .earliest)) := by
      refine ⟨rfl, (hlasts i hi).2.2, (hlasts i hi).2.1, ⟨_, rfl⟩, ?_, by rintro _ ⟨⟩⟩
      intro cursor n htask
      cases htask
      exact fun _ => .inr (hdurable.behind_zero _)
    have hscanning : Scanning srv st W (first + UInt64.ofNat i) deadline sys'.state c := by
      refine follow_call hhonest hdurable hliteral hrun hrun' hget hfirst
        (fun hkeeps h => h.keeps hkeeps) ?_
      intro s s' c cmd choice reply h hkeeps hkept hok hcmd hserve
      exact h.turn hhonest hdurable hliteral hkeeps hkept (hok (by rw [h.store])) hcmd hserve
    have hfinds := hscanning.below n htask hnow
    exact ⟨hfinds.le, hfinds.zero⟩

open RedisServer (memory memory_honest memory_durable)

/-- The third call, and whether less than an hour has passed. -/
def thirdInTime (sys : RedisSystem RedisDb) : Option RedisCall × Bool :=
  (sys.calls[2]?, decide (sys.state.now ≤ 3600000))

/-- The message is found by a call that begins after its store has returned. -/
theorem stored_is_found_delete :
    ∃ sys sys' c result, Run (step memory) (Alike sampleStore OnlyDelete) (start memory) sys ∧
      Run (step memory) (Alike sampleStore OnlyDelete)
        (Service.opened (call memory) sys (sampleStore, .range 1 1)) sys' ∧
      sys'.calls[sys.calls.length]? = some c ∧
      c.task = .range 1 1 (.returned (.ok result)) ∧ result.length = 1 := by
  have hexec : (exec (step memory) (Alike sampleStore OnlyDelete) (start memory) deleteStored).map
      (fun sys => (sys.calls[0]?, sys.calls.length,
        decide (Alike sampleStore OnlyDelete
          (Service.opened (call memory) sys (sampleStore, .range 1 1))),
        (exec (step memory) (Alike sampleStore OnlyDelete)
          (Service.opened (call memory) sys (sampleStore, .range 1 1))
            [.turn 2 .answered]).map thirdInTime)) =
      some (some ⟨sampleStore, 0, .store 1 Message.sampleDelete (.returned (.ok ()))⟩, 2, true,
        some (some ⟨sampleStore, 1, .range 1 1 (.returned (.ok [(1, Message.sampleDelete)]))⟩,
          true)) := by decide +kernel
  obtain ⟨sys, hrun, heq⟩ := exists_run_of_exec _ _ (by decide) hexec
  obtain ⟨hstored, hrest⟩ := Prod.mk.inj heq
  obtain ⟨hlength, hrest⟩ := Prod.mk.inj hrest
  obtain ⟨hopened, hread⟩ := Prod.mk.inj hrest
  obtain ⟨sys', hrun', heq'⟩ := exists_run_of_exec _ _ (of_decide_eq_true hopened) hread
  obtain ⟨hcall, hnow⟩ := Prod.mk.inj heq'
  rw [← hlength] at hcall
  have hall : ∀ i < 1, Stored sampleStore sys (1 + UInt64.ofNat i) 3600000 := by
    intro i hi
    obtain rfl : i = 0 := by omega
    exact ⟨_, List.mem_of_getElem? hstored, rfl, ⟨_, rfl⟩, by decide⟩
  obtain ⟨hrange, -⟩ := stored_is_found memory memory_honest memory_durable sampleStore (by decide)
    OnlyDelete sys hrun 1 1 3600000 (by decide) hall
  exact ⟨sys, sys', _, _, hrun, hrun', hcall, rfl,
    hrange sys' _ _ hrun' hcall rfl (of_decide_eq_true hnow)⟩

end RedisSystem

end Itch
