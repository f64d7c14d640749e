import Itch.Source.RedisFound

/-!
# The largest number of the Redis store

The entry of the largest number is written with twice the time of a message, but only when the
number rises.  So it outlives the messages it covers as long as messages are written with rising
numbers (`Rising`): then the entry is younger than any message below it, or as young.  A number
that is stored again is there for longer than the entry.

The script compares doubles, so the numbers have to stay within `2 ^ 53`.
-/

namespace Itch

open Lib

/-- The number of a message that is not written yet. -/
def RedisTask.pending : RedisTask → Option UInt64
  | .store seq _ (.setMsg _) => some seq
  | _ => none

theorem RedisSeqStore.ttlMs_le_twice (s : RedisSeqStore) : s.ttlMs ≤ s.ttlSecs * 2 * 1000 := by
  rw [ttlMs]
  omega

namespace RedisSystem

variable {S E B : Type} {srv : RedisServer S E B} {st : RedisSeqStore}
  {W : UInt64 → Message → Prop} {s s' : S} {choice : B} {cmd : RedisCommand}
  {reply : RedisReply} {begun t : Nat} {task : RedisTask} {c : RedisCall} {seq : UInt64}

/-- The largest number announced, if its entry is there. -/
def announced (srv : RedisServer S E B) (st : RedisSeqStore) (s : S) : Option UInt64 :=
  (srv.get s st.latestKey).bind parseU64

/-- A message that is not written yet has a number above the largest one, and one that a double
holds. -/
def Rising (srv : RedisServer S E B) (st : RedisSeqStore) (sys : RedisSystem S) : Prop :=
  ∀ c ∈ sys.calls, c.store.keyPrefix = st.keyPrefix → ∀ n ∈ c.task.pending,
    n.toNat ≤ 2 ^ 53 ∧ ∀ v ∈ announced srv st sys.state, v < n

-- a number that is pending or announced is looked at where it stands, not searched for
instance : DecidablePred (Rising srv st) := fun sys =>
  have (c : RedisCall) : Decidable (∀ n ∈ c.task.pending,
      n.toNat ≤ 2 ^ 53 ∧ ∀ v ∈ announced srv st sys.state, v < n) :=
    have (n : UInt64) : Decidable (∀ v ∈ announced srv st sys.state, v < n) :=
      Option.decidableForallMem _
    Option.decidableForallMem _
  inferInstanceAs (Decidable (∀ c ∈ sys.calls, c.store.keyPrefix = st.keyPrefix →
    ∀ n ∈ c.task.pending, n.toNat ≤ 2 ^ 53 ∧ ∀ v ∈ announced srv st sys.state, v < n))

/-- What is assumed of the calls. -/
def Ordered (srv : RedisServer S E B) (st : RedisSeqStore) (W : UInt64 → Message → Prop)
    (sys : RedisSystem S) : Prop :=
  Alike st W sys ∧ Rising srv st sys

instance [∀ n m, Decidable (W n m)] : DecidablePred (Ordered srv st W) :=
  fun sys => inferInstanceAs (Decidable (Alike st W sys ∧ Rising srv st sys))

/-! ## How the entry changes -/

/-- The largest number is at least `n` up to the moment `t`. -/
def Covers (srv : RedisServer S E B) (st : RedisSeqStore) (s : S) (n : UInt64) (t : Nat) : Prop :=
  srv.now s ≤ t → ∃ v e, srv.entry s (st.key .latest) = some (decimal v, e) ∧ t ≤ e ∧ n ≤ v

/-- If the largest number is at least `n`, it is so up to the moment `t`. -/
def Spares (srv : RedisServer S E B) (st : RedisSeqStore) (s : S) (n : UInt64) (t : Nat) : Prop :=
  ∀ v e, srv.entry s (st.key .latest) = some (decimal v, e) → srv.now s ≤ e → n ≤ v → t ≤ e

theorem Covers.mono {t' : Nat} (h : Covers srv st s seq t) (hle : t' ≤ t) :
    Covers srv st s seq t' := by
  intro hnow
  obtain ⟨v, e, hentry, hte, hv⟩ := h (hnow.trans hle)
  exact ⟨v, e, hentry, hle.trans hte, hv⟩

theorem Covers.move {event : E} (h : Covers srv st s seq t) (hdurable : srv.Durable)
    (hmove : srv.move s event = some s') : Covers srv st s' seq t := by
  intro hnow
  obtain ⟨v, e, hentry, hte, hv⟩ := h ((hdurable.move_now hmove).trans hnow)
  exact ⟨v, e, hdurable.move_keeps hmove hentry (hnow.trans hte), hte, hv⟩

theorem Spares.move {event : E} (h : Spares srv st s seq t) (hhonest : srv.Honest)
    (hdurable : srv.Durable) (hmove : srv.move s event = some s') : Spares srv st s' seq t :=
  fun v e hentry hnow hv =>
    h v e (hhonest.move hmove hentry) ((hdurable.move_now hmove).trans hnow) hv

/-- What is written under the key of the largest number is a number, for twice the time. -/
theorem writes_latest {value : Bytes} {secs : Nat} (h : Writes st task .latest value secs) :
    ∃ seq, value = decimal seq ∧ secs = st.ttlSecs * 2 := by
  cases h with
  | @latest seq msg => exact ⟨seq, rfl, rfl⟩

/-- Only the script writes under the key of the largest number. -/
theorem less_of_replaces {value old : Bytes} {secs : Nat}
    (hwrites : Writes st task .latest value secs) (hcmd : task.command st = some cmd)
    (hreplaces : srv.Replaces old cmd) : srv.Less old value := by
  cases hwrites with
  | latest =>
      cases hcmd
      cases hreplaces with
      | raise hless => exact hless

theorem Covers.serve (h : Covers srv st s seq t) (hdurable : srv.Durable)
    (hsame : c.store.keyPrefix = st.keyPrefix → c.store = st)
    (hcmd : c.task.command c.store = some cmd)
    (hserve : srv.serve s cmd choice = some (reply, s')) (ht : t ≤ srv.now s + st.ttlMs) :
    Covers srv st s' seq t := by
  intro hnow
  rw [hdurable.serve_now hserve] at hnow
  obtain ⟨v, e, hentry, hte, hv⟩ := h hnow
  rcases hdurable.serve_keeps hserve hentry (hnow.trans hte) with
    hold | ⟨value, secs, hwrite, hreplaces, hnew⟩
  · exact ⟨v, e, hold, hte, hv⟩
  · have hown : c.store = st := by
      obtain ⟨k, hkey, -⟩ := writes_of_command hcmd hwrite
      exact hsame (RedisSeqStore.key_inj hkey).1.symm
    have hwrites := writes_own hsame hcmd hwrite
    rw [hown] at hcmd
    have hless := less_of_replaces hwrites hcmd hreplaces
    obtain ⟨n, rfl, rfl⟩ := writes_latest hwrites
    have hlt := Word64.lt_iff.mp (hdurable.lt_of_less hless)
    refine ⟨n, _, hnew, ht.trans (Nat.add_le_add_left st.ttlMs_le_twice _), ?_⟩
    exact Word64.le_iff.mpr ((Word64.le_iff.mp hv).trans hlt.le)

theorem Spares.serve (h : Spares srv st s seq t) (hhonest : srv.Honest) (hdurable : srv.Durable)
    (hsame : c.store.keyPrefix = st.keyPrefix → c.store = st)
    (hcmd : c.task.command c.store = some cmd)
    (hserve : srv.serve s cmd choice = some (reply, s')) (ht : t ≤ srv.now s + st.ttlMs) :
    Spares srv st s' seq t := by
  intro v e hentry hnow hv
  rw [hdurable.serve_now hserve] at hnow
  rcases hhonest.serve hserve hentry with hold | ⟨value, secs, hwrite, heq⟩
  · exact h v e hold hnow hv
  · obtain ⟨n, -, rfl⟩ := writes_latest (writes_own hsame hcmd hwrite)
    obtain ⟨-, rfl⟩ := Prod.mk.inj heq
    exact ht.trans (Nat.add_le_add_left st.ttlMs_le_twice _)

/-- The entry of the largest number is there as long as it was, or as a new message would be. -/
structure KeepsLatest (srv : RedisServer S E B) (st : RedisSeqStore) (s s' : S) : Prop extends
    Keeps srv st s s' where
  covers : ∀ n t, t ≤ srv.now s + st.ttlMs → Covers srv st s n t → Covers srv st s' n t
  spares : ∀ n t, t ≤ srv.now s + st.ttlMs → Spares srv st s n t → Spares srv st s' n t

theorem keepsLatest_move {event : E} (hhonest : srv.Honest) (hdurable : srv.Durable)
    (hmove : srv.move s event = some s') : KeepsLatest srv st s s' where
  toKeeps := keeps_move hdurable hmove
  covers _ _ _ h := h.move hdurable hmove
  spares _ _ _ h := h.move hhonest hdurable hmove

theorem keepsLatest_serve (hhonest : srv.Honest) (hdurable : srv.Durable)
    (hsame : c.store.keyPrefix = st.keyPrefix → c.store = st)
    (hcmd : c.task.command c.store = some cmd)
    (hserve : srv.serve s cmd choice = some (reply, s')) : KeepsLatest srv st s s' where
  toKeeps := keeps_serve hdurable hsame hcmd hserve
  covers _ _ ht h := h.serve hdurable hsame hcmd hserve ht
  spares _ _ ht h := h.serve hhonest hdurable hsame hcmd hserve ht

/-! ## What holds of a call -/

/-- What a store has done for the largest number. -/
def Announced (srv : RedisServer S E B) (st : RedisSeqStore) (s : S) (begun : Nat) :
    RedisTask → Prop
  | .store seq _ .raiseLatest => seq.toNat ≤ 2 ^ 53 ∧ Spares srv st s seq (begun + st.ttlMs)
  | .store seq _ .setFloor => Covers srv st s seq (begun + st.ttlMs)
  | .store seq _ (.returned (.ok _)) => Covers srv st s seq (begun + st.ttlMs)
  | _ => True

theorem Announced.keeps (h : Announced srv st s begun task) (hkeeps : KeepsLatest srv st s s')
    (hbegun : begun ≤ srv.now s) : Announced srv st s' begun task := by
  have hle : begun + st.ttlMs ≤ srv.now s + st.ttlMs := Nat.add_le_add_right hbegun _
  cases task with
  | store seq msg stage =>
      cases stage with
      | setMsg buf => trivial
      | raiseLatest => exact ⟨h.1, hkeeps.spares _ _ hle h.2⟩
      | setFloor => exact hkeeps.covers _ _ hle h
      | returned r =>
          cases r with
          | ok u => exact hkeeps.covers _ _ hle h
          | error e => trivial
  | range start count stage => trivial
  | latest answer => trivial
  | earliest stage => trivial

theorem announced_start (request : RedisRequest) : Announced srv st s begun (.start request) := by
  cases request with
  | store seq msg =>
      rw [RedisTask.start, Message.encode_fresh]
      trivial
  | range start count => trivial
  | latest => trivial
  | earliest => trivial

/-- The message is written while the largest number is below. -/
theorem spares_of_rising (hbelow : ∀ v ∈ announced srv st s, v < seq) :
    Spares srv st s seq t := by
  intro v e hentry hnow hle
  have hannounced : announced srv st s = some v := by
    have hget : srv.get s st.latestKey = some (decimal v) :=
      live_eq_some_iff.mpr ⟨e, hentry, hnow⟩
    rw [announced, hget]
    exact parseU64_decimal v
  have hlt := Word64.lt_iff.mp (hbelow v hannounced)
  exact absurd (Word64.le_iff.mp hle) (Nat.not_le.mpr hlt)

/-- The script leaves the number alone only if it is no smaller. -/
theorem covers_of_kept {cur : Bytes} (hkept : Kept srv st W s) (hdurable : srv.Durable)
    (hsmall : seq.toNat ≤ 2 ^ 53) (hspares : Spares srv st s seq t)
    (hcur : srv.get s (st.key .latest) = some cur) (hnot : ¬ srv.Less cur (decimal seq)) :
    Covers srv st s seq t := by
  intro _
  obtain ⟨e, hentry, hnow⟩ := live_eq_some_iff.mp hcur
  obtain ⟨v, m, -, rfl⟩ := (hkept _ _ _ hentry).latest rfl
  have hle : seq ≤ v := by
    rw [Word64.le_iff]
    by_contra hlt
    exact hnot (hdurable.less_of_lt (Word64.lt_iff.mpr (Nat.lt_of_not_le hlt)) hsmall)
  exact ⟨v, e, hentry, hspares v e hentry hnow hle, hle⟩

theorem Announced.turn (h : Announced srv st s begun task) (hdurable : srv.Durable)
    (hbegun : begun ≤ srv.now s) (hkept : Kept srv st W s) (hkeeps : KeepsLatest srv st s s')
    (hrising : ∀ n ∈ task.pending, n.toNat ≤ 2 ^ 53 ∧ ∀ v ∈ announced srv st s, v < n)
    (hcmd : task.command st = some cmd) (hserve : srv.serve s cmd choice = some (reply, s')) :
    Announced srv st s' begun (task.resume reply) := by
  have hle : begun + st.ttlMs ≤ srv.now s + st.ttlMs := Nat.add_le_add_right hbegun _
  cases task with
  | store seq msg stage =>
      cases stage with
      | setMsg buf =>
          obtain ⟨hsmall, hbelow⟩ := hrising seq rfl
          cases reply with
          | ok => exact ⟨hsmall, hkeeps.spares _ _ hle (spares_of_rising hbelow)⟩
          | _ => trivial
      | raiseLatest =>
          obtain ⟨hsmall, hspares⟩ := h
          cases hcmd
          cases reply with
          | integer n =>
              rcases hdurable.raise hserve with hnew | ⟨cur, hcur, hnot⟩
              · intro _
                exact ⟨seq, _, hnew, hle.trans (Nat.add_le_add_left st.ttlMs_le_twice _),
                  Word64.le_iff.mpr le_rfl⟩
              · exact hkeeps.covers _ _ hle
                  (covers_of_kept hkept hdurable hsmall hspares hcur hnot)
          | _ => trivial
      | setFloor =>
          cases reply with
          | ok => exact hkeeps.covers _ _ hle h
          | _ => trivial
      | returned r => cases hcmd
  | range start count stage => trivial
  | latest answer => trivial
  | earliest stage => trivial

/-- What holds of a call, with what it has done for the largest number. -/
structure CallAnnounced (srv : RedisServer S E B) (st : RedisSeqStore)
    (W : UInt64 → Message → Prop) (s : S) (c : RedisCall) : Prop extends
    CallLasts srv st W s c where
  announced : c.store.keyPrefix = st.keyPrefix → Announced srv st s c.begun c.task

theorem sound_rising (hhonest : srv.Honest) (hdurable : srv.Durable)
    (hliteral : Literal st.keyPrefix) (W : UInt64 → Message → Prop) :
    Service.Sound srv.move (call srv) (act srv) (Ordered srv st W) (Kept srv st W)
      (CallAnnounced srv st W) (KeepsLatest srv st) where
  stable hkept hkeeps hc :=
    ⟨(sound_lasting hhonest hdurable hliteral W).stable hkept hkeeps.toKeeps hc.toCallLasts,
      fun hpre => (hc.announced hpre).keeps hkeeps hc.begun_le⟩
  move hkept hmove :=
    ⟨((sound hhonest hliteral W).move hkept hmove).1, keepsLatest_move hhonest hdurable hmove⟩
  begin hP hkept :=
    ⟨(sound_lasting hhonest hdurable hliteral W).begin hP.1 hkept, fun _ => announced_start _⟩
  turn hP hmem hkept hc hact := by
    obtain ⟨hkept', -, hlasts⟩ :=
      (sound_lasting hhonest hdurable hliteral W).turn hP.1 hmem hkept hc.toCallLasts hact
    obtain ⟨cmd, reply, hcmd, hserve, rfl⟩ := served_of_act hact
    have hsame := hP.1.2 _ hmem
    have hkeeps : KeepsLatest srv st _ _ := keepsLatest_serve hhonest hdurable hsame hcmd hserve
    refine ⟨hkept', hkeeps, hlasts, fun hpre => ?_⟩
    rw [hsame hpre] at hcmd
    exact (hc.announced hpre).turn hdurable hc.begun_le hkept hkeeps (hP.2 _ hmem hpre) hcmd hserve

/-! ## A question that is answered in time -/

/-- What holds of a question for the largest number while it is at least `seq`. -/
structure Asking (srv : RedisServer S E B) (st : RedisSeqStore) (seq : UInt64) (deadline : Nat)
    (s : S) (c : RedisCall) : Prop where
  store : c.store = st
  deadline_le : deadline ≤ srv.now s + st.ttlMs
  covers : Covers srv st s seq deadline
  task : ∃ answer, c.task = .latest answer
  above : ∀ n, c.task = .latest (some (.ok n)) → srv.now s ≤ deadline → seq ≤ n

theorem Asking.keeps {deadline : Nat} (h : Asking srv st seq deadline s c)
    (hkeeps : KeepsLatest srv st s s') : Asking srv st seq deadline s' c where
  store := h.store
  deadline_le := h.deadline_le.trans (Nat.add_le_add_right hkeeps.now_le _)
  covers := hkeeps.covers _ _ h.deadline_le h.covers
  task := h.task
  above n htask hnow := h.above n htask (hkeeps.now_le.trans hnow)

theorem Asking.turn {deadline : Nat} (h : Asking srv st seq deadline s c) (hhonest : srv.Honest)
    (hdurable : srv.Durable) (hkeeps : KeepsLatest srv st s s')
    (hcmd : c.task.command c.store = some cmd)
    (hserve : srv.serve s cmd choice = some (reply, s')) :
    Asking srv st seq deadline s' { c with task := c.task.resume reply } := by
  obtain ⟨answer, htask⟩ := h.task
  rw [h.store] at hcmd
  rw [htask] at hcmd ⊢
  refine ⟨h.store, h.deadline_le.trans (Nat.add_le_add_right hkeeps.now_le _),
    hkeeps.covers _ _ h.deadline_le h.covers, ⟨_, rfl⟩, fun n hn hnow => ?_⟩
  have hnow := hkeeps.now_le.trans hnow
  obtain ⟨v, e, hentry, hle, hv⟩ := h.covers hnow
  cases answer with
  | some r => cases hcmd
  | none =>
      cases hcmd
      cases reply with
      | bulk value =>
          obtain ⟨e', hfound⟩ := hhonest.get hserve
          obtain ⟨rfl, -⟩ := Prod.mk.inj (Option.some.inj (hentry.symm.trans hfound))
          rw [RedisTask.resume, RedisTask.resumeLatest, parseU64_decimal] at hn
          cases hn
          exact hv
      | nil =>
          have hget : srv.get s (st.key .latest) = some (decimal v) :=
            live_eq_some_iff.mpr ⟨e, hentry, hnow.trans hle⟩
          cases (hdurable.absent hserve).symm.trans hget
      | _ => cases hn

/-- Whatever else the calls do, as long as messages are written with rising numbers: once the
store of a number has returned, a question for the largest number that begins then and is
answered before the message would expire is answered with no less. -/
theorem latest_covers_stored (srv : RedisServer S E B) (hhonest : srv.Honest)
    (hdurable : srv.Durable) (st : RedisSeqStore) (hliteral : Literal st.keyPrefix)
    (W : UInt64 → Message → Prop) (sys sys' : RedisSystem S) (seq n : UInt64) (deadline : Nat)
    (c : RedisCall) (hrun : Run (step srv) (Ordered srv st W) (start srv) sys)
    (hstored : Stored st sys seq deadline)
    (hrun' : Run (step srv) (Ordered srv st W) (Service.opened (call srv) sys (st, .latest)) sys')
    (hget : sys'.calls[sys.calls.length]? = some c) (htask : c.task = .latest (some (.ok n)))
    (hnow : srv.now sys'.state ≤ deadline) : seq ≤ n := by
  have hsound := sound_rising hhonest hdurable hliteral W
  have hholds := hsound.run hrun (holds_start hhonest)
  obtain ⟨d, hd, hstore, ⟨msg, hdtask⟩, hdeadline⟩ := hstored
  have hok := hholds.2 d hd
  have hcovers := hok.announced (by rw [hstore])
  rw [hdtask] at hcovers
  have hfirst : Asking srv st seq deadline sys.state (call srv sys.state (st, .latest)) :=
    ⟨rfl, hdeadline.trans (Nat.add_le_add_right hok.begun_le _), Covers.mono hcovers hdeadline,
      ⟨_, rfl⟩, by rintro _ ⟨⟩⟩
  have hasking : Asking srv st seq deadline sys'.state c := by
    refine hsound.follow_opened hrun.good hholds hrun' hfirst (fun _ hkeeps h => h.keeps hkeeps)
      ?_ hget
    intro h c choice s' c' hP hmem _ _ hK hact
    obtain ⟨cmd, reply, hcmd, hserve, rfl⟩ := served_of_act hact
    exact hK.turn hhonest hdurable
      (keepsLatest_serve hhonest hdurable (hP.1.2 c hmem) hcmd hserve) hcmd hserve
  exact hasking.above n htask hnow

open RedisServer (memory memory_honest memory_durable)

/-- A message is stored, and the largest number is asked for. -/
theorem latest_covers_stored_delete :
    ∃ sys sys' c, Run (step memory) (Ordered memory sampleStore OnlyDelete) (start memory) sys ∧
      Run (step memory) (Ordered memory sampleStore OnlyDelete)
        (Service.opened (call memory) sys (sampleStore, .latest)) sys' ∧
      sys'.calls[sys.calls.length]? = some c ∧ c.task = .latest (some (.ok 1)) ∧
      (1 : UInt64) ≤ 1 := by
  have hexec : (exec (step memory) (Ordered memory sampleStore OnlyDelete) (start memory)
      deleteStored).map (fun sys => (sys.calls[0]?, sys.calls.length,
        decide (Ordered memory sampleStore OnlyDelete
          (Service.opened (call memory) sys (sampleStore, .latest))),
        (exec (step memory) (Ordered memory sampleStore OnlyDelete)
          (Service.opened (call memory) sys (sampleStore, .latest))
            [.turn 2 .answered]).map thirdInTime)) =
      some (some ⟨sampleStore, 0, .store 1 Message.sampleDelete (.returned (.ok ()))⟩, 2, true,
        some (some ⟨sampleStore, 1, .latest (some (.ok 1))⟩, true)) := by decide +kernel
  obtain ⟨sys, hrun, heq⟩ := exists_run_of_exec _ _ (by decide) hexec
  obtain ⟨hstored, hrest⟩ := Prod.mk.inj heq
  obtain ⟨hlength, hrest⟩ := Prod.mk.inj hrest
  obtain ⟨hopened, hread⟩ := Prod.mk.inj hrest
  obtain ⟨sys', hrun', heq'⟩ := exists_run_of_exec _ _ (of_decide_eq_true hopened) hread
  obtain ⟨hcall, hnow⟩ := Prod.mk.inj heq'
  rw [← hlength] at hcall
  have hwritten : Stored sampleStore sys 1 3600000 :=
    ⟨_, List.mem_of_getElem? hstored, rfl, ⟨_, rfl⟩, by decide⟩
  exact ⟨sys, sys', _, hrun, hrun', hcall, rfl,
    latest_covers_stored memory memory_honest memory_durable sampleStore (by decide) OnlyDelete sys
      sys' 1 1 3600000 _ hrun hwritten hrun' hcall rfl (of_decide_eq_true hnow)⟩

/-- A message is stored and, one and a half times its time later, once more. -/
def storedAgain : List (RedisAction Nat RedisOutcome) :=
  [.begin (sampleStore, .store 1 Message.sampleDelete), .turn 0 .answered, .turn 0 .answered,
    .turn 0 .answered, .move 5400000, .begin (sampleStore, .store 1 Message.sampleDelete),
    .turn 1 .answered, .turn 1 .answered, .turn 1 .answered, .move 2000000]

-- the message is read while the largest number is gone: 1 is not above the 1 announced
example : (exec (step memory) (Alike sampleStore OnlyDelete) (start memory) (storedAgain ++
    [.begin (sampleStore, .latest), .turn 2 .answered, .begin (sampleStore, .range 1 1),
      .turn 3 .answered])).map (fun sys => (sys.calls.drop 2).map RedisCall.task) =
    some [.latest (some (.ok 0)), .range 1 1 (.returned (.ok [(1, Message.sampleDelete)]))] := by
  decide +kernel

end RedisSystem

end Itch
