import Itch.Lib.Double
import Itch.Source.RedisKeys

/-!
# A server in memory

The laws of a server can be met, all of them together: by one that keeps its data in memory, takes
patterns of one kind and answers a scan with all keys at once.  A command may get lost on the way
to it, and so may a reply.
-/

namespace Itch

open Lib

/-- The data, with the time in milliseconds. -/
abbrev RedisDb := Expiring Bytes Bytes

/-- A text as a number of a script. -/
def tonumber (s : Bytes) : Option Nat :=
  (parseU64 s).map fun n => Double.round n.toNat

theorem tonumber_decimal (n : UInt64) : tonumber (decimal n) = some (Double.round n.toNat) := by
  rw [tonumber, parseU64_decimal, Option.map_some]

/-- Both texts are numbers, and the first is below the second. -/
def Below (cur value : Bytes) : Prop :=
  ∃ a b, tonumber cur = some a ∧ tonumber value = some b ∧ a < b

theorem lt_of_below {a b : UInt64} (h : Below (decimal a) (decimal b)) : a < b := by
  obtain ⟨x, y, hx, hy, hlt⟩ := h
  rw [tonumber_decimal] at hx hy
  obtain rfl := Option.some.inj hx
  obtain rfl := Option.some.inj hy
  exact Word64.lt_iff.mpr (Double.lt_of_round_lt hlt)

theorem below_of_lt {a b : UInt64} (h : a < b) (hb : b.toNat ≤ 2 ^ 53) :
    Below (decimal a) (decimal b) := by
  have hlt := Word64.lt_iff.mp h
  refine ⟨_, _, tonumber_decimal a, tonumber_decimal b, ?_⟩
  rw [Double.round_of_le (by omega), Double.round_of_le hb]
  exact hlt

namespace RedisDb

/-- `SET` refuses an entry that is to expire at once. -/
def setEx (db : RedisDb) (key value : Bytes) (secs : Nat) : Option RedisDb :=
  if secs = 0 then none else some (db.put key value (secs * 1000))

def raise (db : RedisDb) (key value : Bytes) (secs : Nat) : RedisReply × RedisDb :=
  let write :=
    match setEx db key value secs with
    | some db => (.integer 1, db)
    | none => (.error, db)
  match db.get key with
  | none => write
  | some cur =>
      match tonumber cur, tonumber value with
      | some a, some b => if a < b then write else (.integer 1, db)
      | _, _ => (.error, db)

/-- The pattern is a text and a star, and the key starts with the text. -/
def starts (pattern key : Bytes) : Bool :=
  pattern.getLast? = some star && pattern.dropLast.isPrefixOf key

def execute (db : RedisDb) : RedisCommand → RedisReply × RedisDb
  | .setEx key value secs =>
      match setEx db key value secs with
      | some db => (.ok, db)
      | none => (.error, db)
  | .raise key value secs => db.raise key value secs
  | .get key =>
      match db.get key with
      | some value => (.bulk value, db)
      | none => (.nil, db)
  | .scan _ pattern _ => (.scan 0 (db.keys.filter (starts pattern)), db)

/-- What a command does, with its reply. -/
inductive Runs (db : RedisDb) : RedisCommand → RedisReply → RedisDb → Prop where
  | refused {cmd : RedisCommand} : Runs db cmd .error db
  | set {key value : Bytes} {secs : Nat} :
      Runs db (.setEx key value secs) .ok (db.put key value (secs * 1000))
  | raised {key value : Bytes} {secs : Nat} :
      (∀ cur, db.get key = some cur → Below cur value) →
      Runs db (.raise key value secs) (.integer 1) (db.put key value (secs * 1000))
  | kept {key value cur : Bytes} {secs : Nat} : db.get key = some cur → ¬ Below cur value →
      Runs db (.raise key value secs) (.integer 1) db
  | found {key value : Bytes} : db.get key = some value → Runs db (.get key) (.bulk value) db
  | absent {key : Bytes} : db.get key = none → Runs db (.get key) .nil db
  | scanned {cursor count : Nat} {pattern : Bytes} :
      Runs db (.scan cursor pattern count) (.scan 0 (db.keys.filter (starts pattern))) db

variable {db db' : RedisDb} {cmd : RedisCommand} {reply : RedisReply}

theorem runs_write {key value : Bytes} {secs : Nat}
    (hbelow : ∀ cur, db.get key = some cur → Below cur value) :
    Runs db (.raise key value secs)
      (match setEx db key value secs with
        | some db' => (.integer 1, db')
        | none => (.error, db) : RedisReply × RedisDb).1
      (match setEx db key value secs with
        | some db' => (.integer 1, db')
        | none => (.error, db) : RedisReply × RedisDb).2 := by
  rw [setEx]
  by_cases hsecs : secs = 0
  · rw [if_pos hsecs]
    exact .refused
  · rw [if_neg hsecs]
    exact .raised hbelow

theorem runs_raise (key value : Bytes) (secs : Nat) :
    Runs db (.raise key value secs) (db.raise key value secs).1 (db.raise key value secs).2 := by
  rw [RedisDb.raise]
  cases hcur : db.get key with
  | none => exact runs_write fun cur h => absurd (hcur.symm.trans h) (Option.some_ne_none cur).symm
  | some cur =>
      dsimp only
      cases ha : tonumber cur with
      | none => exact .refused
      | some a =>
          cases hb : tonumber value with
          | none => exact .refused
          | some b =>
              dsimp only
              by_cases hlt : a < b
              · rw [if_pos hlt]
                refine runs_write fun cur' h => ?_
                obtain rfl := Option.some.inj (hcur.symm.trans h)
                exact ⟨a, b, ha, hb, hlt⟩
              · rw [if_neg hlt]
                refine .kept hcur ?_
                rintro ⟨a', b', ha', hb', hlt'⟩
                obtain rfl := Option.some.inj (ha.symm.trans ha')
                obtain rfl := Option.some.inj (hb.symm.trans hb')
                exact hlt hlt'

theorem runs_execute (cmd : RedisCommand) : Runs db cmd (db.execute cmd).1 (db.execute cmd).2 := by
  cases cmd with
  | setEx key value secs =>
      rw [execute, setEx]
      by_cases hsecs : secs = 0
      · rw [if_pos hsecs]
        exact .refused
      · rw [if_neg hsecs]
        exact .set
  | raise key value secs => exact runs_raise key value secs
  | get key =>
      rw [execute]
      cases hget : db.get key with
      | none => exact .absent hget
      | some value => exact .found hget
  | scan cursor pattern count => exact .scanned

/-- What a command leaves is what was there or what it writes. -/
theorem Runs.entry {key : Bytes} {e : Bytes × Nat} (h : Runs db cmd reply db')
    (hentry : db'.entries[key]? = some e) : db.entries[key]? = some e ∨
      ∃ value secs, cmd.write = some (key, value, secs) ∧ e = (value, db.now + secs * 1000) := by
  cases h with
  | set | raised =>
      rw [Expiring.entry_put] at hentry
      split at hentry
      next heq =>
        cases heq
        exact .inr ⟨_, _, rfl, (Option.some.inj hentry).symm⟩
      next => exact .inl hentry
  | refused => exact .inl hentry
  | kept => exact .inl hentry
  | found => exact .inl hentry
  | absent => exact .inl hentry
  | scanned => exact .inl hentry

theorem Runs.now (h : Runs db cmd reply db') : db'.now = db.now := by
  cases h <;> rfl

end RedisDb

/-- What becomes of a command on its way. -/
inductive RedisOutcome where
  | answered
  /-- The command does not reach the server. -/
  | refused
  /-- The reply does not reach the client. -/
  | lost
deriving Repr, DecidableEq

namespace RedisServer

open RedisDb

def memory : RedisServer RedisDb Nat RedisOutcome where
  start := .empty
  now := Expiring.now
  entry db key := db.entries[key]?
  move db ms := some (db.elapse ms)
  serve db cmd
    | .answered => some (db.execute cmd)
    | .refused => some (.error, db)
    | .lost => some (.error, (db.execute cmd).2)
  Glob pattern key := starts pattern key = true
  Less := Below
  Behind _ _ := False

variable {db db' : RedisDb} {cmd : RedisCommand} {reply : RedisReply} {outcome : RedisOutcome}

theorem runs_of_serve (h : memory.serve db cmd outcome = some (reply, db')) :
    ∃ ran, Runs db cmd ran db' ∧ (reply = ran ∨ reply = .error) := by
  have hexecute := @runs_execute db cmd
  cases outcome with
  | answered =>
      rw [Option.some.inj h] at hexecute
      exact ⟨reply, hexecute, .inl rfl⟩
  | refused =>
      cases h
      exact ⟨.error, .refused, .inl rfl⟩
  | lost =>
      cases h
      exact ⟨_, hexecute, .inr rfl⟩

/-- A command that is answered with something else than an error has run. -/
theorem runs_of_answer (h : memory.serve db cmd outcome = some (reply, db'))
    (hreply : reply ≠ .error) : Runs db cmd reply db' := by
  obtain ⟨ran, hruns, rfl | herror⟩ := runs_of_serve h
  · exact hruns
  · exact absurd herror hreply

theorem memory_honest : memory.Honest where
  start key := by simp [memory, Expiring.empty]
  move hmove hentry := by
    cases hmove
    exact hentry
  serve hserve hentry := by
    obtain ⟨ran, hruns, -⟩ := runs_of_serve hserve
    exact hruns.entry hentry
  get hserve := by
    cases runs_of_answer hserve (by rintro ⟨⟩) with
    | found hget =>
        obtain ⟨e, hentry, -⟩ := Expiring.get_eq_some_iff.mp hget
        exact ⟨e, hentry⟩
  scan hserve key hkey := by
    cases runs_of_answer hserve (by rintro ⟨⟩) with
    | scanned =>
        obtain ⟨hlive, hstarts⟩ := List.mem_filter.mp hkey
        obtain ⟨v, hget⟩ := Expiring.mem_keys_iff.mp hlive
        obtain ⟨e, hentry, -⟩ := Expiring.get_eq_some_iff.mp hget
        exact ⟨⟨_, hentry⟩, hstarts⟩
  glob _ := by
    simp [memory, starts, List.isPrefixOf_iff_prefix]

/-- An entry stays, or the command has put its value in its place. -/
theorem keeps_of_runs {key v : Bytes} {e : Nat} (h : Runs db cmd reply db')
    (hentry : db.entries[key]? = some (v, e)) (hlive : db.now ≤ e) :
    db'.entries[key]? = some (v, e) ∨ ∃ value secs, cmd.write = some (key, value, secs) ∧
      memory.Replaces v cmd ∧ db'.entries[key]? = some (value, db.now + secs * 1000) := by
  cases h with
  | @set written value secs =>
      by_cases heq : written = key
      · subst heq
        exact .inr ⟨value, secs, rfl, .setEx, by rw [Expiring.entry_put, if_pos rfl]⟩
      · exact .inl (by rw [Expiring.entry_put, if_neg heq, hentry])
  | @raised written value secs hbelow =>
      by_cases heq : written = key
      · subst heq
        have hless := hbelow v (Expiring.get_eq_some_iff.mpr ⟨e, hentry, hlive⟩)
        exact .inr ⟨value, secs, rfl, .raise hless, by rw [Expiring.entry_put, if_pos rfl]⟩
      · exact .inl (by rw [Expiring.entry_put, if_neg heq, hentry])
  | refused => exact .inl hentry
  | kept => exact .inl hentry
  | found => exact .inl hentry
  | absent => exact .inl hentry
  | scanned => exact .inl hentry

theorem memory_durable : memory.Durable where
  move_now hmove := by
    cases hmove
    exact Nat.le_add_right _ _
  serve_now hserve := by
    obtain ⟨ran, hruns, -⟩ := runs_of_serve hserve
    exact hruns.now
  move_keeps hmove hentry _ := by
    cases hmove
    exact hentry
  serve_keeps hserve hentry hlive := by
    obtain ⟨ran, hruns, -⟩ := runs_of_serve hserve
    exact keeps_of_runs hruns hentry hlive
  set hserve := by
    cases runs_of_answer hserve (by rintro ⟨⟩) with
    | set => exact Expiring.entry_put.trans (if_pos rfl)
  raise hserve := by
    cases runs_of_answer hserve (by rintro ⟨⟩) with
    | raised => exact .inl (Expiring.entry_put.trans (if_pos rfl))
    | kept hcur hnot => exact .inr ⟨_, hcur, hnot⟩
  absent hserve := by
    cases runs_of_answer hserve (by rintro ⟨⟩) with
    | absent hnone => exact hnone
  behind_zero _ := id
  scan hserve hget hglob _ := by
    cases runs_of_answer hserve (by rintro ⟨⟩) with
    | scanned => exact .inl (List.mem_filter.mpr ⟨Expiring.mem_keys_iff.mpr ⟨_, hget⟩, hglob⟩)
  lt_of_less := lt_of_below
  less_of_lt := below_of_lt

end RedisServer

end Itch
