import Itch.Lib.Decimal
import Itch.Lib.Expiring
import Itch.Lib.Service
import Itch.Lib.Word64
import Itch.Protocol.RoundTrip

/-!
# The Redis store

Messages under keys of a server that several stores may share, each for a limited time.  Every
operation is a sequence of commands, and the commands of different calls take turns: a store
writes the message, then raises the largest number, then leaves a mark from which the smallest
number is found.

The server is not part of the program.  It is a parameter (`RedisServer`), and what the results
need of it are named laws.  `Honest` says that it makes nothing up; it may lose entries, commands
and replies at any time.  `Durable` says that it does not lose an entry before its time.  The
client library reports a command or a reply that was lost as an error, and the call gives up.
-/

namespace Itch

open Lib

/-- Errors of the store; what the client library reports is one case. -/
inductive RedisSeqStoreError where
  | redis
  | encode (e : ProtocolError)
  | decode (e : ProtocolError)
deriving Repr, DecidableEq

/-! ## Texts -/

def colon : UInt8 := 0x3A

/-- A number in decimal. -/
def decimal (n : UInt64) : Bytes :=
  Decimal.digits 20 n.toNat

/-- A number text without its sign. -/
def withoutSign : Bytes → Bytes
  | 0x2B :: digits => digits
  | digits => digits

/-- `str::parse::<u64>` -/
def parseU64 (s : Bytes) : Option UInt64 :=
  if (withoutSign s).isEmpty then none
  else
    match Decimal.read (2 ^ 64) 0 (withoutSign s) with
    | .ok n => some (UInt64.ofNat n)
    | .error _ => none

def star : UInt8 := 0x2A

/-- The text has none of the characters that are special in a pattern: `*`, `?`, `[` and the
backslash. -/
def Literal (text : Bytes) : Prop :=
  ∀ b ∈ text, b ∉ [star, 0x3F, 0x5B, 0x5C]

instance (text : Bytes) : Decidable (Literal text) :=
  List.decidableBAll (· ∉ [star, 0x3F, 0x5B, 0x5C]) text

/-- `rsplit(':').next()` -/
def lastSegment (key : Bytes) : Bytes :=
  (key.reverse.takeWhile (· ≠ colon)).reverse

/-! ## The server -/

inductive RedisCommand where
  /-- `SET key value EX secs` -/
  | setEx (key value : Bytes) (secs : Nat)
  /-- `EVAL` of the script that writes the number unless there is one that is no smaller. -/
  | raise (key value : Bytes) (secs : Nat)
  | get (key : Bytes)
  /-- `SCAN cursor MATCH pattern COUNT count` -/
  | scan (cursor : Nat) (pattern : Bytes) (count : Nat)
deriving Repr, DecidableEq

inductive RedisReply where
  | ok
  | nil
  | bulk (value : Bytes)
  | integer (n : Int)
  | scan (cursor : Nat) (keys : List Bytes)
  | error
deriving Repr, DecidableEq

/-- What a command asks to be written: the key, the value and how many seconds it is to be
kept. -/
def RedisCommand.write : RedisCommand → Option (Bytes × Bytes × Nat)
  | .setEx key value secs => some (key, value, secs)
  | .raise key value secs => some (key, value, secs)
  | .get _ => none
  | .scan _ _ _ => none

/-- A server, with its states, what may happen to it by itself and what may become of a
command. -/
structure RedisServer (S E B : Type) where
  /-- The state before the first command. -/
  start : S
  /-- The time in milliseconds. -/
  now : S → Nat
  /-- The value under a key, and the last moment at which it is to be there. -/
  entry : S → Bytes → Option (Bytes × Nat)
  /-- What happens by itself. -/
  move : S → E → Option S
  /-- What the client library reports for a command, and the state after it. -/
  serve : S → RedisCommand → B → Option (RedisReply × S)
  /-- The key matches the pattern. -/
  Glob : (pattern key : Bytes) → Prop
  /-- `tonumber(a) < tonumber(b)` in a script. -/
  Less : (a b : Bytes) → Prop
  /-- A scan that has come to the cursor has the key behind it. -/
  Behind : (cursor : Nat) → (key : Bytes) → Prop

namespace RedisServer

variable {S E B : Type}

/-- The value that is there under a key. -/
def get (srv : RedisServer S E B) (s : S) (key : Bytes) : Option Bytes :=
  live (srv.now s) (srv.entry s key)

/-- A command may put its value in the place of another one.  The script does so if its number
is the larger one. -/
inductive Replaces (srv : RedisServer S E B) (old : Bytes) : RedisCommand → Prop where
  | setEx {key value : Bytes} {secs : Nat} : Replaces srv old (.setEx key value secs)
  | raise {key value : Bytes} {secs : Nat} : srv.Less old value →
      Replaces srv old (.raise key value secs)

/-- The server makes nothing up.  It may forget an entry at any time, and any command may end
with an error, whether it was run or not. -/
structure Honest (srv : RedisServer S E B) : Prop where
  /-- It is empty at first. -/
  start : ∀ key, srv.entry srv.start key = none
  /-- Nothing appears by itself. -/
  move : ∀ {s event s' key e}, srv.move s event = some s' → srv.entry s' key = some e →
    srv.entry s key = some e
  /-- A command writes only what it says. -/
  serve : ∀ {s cmd choice reply s' key e}, srv.serve s cmd choice = some (reply, s') →
    srv.entry s' key = some e → srv.entry s key = some e ∨
      ∃ value secs, cmd.write = some (key, value, secs) ∧ e = (value, srv.now s + secs * 1000)
  /-- `GET` returns the value of the key. -/
  get : ∀ {s key choice value s'}, srv.serve s (.get key) choice = some (.bulk value, s') →
    ∃ e, srv.entry s key = some (value, e)
  /-- `SCAN` returns keys that have a value and match the pattern. -/
  scan : ∀ {s cursor pattern count choice next keys s'},
    srv.serve s (.scan cursor pattern count) choice = some (.scan next keys, s') →
    ∀ key ∈ keys, (∃ e, srv.entry s key = some e) ∧ srv.Glob pattern key
  /-- A text and a star match what starts with the text. -/
  glob : ∀ {text key}, Literal text → (srv.Glob (text ++ [star]) key ↔ text <+: key)

/-- The server keeps an entry until its time is over, has run what it confirms, and does not pass
over a key that is there. -/
structure Durable (srv : RedisServer S E B) : Prop where
  move_now : ∀ {s event s'}, srv.move s event = some s' → srv.now s ≤ srv.now s'
  /-- A command is run at one moment. -/
  serve_now : ∀ {s cmd choice reply s'}, srv.serve s cmd choice = some (reply, s') →
    srv.now s' = srv.now s
  move_keeps : ∀ {s event s' key v e}, srv.move s event = some s' →
    srv.entry s key = some (v, e) → srv.now s' ≤ e → srv.entry s' key = some (v, e)
  /-- A command leaves an entry as it is or puts its own value there. -/
  serve_keeps : ∀ {s cmd choice reply s' key v e}, srv.serve s cmd choice = some (reply, s') →
    srv.entry s key = some (v, e) → srv.now s ≤ e → srv.entry s' key = some (v, e) ∨
      ∃ value secs, cmd.write = some (key, value, secs) ∧ srv.Replaces v cmd ∧
        srv.entry s' key = some (value, srv.now s + secs * 1000)
  /-- `SET` writes. -/
  set : ∀ {s key value secs choice s'},
    srv.serve s (.setEx key value secs) choice = some (.ok, s') →
    srv.entry s' key = some (value, srv.now s + secs * 1000)
  /-- The script writes unless it finds a number that is no smaller. -/
  raise : ∀ {s key value secs choice n s'},
    srv.serve s (.raise key value secs) choice = some (.integer n, s') →
    srv.entry s' key = some (value, srv.now s + secs * 1000) ∨
      ∃ cur, srv.get s key = some cur ∧ ¬ srv.Less cur value
  /-- `GET` reports as absent what is absent. -/
  absent : ∀ {s key choice s'}, srv.serve s (.get key) choice = some (.nil, s') →
    srv.get s key = none
  /-- A scan starts with nothing behind it, -/
  behind_zero : ∀ key, ¬ srv.Behind 0 key
  /-- and a key that is there is returned before it is behind.  The end has all behind it. -/
  scan : ∀ {s cursor pattern count choice next keys s' key v},
    srv.serve s (.scan cursor pattern count) choice = some (.scan next keys, s') →
    srv.get s key = some v → srv.Glob pattern key → ¬ srv.Behind cursor key →
    key ∈ keys ∨ (next ≠ 0 ∧ ¬ srv.Behind next key)
  /-- The numbers of a script are doubles.  They are never in the wrong order, -/
  lt_of_less : ∀ {a b : UInt64}, srv.Less (decimal a) (decimal b) → a < b
  /-- and up to `2 ^ 53` different numbers are told apart. -/
  less_of_lt : ∀ {a b : UInt64}, a < b → b.toNat ≤ 2 ^ 53 → srv.Less (decimal a) (decimal b)

end RedisServer

/-! ## The calls -/

structure RedisSeqStore where
  keyPrefix : Bytes
  ttlSecs : Nat
deriving Repr, DecidableEq

namespace RedisSeqStore

variable (s : RedisSeqStore)

def msgKey (seq : UInt64) : Bytes :=
  s.keyPrefix ++ [colon, 0x6D, 0x73, 0x67, colon] ++ decimal seq

def latestKey : Bytes :=
  s.keyPrefix ++ [colon, 0x6C, 0x61, 0x74, 0x65, 0x73, 0x74]

/-- What the marks of the smallest number start with. -/
def floorPrefix : Bytes :=
  s.keyPrefix ++ [colon, 0x66, 0x6C, 0x6F, 0x6F, 0x72, colon]

def floorKey (seq : UInt64) : Bytes :=
  s.floorPrefix ++ decimal seq

/-- The pattern of all marks, `…:floor:*`. -/
def floorPattern : Bytes :=
  s.floorPrefix ++ [star]

end RedisSeqStore

inductive RedisRequest where
  | store (seq : UInt64) (msg : Message)
  | range (start : UInt64) (count : Nat)
  | latest
  | earliest
deriving Repr, DecidableEq

/-- Where a store is: the command it will send next, or what it has returned. -/
inductive StoreStage where
  | setMsg (buf : Bytes)
  | raiseLatest
  | setFloor
  | returned (r : Except RedisSeqStoreError Unit)
deriving Repr, DecidableEq

inductive RangeStage where
  | fetch (result : List (UInt64 × Message))
  | returned (r : Except RedisSeqStoreError (List (UInt64 × Message)))
deriving Repr, DecidableEq

inductive ScanStage where
  | scan (cursor : Nat) (earliest : UInt64)
  | returned (r : Except RedisSeqStoreError UInt64)
deriving Repr, DecidableEq

/-- A request with how far it has come. -/
inductive RedisTask where
  | store (seq : UInt64) (msg : Message) (stage : StoreStage)
  | range (start : UInt64) (count : Nat) (stage : RangeStage)
  | latest (answer : Option (Except RedisSeqStoreError UInt64))
  | earliest (stage : ScanStage)
deriving Repr, DecidableEq

namespace RedisTask

/-- The call up to its first command. -/
def start : RedisRequest → RedisTask
  | .store seq msg =>
      match msg.encode (List.replicate msg.encodedLen 0) with
      | .error e => .store seq msg (.returned (.error (.encode e)))
      | .ok (_, buf) => .store seq msg (.setMsg buf)
  | .range start count =>
      .range start count (if count = 0 then .returned (.ok []) else .fetch [])
  | .latest => .latest none
  | .earliest => .earliest (.scan 0 Word64.max)

/-- The command the call sends next. -/
def command (s : RedisSeqStore) : RedisTask → Option RedisCommand
  | .store seq _ (.setMsg buf) => some (.setEx (s.msgKey seq) buf s.ttlSecs)
  | .store seq _ .raiseLatest => some (.raise s.latestKey (decimal seq) (s.ttlSecs * 2))
  | .store seq _ .setFloor => some (.setEx (s.floorKey seq) [0x31] s.ttlSecs)
  | .range start _ (.fetch result) => some (.get (s.msgKey (start + UInt64.ofNat result.length)))
  | .latest none => some (.get s.latestKey)
  | .earliest (.scan cursor _) => some (.scan cursor s.floorPattern 100)
  | _ => none

/-- The loop of `earliest` over the keys of a reply. -/
def lowest (keys : List Bytes) (seq : UInt64) : UInt64 :=
  keys.foldl (fun seq key =>
    match parseU64 (lastSegment key) with
    | some found => min seq found
    | none => seq) seq

def resumeStore : StoreStage → RedisReply → StoreStage
  | .setMsg _, .ok => .raiseLatest
  | .raiseLatest, .integer _ => .setFloor
  | .setFloor, .ok => .returned (.ok ())
  | .returned r, _ => .returned r
  | _, _ => .returned (.error .redis)

def resumeRange (start : UInt64) (count : Nat) : RangeStage → RedisReply → RangeStage
  | .fetch result, .bulk bytes =>
      match Message.decode bytes with
      | .error e => .returned (.error (.decode e))
      | .ok msg =>
          let result := result ++ [(start + UInt64.ofNat result.length, msg)]
          if result.length < count then .fetch result else .returned (.ok result)
  -- stop at the first gap
  | .fetch result, .nil => .returned (.ok result)
  | .returned r, _ => .returned r
  | _, _ => .returned (.error .redis)

def resumeLatest : Option (Except RedisSeqStoreError UInt64) → RedisReply →
    Except RedisSeqStoreError UInt64
  | some r, _ => r
  | none, .bulk value => (parseU64 value).elim (.error .redis) .ok
  | none, .nil => .ok 0
  | none, _ => .error .redis

def resumeEarliest : ScanStage → RedisReply → ScanStage
  | .scan _ seq, .scan cursor keys =>
      let seq := lowest keys seq
      if cursor = 0 then .returned (.ok (if seq = Word64.max then 0 else seq))
      else .scan cursor seq
  | .returned r, _ => .returned r
  | _, _ => .returned (.error .redis)

/-- The call after a reply. -/
def resume : RedisTask → RedisReply → RedisTask
  | .store seq msg stage, reply => .store seq msg (resumeStore stage reply)
  | .range start count stage, reply => .range start count (resumeRange start count stage reply)
  | .latest answer, reply => .latest (some (resumeLatest answer reply))
  | .earliest stage, reply => .earliest (resumeEarliest stage reply)

end RedisTask

/-- A call of a store, with the time when it began. -/
structure RedisCall where
  store : RedisSeqStore
  begun : Nat
  task : RedisTask
deriving Repr, DecidableEq

/-! ## The system -/

abbrev RedisSystem (S : Type) := Service S RedisCall

abbrev RedisAction (E B : Type) := ServiceAction E (RedisSeqStore × RedisRequest) B

namespace RedisSystem

variable {S E B : Type} (srv : RedisServer S E B)

/-- A call begins. -/
def call (s : S) (request : RedisSeqStore × RedisRequest) : RedisCall where
  store := request.1
  begun := srv.now s
  task := .start request.2

/-- A command of a call. -/
def act (s : S) (c : RedisCall) (choice : B) : Option (S × RedisCall) :=
  (c.task.command c.store).bind fun cmd =>
    (srv.serve s cmd choice).map fun r => (r.2, { c with task := c.task.resume r.1 })

def step : RedisSystem S → RedisAction E B → Option (RedisSystem S) :=
  Service.step srv.move (call srv) (act srv)

def start : RedisSystem S where
  state := srv.start
  calls := []

variable {srv} {s s' : S} {c c' : RedisCall} {choice : B}

/-- A command of a call, with its reply. -/
theorem served_of_act (h : act srv s c choice = some (s', c')) :
    ∃ cmd reply, c.task.command c.store = some cmd ∧
      srv.serve s cmd choice = some (reply, s') ∧
      c' = { c with task := c.task.resume reply } := by
  obtain ⟨cmd, hcmd, hsent⟩ := Option.bind_eq_some_iff.mp h
  obtain ⟨⟨reply, s''⟩, hserve, heq⟩ := Option.map_eq_some_iff.mp hsent
  obtain ⟨rfl, rfl⟩ := Prod.mk.inj heq
  exact ⟨cmd, reply, hcmd, hserve, rfl⟩

end RedisSystem

end Itch
