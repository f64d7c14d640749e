import Itch.Source.Redis

/-!
# The keys of the Redis store

Two stores never write the same key unless they share their prefix, and the keys of one store
are all different.  That is not enough for the marks of the smallest number, which are looked
up by what they start with: a store whose prefix goes on where the marks of another one begin
is in the way (`floor_of_starts`).
-/

namespace Itch

open Lib

/-! ## Texts -/

/-- A text is cut at a colon: the cut is at the last one, or before it. -/
theorem cut_at_colon {a b x y : Bytes} (h : a ++ colon :: x = b ++ colon :: y) (hy : colon ∉ y) :
    a = b ∧ x = y ∨ ∃ t, b = a ++ colon :: t := by
  rcases List.append_eq_append_iff.mp h with ⟨t, rfl, ht⟩ | ⟨t, rfl, ht⟩
  · cases t with
    | nil =>
        obtain ⟨-, rfl⟩ := List.cons.inj ht
        exact .inl ⟨(List.append_nil a).symm, rfl⟩
    | cons b t =>
        obtain ⟨rfl, -⟩ := List.cons.inj ht
        exact .inr ⟨t, rfl⟩
  · cases t with
    | nil =>
        obtain ⟨-, rfl⟩ := List.cons.inj ht
        exact .inl ⟨List.append_nil b, rfl⟩
    | cons c t =>
        obtain ⟨-, rfl⟩ := List.cons.inj ht
        exact absurd (List.mem_append_right t List.mem_cons_self) hy

/-- Texts that are cut at their last colon. -/
theorem cut_at_last {a b x y : Bytes} (h : a ++ colon :: x = b ++ colon :: y) (hx : colon ∉ x)
    (hy : colon ∉ y) : a = b ∧ x = y := by
  rcases cut_at_colon h hy with heq | ⟨t, rfl⟩
  · exact heq
  · rcases cut_at_colon h.symm hx with heq | ⟨t', ht'⟩
    · exact ⟨heq.1.symm, heq.2.symm⟩
    · have hlen := congrArg List.length ht'
      simp only [List.length_append, List.length_cons] at hlen
      omega

theorem lastSegment_append {a x : Bytes} (hx : colon ∉ x) : lastSegment (a ++ colon :: x) = x := by
  have hall : ∀ b ∈ x.reverse, (decide (b ≠ colon)) = true := by
    intro b hb
    refine decide_eq_true ?_
    rintro rfl
    exact hx (List.mem_reverse.mp hb)
  rw [lastSegment, List.reverse_append, List.reverse_cons, List.append_assoc,
    List.takeWhile_append_of_pos hall]
  simp

theorem toNat_lt_digits (n : UInt64) : n.toNat < 10 ^ 20 :=
  n.toNat_lt.trans (by decide)

theorem isDigit_of_mem_decimal {n : UInt64} {b : UInt8} (h : b ∈ decimal n) :
    Decimal.isDigit b = true :=
  Decimal.isDigit_of_mem_digits b h

theorem colon_notMem_decimal (n : UInt64) : colon ∉ decimal n := by
  intro h
  exact absurd (isDigit_of_mem_decimal h) (by decide)

theorem withoutSign_decimal (n : UInt64) : withoutSign (decimal n) = decimal n := by
  unfold withoutSign
  split
  next digits hds =>
    have hdigit : Decimal.isDigit 0x2B = true :=
      isDigit_of_mem_decimal (n := n) (hds ▸ List.mem_cons_self)
    exact absurd hdigit (by decide)
  next => rfl

theorem parseU64_decimal (n : UInt64) : parseU64 (decimal n) = some n := by
  have hread : Decimal.read (2 ^ 64) 0 (decimal n) = .ok n.toNat :=
    Decimal.read_digits (toNat_lt_digits n) n.toNat_lt
  have hne : (decimal n).isEmpty = false :=
    List.isEmpty_eq_false_iff.mpr (Decimal.digits_ne_nil (toNat_lt_digits n))
  rw [parseU64, withoutSign_decimal, hne, hread]
  simp

theorem decimal_inj {n m : UInt64} (h : decimal n = decimal m) : n = m := by
  have hparse := congrArg parseU64 h
  rw [parseU64_decimal, parseU64_decimal] at hparse
  exact Option.some.inj hparse

/-! ## Keys -/

/-- The keys of a store. -/
inductive RedisKey where
  | msg (seq : UInt64)
  | latest
  | floor (seq : UInt64)
deriving DecidableEq

namespace RedisSeqStore

def key (s : RedisSeqStore) : RedisKey → Bytes
  | .msg seq => s.msgKey seq
  | .latest => s.latestKey
  | .floor seq => s.floorKey seq

/-- What the marks of the smallest number of a store and the keys of another one under them
start with. -/
def floorRoot (s : RedisSeqStore) : Bytes :=
  s.keyPrefix ++ [colon, 0x66, 0x6C, 0x6F, 0x6F, 0x72]

/-- What stands before the last colon of a key. -/
def stem (s : RedisSeqStore) : RedisKey → Bytes
  | .msg _ => s.keyPrefix ++ [colon, 0x6D, 0x73, 0x67]
  | .latest => s.keyPrefix
  | .floor _ => s.floorRoot

/-- What stands after the last colon of a key. -/
def leaf : RedisKey → Bytes
  | .msg seq => decimal seq
  | .latest => [0x6C, 0x61, 0x74, 0x65, 0x73, 0x74]
  | .floor seq => decimal seq

variable {s s' : RedisSeqStore} {k k' : RedisKey}

theorem key_eq (s : RedisSeqStore) (k : RedisKey) : s.key k = s.stem k ++ colon :: leaf k := by
  cases k with
  | msg seq => simp [key, stem, leaf, msgKey]
  | latest => simp [key, stem, leaf, latestKey]
  | floor seq => simp [key, stem, leaf, floorKey, floorPrefix, floorRoot]

theorem colon_notMem_leaf (k : RedisKey) : colon ∉ leaf k := by
  cases k with
  | msg seq => exact colon_notMem_decimal seq
  | latest => decide
  | floor seq => exact colon_notMem_decimal seq

theorem floorPrefix_eq (s : RedisSeqStore) : s.floorPrefix = s.floorRoot ++ [colon] := by
  simp [floorPrefix, floorRoot]

/-- A number is no name. -/
theorem decimal_ne_latest (n : UInt64) : decimal n ≠ [0x6C, 0x61, 0x74, 0x65, 0x73, 0x74] := by
  intro h
  have hdigit : Decimal.isDigit 0x6C = true :=
    isDigit_of_mem_decimal (n := n) (h ▸ List.mem_cons_self)
  exact absurd hdigit (by decide)

theorem stem_msg_eq {p p' : Bytes} (h : p ++ [colon, 0x6D, 0x73, 0x67] =
    p' ++ [colon, 0x6D, 0x73, 0x67]) : p = p' :=
  (cut_at_last h (by decide) (by decide)).1

theorem floorRoot_inj (h : s.floorRoot = s'.floorRoot) : s.keyPrefix = s'.keyPrefix :=
  (cut_at_last h (by decide) (by decide)).1

theorem floorRoot_ne_msg : s.floorRoot ≠ s'.keyPrefix ++ [colon, 0x6D, 0x73, 0x67] := by
  intro h
  exact absurd (cut_at_last h (by decide) (by decide)).2 (by decide)

/-- No key is written by two stores of different prefixes, or in two roles. -/
theorem key_inj (h : s.key k = s'.key k') : s.keyPrefix = s'.keyPrefix ∧ k = k' := by
  rw [key_eq, key_eq] at h
  obtain ⟨hstem, hleaf⟩ := cut_at_last h (colon_notMem_leaf k) (colon_notMem_leaf k')
  cases k with
  | msg n =>
      cases k' with
      | msg m => exact ⟨stem_msg_eq hstem, congrArg _ (decimal_inj hleaf)⟩
      | latest => exact absurd hleaf (decimal_ne_latest n)
      | floor m => exact absurd hstem.symm floorRoot_ne_msg
  | latest =>
      cases k' with
      | msg m => exact absurd hleaf.symm (decimal_ne_latest m)
      | latest => exact ⟨hstem, rfl⟩
      | floor m => exact absurd hleaf.symm (decimal_ne_latest m)
  | floor n =>
      cases k' with
      | msg m => exact absurd hstem floorRoot_ne_msg
      | latest => exact absurd hleaf (decimal_ne_latest n)
      | floor m => exact ⟨floorRoot_inj hstem, congrArg _ (decimal_inj hleaf)⟩

/-- The marks of a store are not above it. -/
theorem not_floorRoot_le (s : RedisSeqStore) : ¬ s.floorRoot <+: s.keyPrefix := by
  intro h
  have hlen := h.length_le
  rw [floorRoot, List.length_append] at hlen
  simp at hlen

theorem floorRoot_le_of_stem {t : Bytes} (h : s'.stem k = s.floorRoot ++ colon :: t) :
    s.floorRoot <+: s'.keyPrefix := by
  -- the colon in front of the tag is no earlier than the one behind the root
  have hcut : ∀ tag : Bytes, colon ∉ tag → s'.keyPrefix ++ colon :: tag = s.floorRoot ++ colon :: t →
      s.floorRoot <+: s'.keyPrefix := by
    intro tag htag heq
    rcases cut_at_colon heq.symm htag with ⟨hroot, -⟩ | ⟨t', hpre⟩
    · exact hroot ▸ List.prefix_rfl
    · exact ⟨colon :: t', hpre.symm⟩
  cases k with
  | msg n => exact hcut _ (by decide) h
  | latest => exact ⟨colon :: t, h.symm⟩
  | floor n => exact hcut _ (by decide) h

/-- A key that starts as the marks of a store do is one of them, or its own store lies under
the marks. -/
theorem floor_of_starts (h : s.floorPrefix <+: s'.key k) :
    (s.keyPrefix = s'.keyPrefix ∧ ∃ seq, k = .floor seq) ∨ s.floorRoot <+: s'.keyPrefix := by
  obtain ⟨rest, hrest⟩ := h
  rw [floorPrefix_eq, List.append_assoc, List.singleton_append, key_eq] at hrest
  rcases cut_at_colon hrest (colon_notMem_leaf k) with ⟨hroot, -⟩ | ⟨t, hstem⟩
  · cases k with
    | msg n => exact absurd hroot floorRoot_ne_msg
    | latest => exact .inr (hroot ▸ List.prefix_rfl)
    | floor n => exact .inl ⟨floorRoot_inj hroot, n, rfl⟩
  · exact .inr (floorRoot_le_of_stem hstem)

/-- If the prefix has no special character, the pattern is for the marks alone. -/
theorem literal_floorPrefix (h : Literal s.keyPrefix) : Literal s.floorPrefix := by
  have htag : Literal [colon, 0x66, 0x6C, 0x6F, 0x6F, 0x72, colon] := by decide
  intro b hb
  rcases List.mem_append.mp hb with hpre | hlast
  · exact h b hpre
  · exact htag b hlast

theorem lastSegment_floorKey (s : RedisSeqStore) (seq : UInt64) :
    lastSegment (s.floorKey seq) = decimal seq := by
  have hkey : s.floorKey seq = s.stem (.floor seq) ++ colon :: decimal seq := s.key_eq (.floor seq)
  rw [hkey, lastSegment_append (colon_notMem_decimal seq)]

end RedisSeqStore

/-! ## What a call writes -/

/-- What a call of the store writes next: the key, the value and how long it is kept. -/
inductive Writes (s : RedisSeqStore) : RedisTask → RedisKey → Bytes → Nat → Prop where
  | message {seq : UInt64} {msg : Message} {buf : Bytes} :
      Writes s (.store seq msg (.setMsg buf)) (.msg seq) buf s.ttlSecs
  | latest {seq : UInt64} {msg : Message} :
      Writes s (.store seq msg .raiseLatest) .latest (decimal seq) (s.ttlSecs * 2)
  | floor {seq : UInt64} {msg : Message} :
      Writes s (.store seq msg .setFloor) (.floor seq) [0x31] s.ttlSecs

theorem writes_of_command {s : RedisSeqStore} {task : RedisTask} {cmd : RedisCommand}
    {key value : Bytes} {secs : Nat} (hcmd : task.command s = some cmd)
    (hwrite : cmd.write = some (key, value, secs)) :
    ∃ k, key = s.key k ∧ Writes s task k value secs := by
  cases task with
  | store seq msg stage =>
      cases stage with
      | setMsg buf =>
          cases hcmd
          cases hwrite
          exact ⟨.msg seq, rfl, .message⟩
      | raiseLatest =>
          cases hcmd
          cases hwrite
          exact ⟨.latest, rfl, .latest⟩
      | setFloor =>
          cases hcmd
          cases hwrite
          exact ⟨.floor seq, rfl, .floor⟩
      | returned r => cases hcmd
  | range start count stage =>
      cases stage with
      | fetch result =>
          cases hcmd
          cases hwrite
      | returned r => cases hcmd
  | latest answer =>
      cases answer with
      | none =>
          cases hcmd
          cases hwrite
      | some r => cases hcmd
  | earliest stage =>
      cases stage with
      | scan cursor n =>
          cases hcmd
          cases hwrite
      | returned r => cases hcmd

end Itch
