import Mathlib.Tactic

/-!
# Readers

A reader is asked for at most so many bytes and answers with some of them, with none at the
end of its input, or with an error.  What follows an answer is up to the reader: a short
answer is not the end, and an error need not be the last one.

`Serves` describes the readers that hand out a given string in pieces, however they cut it.
`Logged` keeps a record of the answers of any reader.
-/

namespace Lib

variable {ε R : Type}

class Read (ε : outParam Type) (R : Type) where
  /-- Up to a number of bytes, or an error, and the reader after it. -/
  read : R → Nat → Except ε (List UInt8) × R
  length_le : ∀ {r n bytes r'}, read r n = (.ok bytes, r') → bytes.length ≤ n

/-! ## Readers of a string -/

/-- `S r bytes` says that the reader has `bytes` left: it hands them out in pieces that are
not empty, and ends after them. -/
structure Serves [Read ε R] (S : R → List UInt8 → Prop) : Prop where
  read : ∀ {r bytes n}, S r bytes → 0 < n → ∃ piece rest r',
    Read.read r n = (.ok piece, r') ∧ bytes = piece ++ rest ∧ (bytes ≠ [] → piece ≠ []) ∧ S r' rest

/-- What a reader has left is determined by the reader. -/
theorem Serves.unique [Read ε R] {S : R → List UInt8 → Prop} (hS : Serves S) {r : R}
    {bytes bytes' : List UInt8} (h : S r bytes) (h' : S r bytes') : bytes = bytes' := by
  -- every answer takes from both, unless both are empty
  induction hn : bytes.length using Nat.strongRecOn generalizing r bytes bytes' with
  | _ n ih =>
      obtain ⟨piece, rest, r₁, hread, rfl, hpiece, hrest⟩ := hS.read h Nat.one_pos
      obtain ⟨piece', rest', r₂, hread', rfl, hpiece', hrest'⟩ := hS.read h' Nat.one_pos
      cases hread.symm.trans hread'
      by_cases hnil : piece = []
      · have hleft : piece ++ rest = [] := not_not.mp fun hne => hpiece hne hnil
        have hleft' : piece ++ rest' = [] := not_not.mp fun hne => hpiece' hne hnil
        rw [hleft, hleft']
      · have hpos := List.length_pos_iff.mpr hnil
        rw [List.length_append] at hn
        rw [ih rest.length (by omega) hrest hrest' rfl]

/-- A string that is cut into pieces of given sizes; a size of `0` counts as `1`, and what is
left when the sizes are used up comes in one piece. -/
structure Pieces where
  bytes : List UInt8
  sizes : List Nat
deriving Repr, DecidableEq

namespace Pieces

/-- The size of the next piece, for a request of `n` bytes. -/
def size (p : Pieces) (n : Nat) : Nat :=
  match p.sizes with
  | [] => n
  | k :: _ => min n (max k 1)

instance : Read String Pieces where
  read p n := (.ok (p.bytes.take (p.size n)), { bytes := p.bytes.drop (p.size n), sizes := p.sizes.tail })
  length_le := by
    rintro p n bytes p' h
    cases h
    have hsize : p.size n ≤ n := by
      unfold size
      split
      next => exact le_rfl
      next => exact Nat.min_le_left _ _
    exact (List.length_take_le _ _).trans hsize

theorem serves : Serves fun (p : Pieces) bytes => p.bytes = bytes where
  read := by
    rintro p _ n rfl hn
    refine ⟨_, _, _, rfl, (List.take_append_drop _ _).symm, fun hne hnil => ?_, rfl⟩
    have hpos : 0 < p.size n := by
      unfold size
      split
      next => exact hn
      next => exact lt_min hn (Nat.lt_of_lt_of_le Nat.one_pos (Nat.le_max_right _ _))
    rcases List.take_eq_nil_iff.mp hnil with hzero | hempty
    · omega
    · exact hne hempty

end Pieces

/-! ## Logs -/

/-- A request and how many bytes came. -/
abbrev Answer (ε : Type) := Nat × Except ε Nat

/-- A reader with its answers so far, oldest first. -/
structure Logged (ε R : Type) where
  reader : R
  log : List (Answer ε)

instance [Read ε R] : Read ε (Logged ε R) where
  read l n :=
    let (result, reader) := Read.read l.reader n
    (result, { reader := reader, log := l.log ++ [(n, result.map List.length)] })
  length_le := by
    rintro l n bytes l' h
    have hresult : (Read.read l.reader n).1 = .ok bytes := congrArg Prod.fst h
    have hread : Read.read l.reader n = (.ok bytes, (Read.read l.reader n).2) :=
      Prod.ext hresult rfl
    exact Read.length_le hread

/-- The bytes handed out. -/
def handed (log : List (Answer ε)) : Nat :=
  (log.map fun a => a.2.toOption.getD 0).sum

/-- A request that was answered in part. -/
def Short (a : Answer ε) : Prop :=
  ∃ got, a.2 = .ok got ∧ 0 < got ∧ got < a.1

/-- A request was answered in part, and the next one failed. -/
def FailsMidway (log : List (Answer ε)) : Prop :=
  ∃ before a b after e, log = before ++ a :: b :: after ∧ Short a ∧ b.2 = .error e

section Logs

variable {log log' : List (Answer ε)} {a : Answer ε}

@[simp] theorem handed_concat : handed (log ++ [a]) = handed log + a.2.toOption.getD 0 := by
  simp [handed]

theorem handed_mono (h : log <+: log') : handed log ≤ handed log' := by
  obtain ⟨rest, rfl⟩ := h
  simp [handed]

theorem FailsMidway.mono (h : log <+: log') (hlog : FailsMidway log) : FailsMidway log' := by
  obtain ⟨rest, rfl⟩ := h
  obtain ⟨before, a, b, after, e, rfl, hshort, hb⟩ := hlog
  exact ⟨before, a, b, after ++ rest, e, by simp, hshort, hb⟩

theorem not_failsMidway_nil : ¬ FailsMidway ([] : List (Answer ε)) := by
  rintro ⟨before, a, b, after, e, hlog, -⟩
  simp at hlog

/-- One more answer is a failure midway if it is an error and the last one was in part. -/
theorem failsMidway_concat_iff : FailsMidway (log ++ [a]) ↔
    FailsMidway log ∨ ∃ e, a.2 = .error e ∧ ∃ b ∈ log.getLast?, Short b := by
  constructor
  · rintro ⟨before, b, c, after, e, hlog, hshort, hc⟩
    rcases List.eq_nil_or_concat after with rfl | ⟨after, d, rfl⟩
    · have hcut : log ++ [a] = (before ++ [b]) ++ [c] := by simpa using hlog
      obtain ⟨rfl, hlast⟩ := List.append_inj' hcut rfl
      cases hlast
      exact .inr ⟨e, hc, b, by simp, hshort⟩
    · have hcut : log ++ [a] = (before ++ b :: c :: after) ++ [d] := by simpa using hlog
      obtain ⟨rfl, -⟩ := List.append_inj' hcut rfl
      exact .inl ⟨before, b, c, after, e, rfl, hshort, hc⟩
  · rintro (h | ⟨e, ha, b, hb, hshort⟩)
    · exact h.mono (List.prefix_append _ _)
    · obtain ⟨before, rfl⟩ := List.getLast?_eq_some_iff.mp hb
      exact ⟨before, b, a, [], e, by simp, hshort, ha⟩

end Logs

end Lib
