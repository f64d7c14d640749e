import Mathlib.Tactic

/-!
# Text as UTF-8 bytes

A string is the list of its UTF-8 bytes.  `lossy` replaces what is not UTF-8 by the
replacement character, one for each maximal ill-formed part; `trim` takes white space off
both ends; `trimSpaces` takes only spaces off.
-/

namespace Lib

namespace Text

/-- How many of the `want` continuation bytes of a scalar are there.  The range of the
first one depends on the lead byte. -/
def continuation : Nat → UInt8 → UInt8 → List UInt8 → Nat
  | 0, _, _, _ => 0
  | _, _, _, [] => 0
  | want + 1, lo, hi, b :: bs =>
      if lo ≤ b ∧ b ≤ hi then continuation want 0x80 0xBF bs + 1 else 0

/-- The number of continuation bytes a lead byte wants, with the range of the first. -/
def lead (b : UInt8) : Option (Nat × UInt8 × UInt8) :=
  if b < 0x80 then some (0, 0x80, 0xBF)
  else if 0xC2 ≤ b ∧ b ≤ 0xDF then some (1, 0x80, 0xBF)
  else if b = 0xE0 then some (2, 0xA0, 0xBF)
  else if b = 0xED then some (2, 0x80, 0x9F)
  else if 0xE1 ≤ b ∧ b ≤ 0xEF then some (2, 0x80, 0xBF)
  else if b = 0xF0 then some (3, 0x90, 0xBF)
  else if 0xF1 ≤ b ∧ b ≤ 0xF3 then some (3, 0x80, 0xBF)
  else if b = 0xF4 then some (3, 0x80, 0x8F)
  else none

/-- The loop of `lossy`.  Every turn takes at least one byte. -/
def lossyLoop : Nat → List UInt8 → List UInt8
  | 0, _ => []
  | _, [] => []
  | fuel + 1, b :: bs =>
      match lead b with
      | none => [0xEF, 0xBF, 0xBD] ++ lossyLoop fuel bs
      | some (want, lo, hi) =>
          let n := continuation want lo hi bs
          (if n = want then b :: bs.take n else [0xEF, 0xBF, 0xBD]) ++ lossyLoop fuel (bs.drop n)

def lossy (s : List UInt8) : List UInt8 :=
  lossyLoop s.length s

/-- The encodings of the white-space characters. -/
def whitespace : List (List UInt8) :=
  [[0x09], [0x0A], [0x0B], [0x0C], [0x0D], [0x20], [0xC2, 0x85], [0xC2, 0xA0],
   [0xE1, 0x9A, 0x80], [0xE2, 0x80, 0x80], [0xE2, 0x80, 0x81], [0xE2, 0x80, 0x82],
   [0xE2, 0x80, 0x83], [0xE2, 0x80, 0x84], [0xE2, 0x80, 0x85], [0xE2, 0x80, 0x86],
   [0xE2, 0x80, 0x87], [0xE2, 0x80, 0x88], [0xE2, 0x80, 0x89], [0xE2, 0x80, 0x8A],
   [0xE2, 0x80, 0xA8], [0xE2, 0x80, 0xA9], [0xE2, 0x80, 0xAF], [0xE2, 0x81, 0x9F],
   [0xE3, 0x80, 0x80]]

/-- Take the words of a list off the front, as often as there is one. -/
def stripLoop (words : List (List UInt8)) : Nat → List UInt8 → List UInt8
  | 0, s => s
  | fuel + 1, s =>
      match words.find? (·.isPrefixOf s) with
      | some w => stripLoop words fuel (s.drop w.length)
      | none => s

def trim (s : List UInt8) : List UInt8 :=
  let front := stripLoop whitespace s.length s
  (stripLoop (whitespace.map List.reverse) front.length front.reverse).reverse

def trimSpaces (s : List UInt8) : List UInt8 :=
  ((s.dropWhile (· = 0x20)).reverse.dropWhile (· = 0x20)).reverse

/-- The text has no space at either end. -/
def Trimmed (s : List UInt8) : Prop :=
  s.head? ≠ some 0x20 ∧ s.getLast? ≠ some 0x20

theorem dropWhile_pad {s : List UInt8} (h : s.head? ≠ some 0x20) (n : Nat) :
    (List.replicate n 0x20 ++ s).dropWhile (· = 0x20) = s := by
  rw [List.dropWhile_append_of_pos]
  · cases s with
    | nil => rfl
    | cons b bs =>
        rw [List.dropWhile_cons_of_neg]
        simpa using h
  · intro b hb
    simpa using List.eq_of_mem_replicate hb

/-- A text survives padding on either side. -/
theorem trimSpaces_pad {s : List UInt8} (h : Trimmed s) (n k : Nat) :
    trimSpaces (List.replicate n 0x20 ++ s ++ List.replicate k 0x20) = s := by
  have hback : s.reverse.head? ≠ some 0x20 := by
    rw [List.head?_reverse]
    exact h.2
  cases s with
  | nil =>
      have hall : List.replicate n (0x20 : UInt8) ++ [] ++ List.replicate k 0x20
          = List.replicate (n + k) 0x20 ++ [] := by simp
      rw [trimSpaces, hall, dropWhile_pad h.1]
      rfl
  | cons b bs =>
      have hfront : ((b :: bs) ++ List.replicate k 0x20).head? ≠ some 0x20 := h.1
      rw [trimSpaces, List.append_assoc, dropWhile_pad hfront, List.reverse_append,
        List.reverse_replicate, dropWhile_pad hback, List.reverse_reverse]

/-- A text without spaces has none at its ends. -/
theorem trimmed_of_no_space {s : List UInt8} (h : ∀ b ∈ s, b ≠ 0x20) : Trimmed s :=
  ⟨fun hb => h _ (List.mem_of_head? hb) rfl, fun hb => h _ (List.mem_of_getLast? hb) rfl⟩

/-! ## UTF-8 -/

/-- The bytes of a string. -/
def IsUTF8 (s : List UInt8) : Prop :=
  ∃ chars : List Char, s = chars.flatMap String.utf8EncodeChar

/-- A scalar is a lead byte and as many continuation bytes as it wants. -/
structure IsScalar (b : UInt8) (bs : List UInt8) (want : Nat) (lo hi : UInt8) : Prop where
  lead : lead b = some (want, lo, hi)
  length : bs.length = want
  continuation : ∀ rest, continuation want lo hi (bs ++ rest) = want

section Encode

variable {v n : Nat} {a : UInt8}

theorem le_ofNat (h : n < 256) : a ≤ UInt8.ofNat n ↔ a.toNat ≤ n := by
  rw [UInt8.le_iff_toNat_le, UInt8.toNat_ofNat', Nat.mod_eq_of_lt h]

theorem ofNat_le (h : n < 256) : UInt8.ofNat n ≤ a ↔ n ≤ a.toNat := by
  rw [UInt8.le_iff_toNat_le, UInt8.toNat_ofNat', Nat.mod_eq_of_lt h]

theorem ofNat_lt (h : n < 256) : UInt8.ofNat n < a ↔ n < a.toNat := by
  rw [UInt8.lt_iff_toNat_lt, UInt8.toNat_ofNat', Nat.mod_eq_of_lt h]

theorem ofNat_eq (h : n < 256) : UInt8.ofNat n = a ↔ n = a.toNat := by
  rw [← UInt8.toNat_inj, UInt8.toNat_ofNat', Nat.mod_eq_of_lt h]

/-- What a lead byte wants, by its number. -/
theorem lead_ofNat (h : n < 256) :
    lead (UInt8.ofNat n) =
      if n < 128 then some (0, 0x80, 0xBF)
      else if 194 ≤ n ∧ n ≤ 223 then some (1, 0x80, 0xBF)
      else if n = 224 then some (2, 0xA0, 0xBF)
      else if n = 237 then some (2, 0x80, 0x9F)
      else if 225 ≤ n ∧ n ≤ 239 then some (2, 0x80, 0xBF)
      else if n = 240 then some (3, 0x90, 0xBF)
      else if 241 ≤ n ∧ n ≤ 243 then some (3, 0x80, 0xBF)
      else if n = 244 then some (3, 0x80, 0x8F)
      else none := by
  simp only [lead, ofNat_lt h, le_ofNat h, ofNat_le h, ofNat_eq h]
  rfl

/-- A continuation byte in range counts. -/
theorem continuation_cons {want : Nat} {lo hi : UInt8} {bs : List UInt8} (h : n < 256)
    (hlo : lo.toNat ≤ n) (hhi : n ≤ hi.toNat) :
    continuation (want + 1) lo hi (UInt8.ofNat n :: bs) = continuation want 0x80 0xBF bs + 1 := by
  rw [continuation, if_pos ⟨(le_ofNat h).mpr hlo, (ofNat_le h).mpr hhi⟩]

/-- The three ranges of a two-byte tail. -/
theorem isScalar_three (n₀ n₁ n₂ : Nat) (h₀ : 224 ≤ n₀ ∧ n₀ ≤ 239)
    (h₁ : 128 ≤ n₁ ∧ n₁ ≤ 191) (h₂ : 128 ≤ n₂ ∧ n₂ ≤ 191)
    (hlow : n₀ = 224 → 160 ≤ n₁) (hhigh : n₀ = 237 → n₁ ≤ 159) :
    ∃ lo hi, IsScalar (UInt8.ofNat n₀) [UInt8.ofNat n₁, UInt8.ofNat n₂] 2 lo hi := by
  have hlead := lead_ofNat (show n₀ < 256 by omega)
  have htail : ∀ {lo hi : UInt8}, lo.toNat ≤ n₁ → n₁ ≤ hi.toNat → ∀ rest,
      continuation 2 lo hi ([UInt8.ofNat n₁, UInt8.ofNat n₂] ++ rest) = 2 := by
    intro lo hi hlo hhi rest
    rw [List.cons_append, continuation_cons (by omega) hlo hhi, List.cons_append,
      continuation_cons (by omega) h₂.1 h₂.2, continuation]
  rw [if_neg (by omega), if_neg (by omega)] at hlead
  by_cases hfirst : n₀ = 224
  · rw [if_pos hfirst] at hlead
    exact ⟨_, _, hlead, rfl, htail (hlow hfirst) h₁.2⟩
  · rw [if_neg hfirst] at hlead
    by_cases hsurrogate : n₀ = 237
    · rw [if_pos hsurrogate] at hlead
      exact ⟨_, _, hlead, rfl, htail h₁.1 (hhigh hsurrogate)⟩
    · rw [if_neg hsurrogate, if_pos (by omega)] at hlead
      exact ⟨_, _, hlead, rfl, htail h₁.1 h₁.2⟩

/-- The three ranges of a three-byte tail. -/
theorem isScalar_four (n₀ n₁ n₂ n₃ : Nat) (h₀ : 240 ≤ n₀ ∧ n₀ ≤ 244)
    (h₁ : 128 ≤ n₁ ∧ n₁ ≤ 191) (h₂ : 128 ≤ n₂ ∧ n₂ ≤ 191) (h₃ : 128 ≤ n₃ ∧ n₃ ≤ 191)
    (hlow : n₀ = 240 → 144 ≤ n₁) (hhigh : n₀ = 244 → n₁ ≤ 143) :
    ∃ lo hi, IsScalar (UInt8.ofNat n₀) [UInt8.ofNat n₁, UInt8.ofNat n₂, UInt8.ofNat n₃] 3
      lo hi := by
  have hlead := lead_ofNat (show n₀ < 256 by omega)
  have htail : ∀ {lo hi : UInt8}, lo.toNat ≤ n₁ → n₁ ≤ hi.toNat → ∀ rest,
      continuation 3 lo hi ([UInt8.ofNat n₁, UInt8.ofNat n₂, UInt8.ofNat n₃] ++ rest) = 3 := by
    intro lo hi hlo hhi rest
    rw [List.cons_append, continuation_cons (by omega) hlo hhi, List.cons_append,
      continuation_cons (by omega) h₂.1 h₂.2, List.cons_append,
      continuation_cons (by omega) h₃.1 h₃.2, continuation]
  rw [if_neg (by omega), if_neg (by omega), if_neg (by omega), if_neg (by omega),
    if_neg (by omega)] at hlead
  by_cases hfirst : n₀ = 240
  · rw [if_pos hfirst] at hlead
    exact ⟨_, _, hlead, rfl, htail (hlow hfirst) h₁.2⟩
  · rw [if_neg hfirst] at hlead
    by_cases hlast : n₀ = 244
    · rw [if_neg (by omega), if_pos hlast] at hlead
      exact ⟨_, _, hlead, rfl, htail h₁.1 (hhigh hlast)⟩
    · rw [if_pos (by omega)] at hlead
      exact ⟨_, _, hlead, rfl, htail h₁.1 h₁.2⟩

/-- Every character is encoded as a scalar. -/
theorem exists_isScalar (c : Char) :
    ∃ b bs want lo hi, String.utf8EncodeChar c = b :: bs ∧ IsScalar b bs want lo hi := by
  have hvalid : c.val.toNat < 0xD800 ∨ 0xDFFF < c.val.toNat ∧ c.val.toNat < 0x110000 := c.valid
  obtain ⟨v, hv⟩ : ∃ v, c.val.toNat = v := ⟨_, rfl⟩
  have hbytes : String.utf8EncodeChar c =
      if v ≤ 127 then [UInt8.ofNat v]
      else if v ≤ 2047 then [UInt8.ofNat (v / 64 % 32 + 192), UInt8.ofNat (v % 64 + 128)]
      else if v ≤ 65535 then
        [UInt8.ofNat (v / 4096 % 16 + 224), UInt8.ofNat (v / 64 % 64 + 128),
          UInt8.ofNat (v % 64 + 128)]
      else
        [UInt8.ofNat (v / 262144 % 8 + 240), UInt8.ofNat (v / 4096 % 64 + 128),
          UInt8.ofNat (v / 64 % 64 + 128), UInt8.ofNat (v % 64 + 128)] := by
    rw [← hv]
    rfl
  rw [hv] at hvalid
  rw [hbytes]
  split
  next h =>
    refine ⟨_, _, 0, 0x80, 0xBF, rfl, ?_, rfl, fun _ => rfl⟩
    rw [lead_ofNat (by omega), if_pos (by omega)]
  next h =>
    split
    next h' =>
      refine ⟨_, _, 1, 0x80, 0xBF, rfl, ?_, rfl, fun rest => ?_⟩
      · rw [lead_ofNat (by omega), if_neg (by omega), if_pos (by omega)]
      · rw [List.cons_append, continuation_cons (by omega) (by simp) (by simp; omega), continuation]
    next h' =>
      split
      next h'' =>
        obtain ⟨lo, hi, hscalar⟩ := isScalar_three (v / 4096 % 16 + 224) (v / 64 % 64 + 128)
          (v % 64 + 128) (by omega) (by omega) (by omega) (by omega) (by omega)
        exact ⟨_, _, _, lo, hi, rfl, hscalar⟩
      next h'' =>
        obtain ⟨lo, hi, hscalar⟩ := isScalar_four (v / 262144 % 8 + 240) (v / 4096 % 64 + 128)
          (v / 64 % 64 + 128) (v % 64 + 128) (by omega) (by omega) (by omega) (by omega) (by omega)
          (by omega)
        exact ⟨_, _, _, lo, hi, rfl, hscalar⟩

/-- A scalar goes through `lossy` as it is. -/
theorem IsScalar.lossyLoop {b : UInt8} {bs : List UInt8} {want : Nat} {lo hi : UInt8}
    (h : IsScalar b bs want lo hi) (fuel : Nat) (rest : List UInt8) :
    lossyLoop (fuel + 1) (b :: bs ++ rest) = b :: bs ++ lossyLoop fuel rest := by
  rw [List.cons_append, Text.lossyLoop, h.lead]
  simp only [h.continuation, if_true]
  rw [List.take_left' h.length, List.drop_left' h.length]

theorem lossyLoop_flatMap {chars : List Char} {fuel : Nat} (hfuel : chars.length ≤ fuel) :
    lossyLoop fuel (chars.flatMap String.utf8EncodeChar)
      = chars.flatMap String.utf8EncodeChar := by
  induction chars generalizing fuel with
  | nil => cases fuel <;> rfl
  | cons c chars ih =>
      obtain ⟨b, bs, want, lo, hi, hc, hscalar⟩ := exists_isScalar c
      cases fuel with
      | zero => simp at hfuel
      | succ fuel =>
          rw [List.flatMap_cons, hc, hscalar.lossyLoop, ih (Nat.le_of_succ_le_succ hfuel)]

theorem length_le_flatMap (chars : List Char) :
    chars.length ≤ (chars.flatMap String.utf8EncodeChar).length := by
  induction chars with
  | nil => exact Nat.zero_le _
  | cons c chars ih =>
      obtain ⟨b, bs, _, _, _, hc, -⟩ := exists_isScalar c
      rw [List.flatMap_cons, hc, List.length_append, List.length_cons, List.length_cons]
      omega

/-- A string goes through `lossy` as it is. -/
theorem IsUTF8.lossy {s : List UInt8} (h : IsUTF8 s) : lossy s = s := by
  obtain ⟨chars, rfl⟩ := h
  exact lossyLoop_flatMap (length_le_flatMap chars)

end Encode

end Text

end Lib
