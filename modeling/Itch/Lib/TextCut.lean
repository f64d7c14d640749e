import Itch.Lib.Text

/-!
# Cutting text

A text may be cut where a character begins.  There it falls into two texts, and elsewhere it
does not.  Taking the spaces off both ends cuts at such places, and leaves less for `trim` to
take off.
-/

namespace Lib

namespace Text

/-- A character begins at the index, or the text ends there. -/
def isCharBoundary (s : List UInt8) (i : Nat) : Bool :=
  i = 0 || match s[i]? with
    | some b => b < 0x80 || 0xC0 ≤ b
    | none => i = s.length

variable {s s' : List UInt8} {b : UInt8} {bs : List UInt8} {want : Nat} {lo hi : UInt8} {i : Nat}

/-! ## Boundaries -/

theorem isCharBoundary_iff : isCharBoundary s i = true ↔
    i = 0 ∨ i = s.length ∨ ∃ b, s[i]? = some b ∧ (b < 0x80 ∨ 0xC0 ≤ b) := by
  rw [isCharBoundary, Bool.or_eq_true, decide_eq_true_iff]
  refine or_congr_right ?_
  cases hget : s[i]? with
  | none => simp
  | some b =>
      have hlt := (List.getElem?_eq_some_iff.mp hget).1
      simp [hlt.ne]

theorem continuation_range (hlo : 0x80 ≤ lo) (hhi : hi ≤ 0xBF) (hlen : bs.length = want)
    (h : continuation want lo hi bs = want) : ∀ c ∈ bs, 0x80 ≤ c ∧ c < 0xC0 := by
  induction bs generalizing want lo hi with
  | nil => exact fun c hc => absurd hc List.not_mem_nil
  | cons c cs ih =>
      cases want with
      | zero => cases hlen
      | succ want =>
          rw [continuation] at h
          split at h
          next hrange =>
            have hcs := ih (by decide) (by decide) (Nat.succ.inj hlen) (Nat.succ.inj h)
            refine List.forall_mem_cons.mpr ⟨⟨UInt8.le_trans hlo hrange.1, ?_⟩, hcs⟩
            exact UInt8.lt_of_le_of_lt (UInt8.le_trans hrange.2 hhi) (by decide)
          next => cases h

theorem lead_range (h : lead b = some (want, lo, hi)) : 0x80 ≤ lo ∧ hi ≤ 0xBF := by
  unfold lead at h
  split_ifs at h <;> cases h <;> decide

/-- The bytes behind the first one of a character. -/
theorem IsScalar.tail (h : IsScalar b bs want lo hi) : ∀ c ∈ bs, 0x80 ≤ c ∧ c < 0xC0 := by
  have hall := h.continuation []
  rw [List.append_nil] at hall
  exact continuation_range (lead_range h.lead).1 (lead_range h.lead).2 h.length hall

/-- There is no boundary inside of a character. -/
theorem IsScalar.length_lt_of_isCharBoundary (h : IsScalar b bs want lo hi)
    (hcut : isCharBoundary (b :: bs ++ s) i = true) (hpos : i ≠ 0) : bs.length < i := by
  obtain ⟨j, rfl⟩ := Nat.exists_eq_succ_of_ne_zero hpos
  rcases isCharBoundary_iff.mp hcut with hzero | hend | ⟨c, hget, hc⟩
  · exact absurd hzero hpos
  · rw [hend, List.length_append, List.length_cons]
    omega
  · rw [List.cons_append, List.getElem?_cons_succ] at hget
    by_contra hlt
    rw [List.getElem?_append_left (by omega)] at hget
    obtain ⟨hge, hlt⟩ := h.tail c (List.mem_of_getElem? hget)
    rcases hc with hc | hc
    · exact UInt8.not_lt.mpr hge hc
    · exact UInt8.not_lt.mpr hc hlt

theorem isCharBoundary_append (h : isCharBoundary (s ++ s') i = true) (hle : s.length ≤ i) :
    isCharBoundary s' (i - s.length) = true := by
  rw [isCharBoundary_iff] at h ⊢
  rcases h with hzero | hend | ⟨b, hget, hb⟩
  · exact .inl (by omega)
  · rw [List.length_append] at hend
    exact .inr (.inl (by omega))
  · rw [List.getElem?_append_right hle] at hget
    exact .inr (.inr ⟨b, hget, hb⟩)

/-- A text that is cut at a boundary. -/
theorem IsUTF8.take (h : IsUTF8 s) (hcut : isCharBoundary s i = true) : IsUTF8 (s.take i) := by
  obtain ⟨chars, rfl⟩ := h
  induction chars generalizing i with
  | nil => exact ⟨[], List.take_nil⟩
  | cons c chars ih =>
      obtain ⟨b, bs, want, lo, hi, hc, hscalar⟩ := exists_isScalar c
      rw [List.flatMap_cons, hc] at hcut ⊢
      by_cases hpos : i = 0
      · exact ⟨[], by rw [hpos]; rfl⟩
      · have hle : (b :: bs).length ≤ i := hscalar.length_lt_of_isCharBoundary hcut hpos
        obtain ⟨front, hfront⟩ := ih (isCharBoundary_append hcut hle)
        refine ⟨c :: front, ?_⟩
        rw [List.take_append, List.take_of_length_le hle, hfront, List.flatMap_cons, hc]

/-! ## Spaces -/

theorem IsUTF8.of_cons_space (h : IsUTF8 (0x20 :: s)) : IsUTF8 s := by
  obtain ⟨chars, hchars⟩ := h
  cases chars with
  | nil => cases hchars
  | cons c chars =>
      obtain ⟨b, bs, want, lo, hi, hc, hscalar⟩ := exists_isScalar c
      rw [List.flatMap_cons, hc, List.cons_append] at hchars
      obtain ⟨rfl, hrest⟩ := List.cons.inj hchars
      -- a space has no continuation bytes
      have hlead := hscalar.lead
      have hwant : want = 0 := by
        cases hlead
        rfl
      have hnil : bs = [] := List.length_eq_zero_iff.mp (hscalar.length.trans hwant)
      exact ⟨chars, by rw [hrest, hnil, List.nil_append]⟩

theorem IsUTF8.of_spaces_append {n : Nat} (h : IsUTF8 (List.replicate n 0x20 ++ s)) : IsUTF8 s := by
  induction n with
  | zero => exact h
  | succ n ih => exact ih h.of_cons_space

theorem IsUTF8.of_append_spaces {n : Nat} (h : IsUTF8 (s ++ List.replicate n 0x20)) : IsUTF8 s := by
  have hcut : isCharBoundary (s ++ List.replicate n 0x20) s.length = true := by
    rw [isCharBoundary_iff]
    cases n with
    | zero => exact .inr (.inl (by simp))
    | succ n => exact .inr (.inr ⟨0x20, by simp [List.replicate_succ], .inl (by decide)⟩)
  have htake := h.take hcut
  rw [List.take_left] at htake
  exact htake

theorem exists_dropWhile_spaces (s : List UInt8) :
    ∃ n, s = List.replicate n 0x20 ++ s.dropWhile (· = 0x20) := by
  induction s with
  | nil => exact ⟨0, rfl⟩
  | cons b s ih =>
      by_cases hb : b = 0x20
      · obtain ⟨n, hn⟩ := ih
        refine ⟨n + 1, ?_⟩
        rw [List.dropWhile_cons_of_pos (by simpa using hb), List.replicate_succ, List.cons_append,
          ← hn, hb]
      · exact ⟨0, by rw [List.dropWhile_cons_of_neg (by simpa using hb)]; rfl⟩

/-- What `trimSpaces` takes off at the end. -/
theorem exists_trimSpaces_append (s : List UInt8) :
    ∃ k, s.dropWhile (· = 0x20) = trimSpaces s ++ List.replicate k 0x20 := by
  obtain ⟨k, hk⟩ := exists_dropWhile_spaces (s.dropWhile (· = 0x20)).reverse
  have hrev := congrArg List.reverse hk
  rw [List.reverse_reverse, List.reverse_append, List.reverse_replicate] at hrev
  exact ⟨k, hrev⟩

/-- What `trimSpaces` takes off. -/
theorem exists_trimSpaces (s : List UInt8) :
    ∃ n k, s = List.replicate n 0x20 ++ (trimSpaces s ++ List.replicate k 0x20) := by
  obtain ⟨n, hn⟩ := exists_dropWhile_spaces s
  obtain ⟨k, hback⟩ := exists_trimSpaces_append s
  exact ⟨n, k, hn.trans (congrArg _ hback)⟩

theorem head?_dropWhile_spaces (s : List UInt8) :
    (s.dropWhile (· = 0x20)).head? ≠ some 0x20 := by
  intro hhead
  have hnot := List.head?_dropWhile_not (fun b : UInt8 => decide (b = 0x20)) s
  rw [hhead] at hnot
  simp at hnot

/-- No space is left at either end. -/
theorem trimmed_trimSpaces (s : List UInt8) : Trimmed (trimSpaces s) := by
  constructor
  · intro hhead
    obtain ⟨k, hback⟩ := exists_trimSpaces_append s
    refine head?_dropWhile_spaces s ?_
    rw [hback, List.head?_append, hhead]
    rfl
  · rw [trimSpaces, List.getLast?_reverse]
    exact head?_dropWhile_spaces _

theorem IsUTF8.trimSpaces (h : IsUTF8 s) : IsUTF8 (trimSpaces s) := by
  obtain ⟨n, k, hs⟩ := exists_trimSpaces s
  rw [hs] at h
  exact h.of_spaces_append.of_append_spaces

/-! ## White space -/

/-- A space in front is taken off first. -/
def TakesSpace (words : List (List UInt8)) : Prop :=
  ∀ s, words.find? (·.isPrefixOf (0x20 :: s)) = some [0x20]

theorem takesSpace_whitespace : TakesSpace whitespace := fun _ => rfl

theorem takesSpace_reverse : TakesSpace (whitespace.map List.reverse) := fun _ => rfl

variable {words : List (List UInt8)} {fuel : Nat}

theorem TakesSpace.stripLoop (h : TakesSpace words) (n : Nat) :
    stripLoop words (fuel + n) (List.replicate n 0x20 ++ s) = stripLoop words fuel s := by
  induction n with
  | zero => rfl
  | succ n ih =>
      rw [← Nat.add_assoc, List.replicate_succ, List.cons_append, Text.stripLoop, h]
      exact ih

/-- Only the first byte of a white-space character can be a space. -/
theorem space_not_mem_tail : ∀ w ∈ whitespace, 0x20 ∉ w.tail := by
  decide

theorem length_pos_of_mem_whitespace : ∀ w ∈ whitespace, 0 < w.length := by
  decide

theorem isPrefixOf_append_spaces {w : List UInt8} (hw : w ∈ whitespace) (hne : s ≠ []) (k : Nat) :
    w.isPrefixOf (s ++ List.replicate k 0x20) = w.isPrefixOf s := by
  rw [Bool.eq_iff_iff, List.isPrefixOf_iff_prefix, List.isPrefixOf_iff_prefix]
  refine ⟨fun h => ?_, fun h => h.trans (List.prefix_append _ _)⟩
  rcases List.prefix_or_prefix_of_prefix h (List.prefix_append s _) with hpre | ⟨t, rfl⟩
  · exact hpre
  · -- the rest of the word would begin with a space
    have ht : t <+: List.replicate k 0x20 := (List.prefix_append_right_inj s).mp h
    cases t with
    | nil => exact (List.append_nil s).symm ▸ List.prefix_rfl
    | cons c t =>
        have hc : c = 0x20 := List.eq_of_mem_replicate (ht.subset List.mem_cons_self)
        refine absurd ?_ (space_not_mem_tail _ hw)
        rw [List.tail_append_of_ne_nil hne, hc]
        exact List.mem_append_right _ List.mem_cons_self

/-- Spaces at the end stay as long as something else is left. -/
theorem stripLoop_append_spaces (hfuel : s.length ≤ fuel) (k : Nat) :
    stripLoop whitespace (fuel + k) (s ++ List.replicate k 0x20) =
      if stripLoop whitespace fuel s = [] then []
      else stripLoop whitespace fuel s ++ List.replicate k 0x20 := by
  have hnil (n : Nat) : stripLoop whitespace n [] = [] := by
    cases n <;> rfl
  induction fuel generalizing s with
  | zero =>
      obtain rfl : s = [] := List.length_eq_zero_iff.mp (Nat.le_zero.mp hfuel)
      rw [hnil, if_pos rfl, List.nil_append, ← List.append_nil (List.replicate k 0x20),
        takesSpace_whitespace.stripLoop, hnil]
  | succ fuel ih =>
      by_cases hne : s = []
      · subst hne
        rw [hnil, if_pos rfl, List.nil_append, ← List.append_nil (List.replicate k 0x20),
          takesSpace_whitespace.stripLoop, hnil]
      · have hfind : whitespace.find? (·.isPrefixOf (s ++ List.replicate k 0x20)) =
            whitespace.find? (·.isPrefixOf s) :=
          List.find?_congr fun w hw => isPrefixOf_append_spaces hw hne k
        rw [Nat.add_right_comm, stripLoop, hfind, stripLoop]
        cases hfound : whitespace.find? (·.isPrefixOf s) with
        | none => exact (if_neg hne).symm
        | some w =>
            have hpos := length_pos_of_mem_whitespace w (List.mem_of_find?_eq_some hfound)
            have hfits := List.find?_some hfound
            have hpre : w <+: s := List.isPrefixOf_iff_prefix.mp hfits
            dsimp only
            rw [List.drop_append_of_le_length hpre.length_le]
            refine ih ?_
            rw [List.length_drop]
            omega

/-- The spaces at the ends make no difference to `trim`. -/
theorem trim_trimSpaces (s : List UInt8) : trim (trimSpaces s) = trim s := by
  obtain ⟨n, k, hs⟩ := exists_trimSpaces s
  let m := trimSpaces s
  have hfront : stripLoop whitespace s.length s =
      if stripLoop whitespace m.length m = [] then []
      else stripLoop whitespace m.length m ++ List.replicate k 0x20 := by
    have hlength : s.length = m.length + k + n := by
      rw [hs]
      simp [m]
      omega
    rw [hlength, ← stripLoop_append_spaces le_rfl k]
    nth_rewrite 1 [hs]
    exact takesSpace_whitespace.stripLoop n
  rw [trim, trim, hfront]
  split
  next hnil => rw [hnil]
  next =>
    rw [List.reverse_append, List.reverse_replicate, List.length_append, List.length_replicate,
      takesSpace_reverse.stripLoop]

end Text

end Lib
