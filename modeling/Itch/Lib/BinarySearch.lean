import Mathlib.Tactic

/-!
# Binary search

The search for a key in a list that is sorted by its keys.  A window of the list is halved
until one element is left, which is then compared with the key.
-/

namespace Lib

variable {α κ : Type*} [LinearOrder κ]

/-- The index at which the window of `size` elements from `base` on is down to one. -/
def narrow (key : α → κ) (k : κ) (l : List α) (base size : Nat) : Nat :=
  if size ≤ 1 then base
  else
    match l[base + size / 2]? with
    | none => base
    | some a =>
        if k < key a then narrow key k l base (size - size / 2)
        else narrow key k l (base + size / 2) (size - size / 2)
termination_by size

/-- The index of an element with the key, or else the index where it could be inserted. -/
def binarySearchByKey (l : List α) (k : κ) (key : α → κ) : Except Nat Nat :=
  let base := narrow key k l 0 l.length
  match l[base]? with
  | none => .error 0
  | some a =>
      if key a = k then .ok base else .error (if key a < k then base + 1 else base)

variable {key : α → κ} {k : κ} {l : List α}

/-- An element with the key stays in the window. -/
theorem narrow_eq {base size i : Nat} {a : α} (hsorted : l.Pairwise fun a b => key a < key b)
    (ha : l[i]? = some a) (hkey : key a = k) (hlo : base ≤ i) (hhi : i < base + size)
    (hlen : base + size ≤ l.length) : narrow key k l base size = i := by
  have hlt : ∀ {m n : Nat} {b c : α}, l[m]? = some b → l[n]? = some c → m < n → key b < key c := by
    intro m n b c hb hc hmn
    obtain ⟨hm, rfl⟩ := List.getElem?_eq_some_iff.mp hb
    obtain ⟨hn, rfl⟩ := List.getElem?_eq_some_iff.mp hc
    exact List.pairwise_iff_getElem.mp hsorted m n hm hn hmn
  fun_induction narrow key k l base size with
  | case1 base size hone => omega
  | case2 base size hone hnone =>
      have hout := List.getElem?_eq_none_iff.mp hnone
      omega
  | case3 base size hone b hb hless ih =>
      have hbelow : i < base + size / 2 := by
        by_contra hge
        rcases Nat.lt_or_eq_of_le (Nat.le_of_not_lt hge) with hmi | hmi
        · exact absurd (hkey ▸ hlt hb ha hmi) (lt_asymm hless)
        · rw [hmi, ha] at hb
          cases hb
          exact absurd hless (hkey ▸ lt_irrefl _)
      exact ih hlo (by omega) (by omega)
  | case4 base size hone b hb hless ih =>
      have habove : base + size / 2 ≤ i := by
        by_contra hmi
        exact hless (hkey ▸ hlt ha hb (Nat.lt_of_not_le hmi))
      exact ih habove (by omega) (by omega)

/-- In a sorted list the search finds the element with the key if there is one. -/
theorem binarySearchByKey_eq_ok_iff {i : Nat} (hsorted : l.Pairwise fun a b => key a < key b) :
    binarySearchByKey l k key = .ok i ↔ ∃ a, l[i]? = some a ∧ key a = k := by
  unfold binarySearchByKey
  constructor
  · intro h
    dsimp only at h
    split at h
    next => cases h
    next a ha =>
      split at h
      next hkey =>
        cases h
        exact ⟨a, ha, hkey⟩
      next => cases h
  · rintro ⟨a, ha, hkey⟩
    have hi := (List.getElem?_eq_some_iff.mp ha).1
    have hnarrow : narrow key k l 0 l.length = i :=
      narrow_eq hsorted ha hkey (Nat.zero_le i) (by omega) (by omega)
    dsimp only
    rw [hnarrow, ha]
    exact if_pos hkey

end Lib
