import Mathlib.Tactic
import Mathlib.Algebra.Order.BigOperators.Group.List

/-!
# Finite maps

A map with finitely many keys, in key order.  `weight f m` adds up `f` over the
entries: the lemmas say how an insertion, a removal and an update of one entry change
the sum, and that the order in which the entries are visited does not matter.
-/

namespace Lib

/-- A finite map. -/
abbrev FinMap (κ β : Type) [Ord κ] := Std.ExtTreeMap κ β compare

namespace FinMap

variable {κ β γ : Type} [Ord κ] [Std.TransOrd κ] {m : FinMap κ β} {k a : κ} {v : β}

/-- The sum of `f` over the entries. -/
def weight (f : κ → β → Nat) (m : FinMap κ β) : Nat :=
  (m.toList.map fun e => f e.1 e.2).sum

variable {f : κ → β → Nat}

/-- The sum does not depend on the order of the visit. -/
theorem weight_eq_of_perm {l : List (κ × β)} (h : l.Perm m.toList) :
    (l.map fun e => f e.1 e.2).sum = weight f m :=
  (h.map _).sum_eq

@[simp] theorem weight_empty : weight f (∅ : FinMap κ β) = 0 := by
  simp [weight, Std.ExtTreeMap.toList_eq_nil_iff.mpr]

theorem weight_map {n : FinMap κ γ} {g : γ → β} :
    weight f (n.map fun _ w => g w) = weight (fun k w => f k (g w)) n := by
  simp [weight, Std.ExtTreeMap.toList_map, Function.comp_def]

/-! ## Lookup -/

theorem mem_iff_get : k ∈ m ↔ ∃ v, m[k]? = some v := by
  rw [Std.ExtTreeMap.mem_iff_isSome_getElem?, Option.isSome_iff_exists]

theorem mem_of_get (h : m[k]? = some v) : k ∈ m :=
  mem_iff_get.mpr ⟨v, h⟩

theorem get_of_not_mem (h : k ∉ m) : m[k]? = none := by
  rw [mem_iff_get] at h
  exact Option.eq_none_iff_forall_not_mem.mpr fun v hv => h ⟨v, hv⟩

variable [Std.LawfulEqOrd κ]

theorem get_insert [DecidableEq κ] : (m.insert k v)[a]? = if k = a then some v else m[a]? := by
  rw [Std.ExtTreeMap.getElem?_insert]
  simp only [Std.LawfulEqCmp.compare_eq_iff_eq]

/-- An entry that is there is kept. -/
theorem get_insertIfNew [DecidableEq κ] :
    (m.insertIfNew k v)[a]? = if k = a then some (m[k]?.getD v) else m[a]? := by
  rw [Std.ExtTreeMap.getElem?_insertIfNew]
  simp only [Std.LawfulEqCmp.compare_eq_iff_eq]
  by_cases hk : k = a
  · subst hk
    by_cases hmem : k ∈ m
    · obtain ⟨w, hw⟩ := mem_iff_get.mp hmem
      rw [if_neg (fun h => h.2 hmem), if_pos rfl, hw, Option.getD_some]
    · rw [if_pos ⟨rfl, hmem⟩, if_pos rfl, get_of_not_mem hmem, Option.getD_none]
  · rw [if_neg (fun h => hk h.1), if_neg hk]

theorem get_erase [DecidableEq κ] : (m.erase k)[a]? = if k = a then none else m[a]? := by
  rw [Std.ExtTreeMap.getElem?_erase]
  simp only [Std.LawfulEqCmp.compare_eq_iff_eq]

theorem mem_insert_iff : a ∈ m.insert k v ↔ k = a ∨ a ∈ m := by
  rw [Std.ExtTreeMap.mem_insert, Std.LawfulEqCmp.compare_eq_iff_eq]

theorem mem_erase_iff : a ∈ m.erase k ↔ k ≠ a ∧ a ∈ m := by
  rw [Std.ExtTreeMap.mem_erase, Ne, Ne, Std.LawfulEqCmp.compare_eq_iff_eq]

theorem not_mem_erase_self : k ∉ m.erase k :=
  fun h => (mem_erase_iff.mp h).1 rfl

/-- Writing a key twice is writing it once. -/
theorem insert_eq_erase_insert (m : FinMap κ β) (k : κ) (v : β) :
    m.insert k v = (m.erase k).insert k v := by
  classical
  refine Std.ExtTreeMap.ext_getElem? fun {a} => ?_
  rw [get_insert, get_insert, get_erase]
  split <;> rfl

theorem erase_of_get_none (h : m[k]? = none) : m.erase k = m := by
  classical
  refine Std.ExtTreeMap.ext_getElem? fun {a} => ?_
  rw [get_erase]
  split
  next hk => rw [← hk, h]
  next => rfl

theorem erase_insert_self : (m.insert k v).erase k = m.erase k := by
  classical
  refine Std.ExtTreeMap.ext_getElem? fun {a} => ?_
  rw [get_erase, get_erase, get_insert]
  split <;> rfl

/-- Writing an entry changes the map unless the entry is there. -/
theorem insert_eq_self_iff : m.insert k v = m ↔ m[k]? = some v := by
  classical
  constructor
  · intro h
    rw [← h, get_insert, if_pos rfl]
  · intro h
    refine Std.ExtTreeMap.ext_getElem? fun {a} => ?_
    rw [get_insert]
    split
    next hk => rw [← hk, h]
    next => rfl

/-- Removing an entry changes the map. -/
theorem erase_ne_self (h : k ∈ m) : m.erase k ≠ m := by
  intro heq
  rw [← heq] at h
  exact not_mem_erase_self h

/-! ## Entries -/

theorem mem_entries {e : κ × β} : e ∈ m.toList ↔ m[e.1]? = some e.2 :=
  Std.ExtTreeMap.mem_toList_iff_getElem?_eq_some

theorem nodup_entries (m : FinMap κ β) : m.toList.Nodup := by
  refine m.distinct_keys_toList.imp ?_
  rintro ⟨k, v⟩ ⟨k', v'⟩ hne heq
  cases heq
  exact hne Std.ReflCmp.compare_self

/-- The entries of a map with a new key. -/
theorem entries_insert_perm (h : k ∉ m) : (m.insert k v).toList.Perm ((k, v) :: m.toList) := by
  classical
  have hnew : (k, v) ∉ m.toList := fun hk => h (mem_of_get (mem_entries.mp hk))
  refine (List.perm_ext_iff_of_nodup (nodup_entries _)
    (List.nodup_cons.mpr ⟨hnew, nodup_entries _⟩)).mpr ?_
  rintro ⟨a, w⟩
  rw [mem_entries, List.mem_cons, mem_entries, get_insert, Prod.mk.injEq]
  by_cases hka : k = a
  · subst hka
    simp [get_of_not_mem h, eq_comm]
  · simp [hka, Ne.symm hka]

/-- The entries of a map that has the key. -/
theorem entries_perm_erase (h : m[k]? = some v) :
    m.toList.Perm ((k, v) :: (m.erase k).toList) := by
  classical
  have hnew : (k, v) ∉ (m.erase k).toList := by
    rw [mem_entries, get_erase, if_pos rfl]
    exact nofun
  refine (List.perm_ext_iff_of_nodup (nodup_entries _)
    (List.nodup_cons.mpr ⟨hnew, nodup_entries _⟩)).mpr ?_
  rintro ⟨a, w⟩
  rw [mem_entries, List.mem_cons, mem_entries, get_erase, Prod.mk.injEq]
  by_cases hka : k = a
  · subst hka
    simp [h, eq_comm]
  · simp [hka, Ne.symm hka]

/-! ## The first entry -/

/-- The entry with the smallest key. -/
def first? (m : FinMap κ β) : Option (κ × β) :=
  m.toList.head?

theorem get_of_first? (h : m.first? = some (k, v)) : m[k]? = some v :=
  mem_entries.mp (List.mem_of_mem_head? h)

/-- The first key is at most every key. -/
theorem compare_first? (h : m.first? = some (k, v)) (ha : a ∈ m) : compare k a ≠ .gt := by
  obtain ⟨w, hw⟩ := mem_iff_get.mp ha
  have hmem : (a, w) ∈ m.toList := mem_entries.mpr hw
  have hord := m.ordered_keys_toList
  rw [first?, List.head?_eq_some_iff] at h
  obtain ⟨tail, htail⟩ := h
  rw [htail] at hmem hord
  rcases List.mem_cons.mp hmem with heq | hmem
  · rw [(Prod.mk.inj heq).1, show compare k k = .eq from Std.ReflCmp.compare_self]
    exact nofun
  · rw [(List.pairwise_cons.mp hord).1 _ hmem]
    exact nofun

theorem not_mem_of_first?_none (h : m.first? = none) : a ∉ m := by
  intro ha
  obtain ⟨w, hw⟩ := mem_iff_get.mp ha
  have hmem : (a, w) ∈ m.toList := mem_entries.mpr hw
  rw [first?, List.head?_eq_none_iff] at h
  rw [h] at hmem
  exact absurd hmem List.not_mem_nil

omit [Std.TransOrd κ] in
theorem eq_of_compare_ne_gt [Std.OrientedOrd κ] (h : compare a k ≠ .gt) (h' : compare k a ≠ .gt) :
    a = k := by
  have hswap : compare k a = (compare a k).swap := Std.OrientedCmp.eq_swap
  rw [hswap, Ne, Ordering.swap_eq_gt] at h'
  cases hcmp : compare a k with
  | lt => exact absurd hcmp h'
  | eq => exact Std.LawfulEqCmp.eq_of_compare hcmp
  | gt => exact absurd hcmp h

/-- The first key is the least one. -/
theorem first?_key_iff :
    m.first?.map Prod.fst = some k ↔ k ∈ m ∧ ∀ a ∈ m, compare k a ≠ .gt := by
  constructor
  · rw [Option.map_eq_some_iff]
    rintro ⟨⟨k, v⟩, h, rfl⟩
    exact ⟨mem_of_get (get_of_first? h), fun a ha => compare_first? h ha⟩
  · rintro ⟨hk, hle⟩
    cases h : m.first? with
    | none => exact absurd hk (not_mem_of_first?_none h)
    | some e =>
        rw [Option.map_some, eq_of_compare_ne_gt (compare_first? h hk)
          (hle e.1 (mem_of_get (get_of_first? h)))]

/-! ## The last entry -/

/-- The entry with the largest key. -/
def last? (m : FinMap κ β) : Option (κ × β) :=
  m.toList.getLast?

theorem get_of_last? (h : m.last? = some (k, v)) : m[k]? = some v :=
  mem_entries.mp (List.mem_of_getLast? h)

/-- The last key is at least every key. -/
theorem compare_last? (h : m.last? = some (k, v)) (ha : a ∈ m) : compare a k ≠ .gt := by
  obtain ⟨w, hw⟩ := mem_iff_get.mp ha
  have hmem : (a, w) ∈ m.toList := mem_entries.mpr hw
  have hord := m.ordered_keys_toList
  rw [last?, List.getLast?_eq_some_iff] at h
  obtain ⟨init, hinit⟩ := h
  rw [hinit] at hmem hord
  rcases List.mem_append.mp hmem with hmem | hmem
  · rw [(List.pairwise_append.mp hord).2.2 _ hmem _ (List.mem_singleton.mpr rfl)]
    exact nofun
  · rw [(Prod.mk.inj (List.mem_singleton.mp hmem)).1,
      show compare k k = .eq from Std.ReflCmp.compare_self]
    exact nofun

theorem not_mem_of_last?_none (h : m.last? = none) : a ∉ m := by
  intro ha
  obtain ⟨w, hw⟩ := mem_iff_get.mp ha
  rw [last?, List.getLast?_eq_none_iff] at h
  exact absurd (h ▸ mem_entries.mpr hw : (a, w) ∈ []) List.not_mem_nil

/-- The last key is the greatest one. -/
theorem last?_key_iff :
    m.last?.map Prod.fst = some k ↔ k ∈ m ∧ ∀ a ∈ m, compare a k ≠ .gt := by
  constructor
  · rw [Option.map_eq_some_iff]
    rintro ⟨⟨k, v⟩, h, rfl⟩
    exact ⟨mem_of_get (get_of_last? h), fun a ha => compare_last? h ha⟩
  · rintro ⟨hk, hge⟩
    cases h : m.last? with
    | none => exact absurd hk (not_mem_of_last?_none h)
    | some e =>
        rw [Option.map_some, eq_of_compare_ne_gt (hge e.1 (mem_of_get (get_of_last? h)))
          (compare_last? h hk)]

theorem size_erase_of_get (h : m[k]? = some v) : (m.erase k).size + 1 = m.size := by
  have hlen := (entries_perm_erase h).length_eq
  rw [List.length_cons, Std.ExtTreeMap.length_toList, Std.ExtTreeMap.length_toList] at hlen
  exact hlen.symm

theorem size_insert_of_not_mem (h : k ∉ m) : (m.insert k v).size = m.size + 1 := by
  have hlen := (entries_insert_perm (v := v) h).length_eq
  rwa [List.length_cons, Std.ExtTreeMap.length_toList, Std.ExtTreeMap.length_toList] at hlen

omit [Std.LawfulEqOrd κ] in
theorem size_of_first?_none (h : m.first? = none) : m.size = 0 := by
  rw [first?, List.head?_eq_none_iff] at h
  rw [← Std.ExtTreeMap.length_toList, h, List.length_nil]

omit [Std.LawfulEqOrd κ] in
/-- Lists of entries in key order are determined by their members. -/
theorem entries_eq_of_perm {l : List (κ × β)} (hperm : m.toList.Perm l)
    (hord : l.Pairwise fun a b => compare a.1 b.1 = .lt) : m.toList = l := by
  refine hperm.eq_of_pairwise (fun a b _ _ hab hba => ?_) m.ordered_keys_toList hord
  have hswap : compare b.1 a.1 = (compare a.1 b.1).swap := Std.OrientedCmp.eq_swap
  rw [hswap, hab] at hba
  exact absurd hba nofun

/-- A key above all others comes last. -/
theorem entries_insert_last (h : ∀ e ∈ m.toList, compare e.1 k = .lt) :
    (m.insert k v).toList = m.toList ++ [(k, v)] := by
  have hnew : k ∉ m := by
    intro hk
    obtain ⟨w, hw⟩ := mem_iff_get.mp hk
    have hlt : compare k k = .lt := h (k, w) (mem_entries.mpr hw)
    rw [show compare k k = .eq from Std.ReflCmp.compare_self] at hlt
    exact absurd hlt nofun
  refine entries_eq_of_perm ((entries_insert_perm hnew).trans ?_) ?_
  · exact List.perm_append_singleton (k, v) m.toList |>.symm
  · refine List.pairwise_append.mpr ⟨m.ordered_keys_toList, List.pairwise_singleton _ _, ?_⟩
    intro e he e' he'
    rw [List.mem_singleton.mp he']
    exact h e he

/-- Removing the first key leaves the entries after it. -/
theorem entries_erase_first {l : List (κ × β)} (h : m.toList = (k, v) :: l) :
    (m.erase k).toList = l := by
  have hget : m[k]? = some v := mem_entries.mp (h ▸ List.mem_cons_self)
  have hord := m.ordered_keys_toList
  have hperm := entries_perm_erase hget
  rw [h] at hord hperm
  exact entries_eq_of_perm hperm.cons_inv.symm (List.pairwise_cons.mp hord).2

/-! ## Sums over the entries -/

theorem weight_insert (h : k ∉ m) : weight f (m.insert k v) = f k v + weight f m := by
  rw [weight, ((entries_insert_perm h).map _).sum_eq]
  simp [weight]

theorem weight_erase (h : m[k]? = some v) : weight f m = f k v + weight f (m.erase k) := by
  rw [weight, ((entries_perm_erase h).map _).sum_eq]
  simp [weight]

/-- Overwriting an entry exchanges its contribution. -/
theorem weight_update {w : β} (h : m[k]? = some v) :
    weight f (m.insert k w) + f k v = weight f m + f k w := by
  rw [insert_eq_erase_insert, weight_insert not_mem_erase_self, weight_erase h]
  omega

theorem le_weight (h : m[k]? = some v) : f k v ≤ weight f m := by
  rw [weight_erase h]
  omega

theorem exists_of_weight_pos (h : 0 < weight f m) : ∃ k v, m[k]? = some v ∧ 0 < f k v := by
  by_contra hnone
  push Not at hnone
  have hzero : weight f m = 0 := by
    refine List.sum_eq_zero fun x hx => ?_
    obtain ⟨e, he, rfl⟩ := List.mem_map.mp hx
    exact Nat.le_zero.mp (hnone e.1 e.2 (mem_entries.mp he))
  omega

theorem weight_le_size_mul {c : Nat} (h : ∀ k v, m[k]? = some v → f k v ≤ c) :
    weight f m ≤ m.size * c := by
  have hsum := List.sum_le_card_nsmul (m.toList.map fun e => f e.1 e.2) c (by
    intro x hx
    obtain ⟨e, he, rfl⟩ := List.mem_map.mp hx
    exact h e.1 e.2 (mem_entries.mp he))
  rwa [List.length_map, Std.ExtTreeMap.length_toList, smul_eq_mul] at hsum

/-! ## The entries of a list of keys -/

section Keys

variable {q : List κ} {P : β → Prop} [DecidablePred P]

/-- A list without repeats of exactly the keys whose value satisfies `P` visits exactly
the entries that satisfy `P`. -/
theorem filterMap_get_perm (hq : q.Nodup) (hmem : ∀ k, k ∈ q ↔ ∃ v, m[k]? = some v ∧ P v) :
    (q.filterMap (m[·]?)).Perm ((m.toList.filter fun e => P e.2).map Prod.snd) := by
  have hnodup : (q.filterMap fun k => (m[k]?).map (k, ·)).Nodup := by
    refine hq.filterMap fun k k' e he he' => ?_
    obtain ⟨v, -, rfl⟩ := Option.map_eq_some_iff.mp he
    obtain ⟨v', -, hv'⟩ := Option.map_eq_some_iff.mp he'
    exact (Prod.mk.inj hv').1.symm
  have hperm : (q.filterMap fun k => (m[k]?).map (k, ·)).Perm
      (m.toList.filter fun e => P e.2) := by
    refine (List.perm_ext_iff_of_nodup hnodup ((nodup_entries m).filter _)).mpr ?_
    rintro ⟨a, v⟩
    simp only [List.mem_filterMap, Option.map_eq_some_iff, List.mem_filter, mem_entries,
      decide_eq_true_eq]
    constructor
    · rintro ⟨k, hk, w, hw, heq⟩
      cases heq
      obtain ⟨w', hw', hP⟩ := (hmem _).mp hk
      rw [hw] at hw'
      cases hw'
      exact ⟨hw, hP⟩
    · rintro ⟨hv, hP⟩
      exact ⟨a, (hmem a).mpr ⟨v, hv, hP⟩, v, hv, rfl⟩
  simpa [List.map_filterMap, Function.comp_def] using hperm.map Prod.snd

/-- The sum of `g` over the values at such keys. -/
theorem sum_filterMap_get (g : β → Nat) (hq : q.Nodup)
    (hmem : ∀ k, k ∈ q ↔ ∃ v, m[k]? = some v ∧ P v) :
    ((q.filterMap (m[·]?)).map g).sum = weight (fun _ v => if P v then g v else 0) m := by
  rw [((filterMap_get_perm hq hmem).map g).sum_eq, List.map_map, weight]
  induction m.toList with
  | nil => rfl
  | cons e l ih =>
      by_cases hP : P e.2
      · simp [hP, ih]
      · simp [hP, ih]

/-- The number of such keys whose value also satisfies `Q`. -/
theorem countP_filterMap_get (Q : β → Prop) [DecidablePred Q] (hq : q.Nodup)
    (hmem : ∀ k, k ∈ q ↔ ∃ v, m[k]? = some v ∧ P v) :
    (q.filterMap (m[·]?)).countP (fun v => Q v)
      = m.toList.countP fun e => P e.2 ∧ Q e.2 := by
  rw [(filterMap_get_perm hq hmem).countP_eq, List.countP_map, List.countP_filter]
  exact List.countP_congr fun e _ => by simp [and_comm]

/-- In a list in increasing order of `f`, the position of an element is the number of
elements below it. -/
theorem idxOf_eq_countP [DecidableEq κ] {f : κ → Nat} (hq : q.Pairwise fun x y => f x < f y)
    (hk : k ∈ q) : q.idxOf k = q.countP fun x => f x < f k := by
  induction q with
  | nil => cases hk
  | cons a q ih =>
      obtain ⟨ha, hq⟩ := List.pairwise_cons.mp hq
      by_cases hak : a = k
      · subst hak
        have hnone : q.countP (fun x => decide (f x < f a)) = 0 :=
          List.countP_eq_zero.mpr fun x hx => by simpa using (ha x hx).le
        simp [hnone]
      · have hk' : k ∈ q := (List.mem_cons.mp hk).resolve_left (Ne.symm hak)
        rw [List.idxOf_cons_ne _ hak, ih hq hk',
          List.countP_cons_of_pos (by simpa using ha k hk')]

end Keys

/-! ## Images -/

section Image

variable {n : FinMap κ γ} {g : γ → β} {w : γ}

theorem get_map : (n.map fun _ w => g w)[k]? = (n[k]?).map g :=
  Std.ExtTreeMap.getElem?_map

theorem map_insert :
    (n.insert k w).map (fun _ w => g w) = (n.map fun _ w => g w).insert k (g w) := by
  classical
  refine Std.ExtTreeMap.ext_getElem? fun {a} => ?_
  rw [get_map, get_insert, get_insert, get_map]
  split <;> rfl

theorem map_erase : (n.erase k).map (fun _ w => g w) = (n.map fun _ w => g w).erase k := by
  classical
  refine Std.ExtTreeMap.ext_getElem? fun {a} => ?_
  rw [get_map, get_erase, get_erase, get_map]
  split <;> rfl

end Image

end FinMap

end Lib
