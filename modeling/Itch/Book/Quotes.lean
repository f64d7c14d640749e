import Mathlib.Order.Bounds.Basic
import Itch.Lib.Run
import Itch.Book.Orphans

/-!
# Reported levels

What a reader sees of an L2 book are its levels, best first, and the best level of each
side.  A level should be reported exactly if somebody offers shares there, with a positive
total.  Two things can spoil that.  An order of no shares lists its price: `add_order`
creates the level whatever the size, while `reduce_level` is careful to drop a level that
reaches zero.  And a total that has saturated understates its level, which is then dropped
while shares remain.

Both are conditions on the book and the operation at hand, so `WellQuoted` is followed from
message to message.  `LevelOk` is the property at one level, an arithmetic fact about the
listed total and the open shares there.
-/

namespace Itch

open Lib

namespace L2Book

/-! ## Queries -/

/-- Highest bid level and its total. -/
def bestBid (b : L2Book) : Option (Price4 × Nat) :=
  FinMap.last? b.bids

/-- Lowest ask level and its total. -/
def bestAsk (b : L2Book) : Option (Price4 × Nat) :=
  FinMap.first? b.asks

/-- The levels of a side from best to worst. -/
def iterLevels (b : L2Book) : Side → List (Price4 × Nat)
  | .buy => b.bids.toList.reverse
  | .sell => b.asks.toList

/-- An open order with shares left stands at the price. -/
def Offered (b : L2Book) (side : Side) (price : Price4) : Prop :=
  ∃ (r : OrderReference) (e : OrderEntry),
    b.orders[r]? = some e ∧ e.side = side ∧ e.price = price ∧ 0 < e.shares

/-- The reported levels are the offers, with positive totals, and the best levels are the
best offers. -/
structure WellQuoted (b : L2Book) : Prop where
  levels_pos : ∀ side, ∀ level ∈ b.iterLevels side, 0 < level.2
  bestBid_pos : ∀ level ∈ b.bestBid, 0 < level.2
  bestAsk_pos : ∀ level ∈ b.bestAsk, 0 < level.2
  listed_iff : ∀ side price, price ∈ (b.iterLevels side).map Prod.fst ↔ b.Offered side price
  bestBid_iff : ∀ price,
    b.bestBid.map Prod.fst = some price ↔ IsGreatest {p | b.Offered .buy p} price
  bestAsk_iff : ∀ price,
    b.bestAsk.map Prod.fst = some price ↔ IsLeast {p | b.Offered .sell p} price

/-! ## One level -/

/-- A level is listed exactly if there are open shares, and then with a positive total. -/
def LevelOk (level : Option Nat) (shares : Nat) : Prop :=
  (∀ total ∈ level, 0 < total) ∧ (level.isSome ↔ 0 < shares)

section Level

variable {level : Option Nat} {shares k : Nat}

/-- Taking shares off a level keeps it right unless that drops it while shares remain. -/
theorem levelOk_take_iff (h : LevelOk level shares) (hle : level.getD 0 ≤ shares) (hk : k ≤ shares) :
    LevelOk (level.bind fun total => if total - k = 0 then none else some (total - k)) (shares - k)
      ↔ ¬ (level.getD 0 ≤ k ∧ k < shares) := by
  cases level with
  | none =>
      have hzero : shares = 0 := by
        by_contra hne
        exact absurd (h.2.mpr (Nat.pos_of_ne_zero hne)) nofun
      subst hzero
      simp [LevelOk]
  | some total =>
      rw [Option.getD_some] at hle
      rw [Option.bind_some, Option.getD_some]
      by_cases hdrop : total - k = 0
      · simp only [hdrop, if_true, LevelOk, Option.isSome_none]
        simp
        omega
      · simp only [hdrop, if_false, LevelOk, Option.isSome_some]
        simp
        omega

/-- Adding shares keeps a level right unless it is an empty one. -/
theorem levelOk_add_iff (hpos : ∀ total ∈ level, 0 < total) (hle : level.getD 0 ≤ shares) :
    LevelOk (some (saturatingAdd (level.getD 0) k)) (shares + k) ↔ ¬ (k = 0 ∧ level = none) := by
  cases level with
  | none =>
      simp [LevelOk, saturatingAdd]
      omega
  | some total =>
      have htotal := hpos total rfl
      rw [Option.getD_some] at hle ⊢
      simp [LevelOk, saturatingAdd]
      omega

end Level

/-! ## Levels and offers -/

section Levels

variable {b : L2Book} {side side' : Side} {price price' : Price4}

/-- The level at the price is right. -/
def HonestAt (b : L2Book) (side : Side) (price : Price4) : Prop :=
  LevelOk (b.levels side)[price]? (openShares b.orders side price)

theorem offered_iff : b.Offered side price ↔ 0 < openShares b.orders side price := by
  constructor
  · rintro ⟨r, e, hget, rfl, rfl, hpos⟩
    have hle : e.sharesAt e.side e.price ≤ openShares b.orders e.side e.price :=
      FinMap.le_weight (f := fun _ x => OrderEntry.sharesAt e.side e.price x) hget
    rw [OrderEntry.sharesAt_self] at hle
    exact lt_of_lt_of_le (UInt32.lt_iff_toNat_lt.mp hpos) hle
  · intro hpos
    obtain ⟨r, e, hget, hpos⟩ := FinMap.exists_of_weight_pos hpos
    obtain ⟨rfl, rfl⟩ := OrderEntry.eq_of_sharesAt_pos hpos
    rw [OrderEntry.sharesAt_self] at hpos
    exact ⟨r, e, hget, rfl, rfl, UInt32.lt_iff_toNat_lt.mpr hpos⟩

theorem mem_iterLevels {total : Nat} :
    (price, total) ∈ b.iterLevels side ↔ (b.levels side)[price]? = some total := by
  cases side with
  | buy => exact List.mem_reverse.trans FinMap.mem_entries
  | sell => exact FinMap.mem_entries

theorem mem_iterLevels_prices :
    price ∈ (b.iterLevels side).map Prod.fst ↔ price ∈ b.levels side := by
  rw [FinMap.mem_iff_get, List.mem_map]
  constructor
  · rintro ⟨⟨price, total⟩, hmem, rfl⟩
    exact ⟨total, mem_iterLevels.mp hmem⟩
  · rintro ⟨total, hget⟩
    exact ⟨(price, total), mem_iterLevels.mpr hget, rfl⟩

/-- A book is well quoted exactly if each of its levels is right: the best levels follow from
the order of the map. -/
theorem wellQuoted_iff : b.WellQuoted ↔ ∀ side price, b.HonestAt side price := by
  constructor
  · intro h side price
    refine ⟨fun total htotal => h.levels_pos side (price, total) (mem_iterLevels.mpr htotal), ?_⟩
    rw [← Std.ExtTreeMap.mem_iff_isSome_getElem?, ← offered_iff, ← h.listed_iff,
      mem_iterLevels_prices]
  · intro h
    have hmem : ∀ side price, price ∈ b.levels side ↔ b.Offered side price := fun side price => by
      rw [offered_iff, ← (h side price).2, Std.ExtTreeMap.mem_iff_isSome_getElem?]
    exact
      { levels_pos := fun side level hlevel =>
          (h side level.1).1 level.2 (mem_iterLevels.mp hlevel)
        bestBid_pos := fun level hlevel =>
          (h .buy level.1).1 level.2 (FinMap.get_of_last? hlevel)
        bestAsk_pos := fun level hlevel =>
          (h .sell level.1).1 level.2 (FinMap.get_of_first? hlevel)
        listed_iff := fun side price => mem_iterLevels_prices.trans (hmem side price)
        bestBid_iff := fun price => by
          rw [bestBid, FinMap.last?_key_iff]
          refine and_congr (hmem .buy price) (forall_congr' fun p => imp_congr (hmem .buy p) ?_)
          rw [Ne, Std.compare_eq_gt, UInt32.not_lt]
        bestAsk_iff := fun price => by
          rw [bestAsk, FinMap.first?_key_iff]
          refine and_congr (hmem .sell price) (forall_congr' fun p => imp_congr (hmem .sell p) ?_)
          rw [Ne, Std.compare_eq_gt, UInt32.not_lt] }

end Levels

/-! ## One operation -/

/-- Listed levels have positive totals. -/
def Positive (b : L2Book) : Prop :=
  ∀ (side : Side) (price : Price4), ∀ total ∈ (b.levels side)[price]?, 0 < total

/-- Taking `k` shares off a level would drop it while open shares remain there.  That takes a
total below the open shares, hence one that has saturated. -/
def DropsEarly (b : L2Book) (side : Side) (price : Price4) (k : Nat) : Prop :=
  b.total side price ≤ k ∧ k < openShares b.orders side price

/-- Entering an order of `n` shares would list an empty level. -/
def ListsEmpty (b : L2Book) (side : Side) (n : UInt32) (price : Price4) : Prop :=
  n = 0 ∧ price ∉ b.levels side

/-- The operation lists an empty level, or drops a level while open shares remain there. -/
def Spoils (b : L2Book) : BookOp → Prop
  | .add _ side n price _ => b.ListsEmpty side n price
  | .execute r n => ∃ e ∈ b.orders[r]?, n ≤ e.shares ∧ b.DropsEarly e.side e.price n.toNat
  | .cancel r n => ∃ e ∈ b.orders[r]?, n ≤ e.shares ∧ b.DropsEarly e.side e.price n.toNat
  | .delete r => ∃ e ∈ b.orders[r]?, b.DropsEarly e.side e.price e.shares.toNat
  -- a replacement with shares at the price of the original lists a dropped level again
  | .replace r _ n price => ∃ e ∈ b.orders[r]?, (b.delete r).ListsEmpty e.side n price ∨
      (price ≠ e.price ∧ b.DropsEarly e.side e.price e.shares.toNat)

instance (b : L2Book) (side : Side) (price : Price4) (k : Nat) :
    Decidable (b.DropsEarly side price k) :=
  inferInstanceAs (Decidable (_ ∧ _))

instance (b : L2Book) (side : Side) (n : UInt32) (price : Price4) :
    Decidable (b.ListsEmpty side n price) :=
  inferInstanceAs (Decidable (_ ∧ _))

instance (b : L2Book) : DecidablePred b.Spoils
  | .add _ side n price _ => inferInstanceAs (Decidable (b.ListsEmpty side n price))
  | .execute r n => inferInstanceAs (Decidable (∃ e ∈ b.orders[r]?, n ≤ e.shares ∧
      b.DropsEarly e.side e.price n.toNat))
  | .cancel r n => inferInstanceAs (Decidable (∃ e ∈ b.orders[r]?, n ≤ e.shares ∧
      b.DropsEarly e.side e.price n.toNat))
  | .delete r => inferInstanceAs (Decidable (∃ e ∈ b.orders[r]?,
      b.DropsEarly e.side e.price e.shares.toNat))
  | .replace r _ n price => inferInstanceAs (Decidable (∃ e ∈ b.orders[r]?,
      (b.delete r).ListsEmpty e.side n price ∨
        (price ≠ e.price ∧ b.DropsEarly e.side e.price e.shares.toNat)))

/-- Every level of the book is right, and the open orders cover the levels. -/
structure Honest (b : L2Book) : Prop where
  covered : b.Covered
  level : ∀ side price, b.HonestAt side price

section Moves

variable {b : L2Book} {r : OrderReference} {e : OrderEntry} {side side' : Side}
  {price price' : Price4} {n : UInt32} {k : Nat} {o : FinMap OrderReference OrderEntry}

theorem Honest.positive (h : b.Honest) : b.Positive :=
  fun side price => (h.level side price).1

theorem get_levels_addOrder :
    ((b.addOrder r side n price).levels side')[price']? =
      if side = side' ∧ price = price' then some (saturatingAdd (b.total side price) n.toNat)
      else (b.levels side')[price']? := by
  rw [levels_addOrder]
  by_cases hs : side = side'
  · subst hs
    rw [if_pos rfl, FinMap.get_insert]
    simp only [true_and]
    rfl
  · rw [if_neg hs, if_neg fun h => hs h.1]

theorem get_levels_reduce :
    ((b.reduce side price k).levels side')[price']? =
      if side = side' ∧ price = price' then
        ((b.levels side)[price]?).bind fun total =>
          if total - k = 0 then none else some (total - k)
      else (b.levels side')[price']? := by
  rw [levels_reduce]
  by_cases hs : side = side'
  · subst hs
    rw [if_pos rfl, get_reduceLevel]
    by_cases hp : price = price'
    · subst hp
      simp
    · simp [hp]
  · rw [if_neg hs, if_neg fun h => hs h.1]

/-- An entered order changes its own level only. -/
theorem honestAt_addOrder_iff (hpos : b.Positive) (hcov : b.Covered) (hfresh : r ∉ b.orders) :
    (b.addOrder r side n price).HonestAt side' price' ↔
      if side = side' ∧ price = price' then ¬ b.ListsEmpty side n price
      else b.HonestAt side' price' := by
  rw [HonestAt, get_levels_addOrder, openShares_addOrder hfresh]
  split
  next hsp =>
    obtain ⟨rfl, rfl⟩ := hsp
    have hzero : n = 0 ↔ n.toNat = 0 := by rw [← UInt32.toNat_inj, UInt32.toNat_zero]
    rw [total, levelOk_add_iff (hpos _ _) (hcov.total_le _ _), ListsEmpty, hzero, FinMap.mem_iff_get,
      ← Option.isSome_iff_exists, Option.not_isSome_iff_eq_none]
  next => rfl

/-- The index `o` is the one of the book with `k` shares of the order `e` taken off. -/
structure Takes (b : L2Book) (r : OrderReference) (e : OrderEntry) (k : Nat)
    (o : FinMap OrderReference OrderEntry) : Prop where
  get : b.orders[r]? = some e
  sum : ∀ side price, openShares o side price +
    (if e.side = side ∧ e.price = price then k else 0) = openShares b.orders side price
  keep : ∀ r', r ≠ r' → o[r']? = b.orders[r']?

theorem takes_erase (hget : b.orders[r]? = some e) :
    b.Takes r e e.shares.toNat (b.orders.erase r) where
  get := hget
  sum := openShares_erase hget
  keep := fun r' hne => by rw [FinMap.get_erase, if_neg hne]

theorem takes_update (hget : b.orders[r]? = some e) (hle : n ≤ e.shares) :
    b.Takes r e n.toNat (b.orders.insert r { e with shares := e.shares - n }) where
  get := hget
  sum := openShares_update hget hle
  keep := fun r' hne => by rw [FinMap.get_insert, if_neg hne]

theorem Positive.take (h : b.Positive) :
    ({ b with orders := o }.reduce e.side e.price k).Positive := by
  intro side price total htotal
  rw [get_levels_reduce, levels_setOrders, levels_setOrders] at htotal
  split at htotal
  next =>
    obtain ⟨old, -, hold⟩ := Option.bind_eq_some_iff.mp htotal
    split at hold
    next => cases hold
    next hne =>
      cases hold
      exact Nat.pos_of_ne_zero hne
  next => exact h side price total htotal

/-- Taking shares off an order changes its own level only. -/
theorem Takes.honestAt_iff (ht : b.Takes r e k o) (h : b.Honest) :
    ({ b with orders := o }.reduce e.side e.price k).HonestAt side price ↔
      (e.side = side ∧ e.price = price → ¬ b.DropsEarly e.side e.price k) := by
  have hsum := ht.sum side price
  rw [HonestAt, get_levels_reduce, levels_setOrders, levels_setOrders, reduce_orders]
  show LevelOk _ (openShares o side price) ↔ _
  by_cases hsp : e.side = side ∧ e.price = price
  · obtain ⟨rfl, rfl⟩ := hsp
    rw [if_pos ⟨rfl, rfl⟩] at hsum ⊢
    have hopen : openShares o e.side e.price = openShares b.orders e.side e.price - k := by omega
    rw [hopen, levelOk_take_iff (h.level _ _) (h.covered.total_le _ _) (by omega)]
    exact ⟨fun h _ => h, fun h => h ⟨rfl, rfl⟩⟩
  · rw [if_neg hsp] at hsum ⊢
    rw [show openShares o side price = openShares b.orders side price by omega]
    exact iff_of_true (h.level side price) fun h => absurd h hsp

theorem Takes.honest_iff (ht : b.Takes r e k o) (h : b.Honest) :
    ({ b with orders := o }.reduce e.side e.price k).Honest ↔
      ¬ b.DropsEarly e.side e.price k :=
  ⟨fun h' => (ht.honestAt_iff h).mp (h'.level _ _) ⟨rfl, rfl⟩,
    fun hdrop => ⟨h.covered.take ht.get ht.sum ht.keep,
      fun _ _ => (ht.honestAt_iff h).mpr fun _ => hdrop⟩⟩

end Moves

section Steps

variable {b : L2Book} {r r' : OrderReference} {n : UInt32} {price : Price4}

/-- The new reference of a replace is fresh once the original is gone. -/
theorem fresh_delete (hget : r ∈ b.orders) (hfresh : r ∈ b.orders → r' ≠ r → r' ∉ b.orders) :
    r' ∉ (b.delete r).orders := by
  rw [delete_orders, FinMap.mem_erase_iff]
  rintro ⟨hne, hmem⟩
  exact hfresh hget hne.symm hmem

theorem Honest.execute_iff (h : b.Honest) :
    (b.execute r n).2.Honest ↔
      ¬ ∃ e ∈ b.orders[r]?, n ≤ e.shares ∧ b.DropsEarly e.side e.price n.toNat := by
  cases hget : b.orders[r]? with
  | none =>
      rw [execute_of_none hget]
      exact iff_of_true h (by simp)
  | some e =>
      simp only [Option.mem_some_iff, exists_eq_left']
      rcases Word32.lt_or_eq_or_gt e.shares n with hlt | rfl | hlt
      · rw [execute_of_lt hget hlt]
        exact iff_of_true h fun hd => UInt32.not_lt.mpr hd.1 hlt
      · rw [execute_fully hget, (takes_erase hget).honest_iff h,
          and_iff_right (UInt32.le_refl _)]
      · have hle := UInt32.le_of_lt hlt
        rw [execute_partly hget hlt, (takes_update hget hle).honest_iff h,
          and_iff_right hle]

theorem Honest.delete_iff (h : b.Honest) :
    (b.delete r).Honest ↔
      ¬ ∃ e ∈ b.orders[r]?, b.DropsEarly e.side e.price e.shares.toNat := by
  cases hget : b.orders[r]? with
  | none =>
      rw [delete_of_none hget]
      exact iff_of_true h (by simp)
  | some e =>
      simp only [Option.mem_some_iff, exists_eq_left']
      rw [delete_of_some hget, (takes_erase hget).honest_iff h]

/-- A replace is a removal, which may leave the level of the original wrong, and an entry,
which may put that level right again. -/
theorem Honest.replace_iff (h : b.Honest) (hfresh : r ∈ b.orders → r' ≠ r → r' ∉ b.orders) :
    (b.replace r r' n price).2.Honest ↔
      ¬ ∃ e ∈ b.orders[r]?, (b.delete r).ListsEmpty e.side n price ∨
        (price ≠ e.price ∧ b.DropsEarly e.side e.price e.shares.toNat) := by
  cases hget : b.orders[r]? with
  | none =>
      rw [replace_of_none hget]
      exact iff_of_true h (by simp)
  | some e =>
      simp only [Option.mem_some_iff, exists_eq_left']
      have ht := takes_erase hget
      have hcov : (b.delete r).Covered := h.covered.delete
      have hpos : (b.delete r).Positive := by
        rw [delete_of_some hget]
        exact h.positive.take
      have hfresh' := fresh_delete (FinMap.mem_of_get hget) hfresh
      have hdelete : ∀ side price, (b.delete r).HonestAt side price ↔
          (e.side = side ∧ e.price = price → ¬ b.DropsEarly e.side e.price e.shares.toNat) := by
        intro side price
        rw [delete_of_some hget]
        exact ht.honestAt_iff h
      rw [replace_of_some hget, not_or, not_and]
      constructor
      · intro h'
        refine ⟨?_, fun hne => ?_⟩
        · have hlevel := (honestAt_addOrder_iff hpos hcov hfresh').mp (h'.level e.side price)
          rwa [if_pos ⟨rfl, rfl⟩] at hlevel
        · have hlevel := (honestAt_addOrder_iff hpos hcov hfresh').mp (h'.level e.side e.price)
          rw [if_neg fun heq => hne heq.2] at hlevel
          exact (hdelete _ _).mp hlevel ⟨rfl, rfl⟩
      · rintro ⟨hempty, hdrop⟩
        refine ⟨hcov.addOrder hfresh', fun side' price' => ?_⟩
        rw [honestAt_addOrder_iff hpos hcov hfresh']
        split
        next => exact hempty
        next hne =>
          refine (hdelete _ _).mpr ?_
          rintro ⟨rfl, rfl⟩
          exact hdrop fun heq => hne ⟨rfl, heq⟩

theorem Honest.addOrder_iff (h : b.Honest) (hfresh : r ∉ b.orders) {side : Side} :
    (b.addOrder r side n price).Honest ↔ ¬ b.ListsEmpty side n price := by
  have hlevel : ∀ {side' price'}, (b.addOrder r side n price).HonestAt side' price' ↔ _ :=
    honestAt_addOrder_iff h.positive h.covered hfresh
  constructor
  · intro h'
    have hempty := hlevel.mp (h'.level side price)
    rwa [if_pos ⟨rfl, rfl⟩] at hempty
  · intro hempty
    refine ⟨h.covered.addOrder hfresh, fun side' price' => hlevel.mpr ?_⟩
    split
    next => exact hempty
    next => exact h.level side' price'

theorem Honest.step_iff (h : b.Honest) {op : BookOp} (hfresh : op.Fresh (· ∈ b.orders)) :
    (b.step op).2.Honest ↔ ¬ b.Spoils op := by
  cases op with
  | add r side n price mpid => exact h.addOrder_iff hfresh
  | execute r n => exact h.execute_iff
  | cancel r n => exact h.execute_iff
  | delete r => exact h.delete_iff
  | replace r r' n price => exact h.replace_iff hfresh

/-- A message keeps every level right exactly if its operation spoils none. -/
theorem Honest.apply_iff (h : b.Honest) {m : Message}
    (hfresh : m.AddsFresh b.stockLocate (· ∈ b.orders)) :
    (b.apply m).2.Honest ↔ ∀ op ∈ m.op b.stockLocate, ¬ b.Spoils op := by
  cases hop : m.op b.stockLocate with
  | none =>
      rw [apply_of_no_op hop]
      exact iff_of_true h nofun
  | some op =>
      rw [apply_of_op hop, h.step_iff (hfresh.op hop)]
      simp

end Steps

/-! ## Runs -/

theorem freshFeed_iff_along {b : L2Book} {msgs : List Message} :
    b.FreshFeed msgs ↔ Along (fun b m => (b.apply m).2)
      (fun b m => m.AddsFresh b.stockLocate (· ∈ b.orders)) b msgs :=
  along_iff (fun _ => trivial) fun _ _ _ => Iff.rfl

/-- No message of the feed lists an empty level or drops a level while shares remain there. -/
def SoundFeed (b : L2Book) (msgs : List Message) : Prop :=
  Along (fun b m => (b.apply m).2) (fun b m => ∀ op ∈ m.op b.stockLocate, ¬ b.Spoils op) b msgs

instance (b : L2Book) (msgs : List Message) : Decidable (b.FreshFeed msgs) :=
  decidable_of_iff _ freshFeed_iff_along.symm

instance (b : L2Book) (msgs : List Message) : Decidable (b.SoundFeed msgs) :=
  inferInstanceAs (Decidable (Along _ _ _ _))

/-- While the totals are exact, no level is dropped early. -/
theorem Exact.not_dropsEarly {b : L2Book} (h : b.Exact) (side : Side) (price : Price4) (k : Nat) :
    ¬ b.DropsEarly side price k := by
  rintro ⟨hle, hlt⟩
  rw [h.total_eq] at hle
  exact absurd hlt (Nat.not_lt.mpr hle)

theorem honest_new (locate : StockLocate) : (new locate).Honest where
  covered := covered_new locate
  level side price := by cases side <;> simp [HonestAt, LevelOk, levels, new, openShares]

/-- On a feed that adds no live reference, errors included, the reported levels are the
offers, each with a positive total, and the best levels are the best offers, at every point
exactly if no message lists an empty level or drops a level while shares remain there.  With
fewer than `2 ^ 32` open orders, no message can do the second. -/
theorem wellQuoted_iff_soundFeed (locate : StockLocate) (msgs : List Message)
    (hfresh : (new locate).FreshFeed msgs) :
    ((∀ before, before <+: msgs → ((new locate).run before).WellQuoted) ↔
      (new locate).SoundFeed msgs) ∧
    ((new locate).CleanFeed msgs → ∀ before, before <+: msgs →
      ∀ side price k, ¬ ((new locate).run before).DropsEarly side price k) := by
  constructor
  · refine forall_prefix_iff_along (freshFeed_iff_along.mp hfresh) (honest_new locate) ?_ ?_ ?_
    · exact fun b h => wellQuoted_iff.mpr h.level
    · exact fun b m h hm hsound => (h.apply_iff hm).mpr hsound
    · exact fun b m h hm hquoted =>
        (h.apply_iff hm).mp ⟨h.covered.apply hm, wellQuoted_iff.mp hquoted⟩
  · rintro hclean before ⟨after, rfl⟩
    exact ((exact_new locate).run (cleanFeed_append.mp hclean).1).not_dropsEarly

/-- The sample feed enters no empty order, and its best bid is a positive one. -/
theorem wellQuoted_sampleFeed :
    ((new 1).run sampleFeed).bestBid = some (100, 60) ∧
    ((new 1).run sampleFeed).WellQuoted :=
  ⟨by decide +kernel,
    (wellQuoted_iff_soundFeed 1 sampleFeed (by decide +kernel)).1.mpr (by decide +kernel)
      sampleFeed (List.prefix_refl _)⟩

/-- An order of no shares. -/
def emptyOrderMsg : Message :=
  .addOrder { header := ⟨1, 0, 0⟩, orderRef := 1, side := .buy, shares := 0,
              stock := Vector.replicate 8 ' '.toUInt8, price := 10 }

/-- An order of no shares is entered into an empty book: its price becomes the best bid, with
a total of zero. -/
theorem empty_order_quoted :
    (new 1).FreshFeed [emptyOrderMsg] ∧
    ((new 1).run [emptyOrderMsg]).bestBid = some (10, 0) ∧
    ((new 1).run [emptyOrderMsg]).iterLevels .buy = [(10, 0)] := by
  decide +kernel

end L2Book

end Itch
