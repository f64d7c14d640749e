import Itch.Book.L2

/-!
# Level totals of the L2 book are exact

The level totals and the order index are separate maps.  `Exact` ties them together:
at every side and price the total is the sum of the open shares there, and a listed
price has an open order.  Every mutator is one of two moves, opening an order or
taking shares off one, and each move keeps the two maps in step.  As long as there
are fewer than `2 ^ 32` open orders, no sum reaches `2 ^ 64`, so neither saturating
operation ever saturates.
-/

namespace Itch

open Lib

/-- The shares an order contributes to a level. -/
def OrderEntry.sharesAt (side : Side) (price : Price4) (e : OrderEntry) : Nat :=
  if e.side = side ∧ e.price = price then e.shares.toNat else 0

/-- The sum of the open shares at a level. -/
def openShares (orders : FinMap OrderReference OrderEntry) (side : Side) (price : Price4) : Nat :=
  FinMap.weight (fun _ e => e.sharesAt side price) orders

namespace OrderEntry

variable {e : OrderEntry} {side : Side} {price : Price4}

theorem sharesAt_le : e.sharesAt side price ≤ 2 ^ 32 - 1 := by
  have := e.shares.toNat_lt
  unfold sharesAt
  split <;> omega

@[simp] theorem sharesAt_self : e.sharesAt e.side e.price = e.shares.toNat := by
  simp [sharesAt]

theorem eq_of_sharesAt_pos (h : 0 < e.sharesAt side price) : e.side = side ∧ e.price = price := by
  unfold sharesAt at h
  split at h
  next hm => exact hm
  next => omega

end OrderEntry

namespace L2Book

/-- The total of a level, `0` if it is not listed. -/
def total (b : L2Book) (side : Side) (price : Price4) : Nat :=
  (b.levels side)[price]?.getD 0

/-- The levels agree with the order index. -/
structure Exact (b : L2Book) : Prop where
  /-- Totals are sums of open shares. -/
  total_eq : ∀ side price, b.total side price = openShares b.orders side price
  /-- A listed price has an open order. -/
  listed : ∀ side price, price ∈ b.levels side →
    ∃ (r : OrderReference) (e : OrderEntry), b.orders[r]? = some e ∧ e.side = side ∧ e.price = price

/-! ## Saturation -/

/-- Opening an order would saturate the total of its level. -/
def AddSaturates (b : L2Book) (side : Side) (shares : UInt32) (price : Price4) : Prop :=
  2 ^ 64 ≤ b.total side price + shares.toNat

/-- Reducing a level would saturate its total. -/
def ReduceSaturates (b : L2Book) (side : Side) (price : Price4) (shares : Nat) : Prop :=
  ∃ level, (b.levels side)[price]? = some level ∧ level < shares

/-- Executing shares of an order would saturate the total of its level. -/
def ExecuteSaturates (b : L2Book) (orderRef : OrderReference) (shares : UInt32) : Prop :=
  ∃ entry, b.orders[orderRef]? = some entry ∧ ¬ entry.shares < shares ∧
    b.ReduceSaturates entry.side entry.price shares.toNat

/-- Deleting an order would saturate the total of its level. -/
def DeleteSaturates (b : L2Book) (orderRef : OrderReference) : Prop :=
  ∃ entry, b.orders[orderRef]? = some entry ∧
    b.ReduceSaturates entry.side entry.price entry.shares.toNat

/-- Replacing an order would saturate the level it leaves or the level it joins. -/
def ReplaceSaturates (b : L2Book) (originalRef : OrderReference) (newShares : UInt32)
    (newPrice : Price4) : Prop :=
  ∃ original, b.orders[originalRef]? = some original ∧
    (b.ReduceSaturates original.side original.price original.shares.toNat ∨
      ({ b with orders := b.orders.erase originalRef }.reduce original.side original.price
        original.shares.toNat).AddSaturates original.side newShares newPrice)

/-- Applying the message runs a saturating operation that saturates. -/
def Saturates (b : L2Book) : Message → Prop
  | .addOrder m => m.header.stockLocate = b.stockLocate ∧ b.AddSaturates m.side m.shares m.price
  | .addOrderWithMpid m =>
      m.header.stockLocate = b.stockLocate ∧ b.AddSaturates m.side m.shares m.price
  | .orderExecuted m => b.ExecuteSaturates m.orderRef m.executedShares
  | .orderExecutedWithPrice m => b.ExecuteSaturates m.orderRef m.executedShares
  | .orderCancel m => b.ExecuteSaturates m.orderRef m.cancelledShares
  | .orderDelete m => b.DeleteSaturates m.orderRef
  | .orderReplace m => b.ReplaceSaturates m.originalOrderRef m.shares m.price
  | _ => False

/-! ## Totals after a move -/

section Totals

variable {b : L2Book} {side side' : Side} {price price' : Price4} {shares : Nat}

theorem total_addOrder {r : OrderReference} {n : UInt32} (h : ¬ b.AddSaturates side n price) :
    (b.addOrder r side n price).total side' price' =
      b.total side' price' + if side = side' ∧ price = price' then n.toNat else 0 := by
  have hlt : b.total side price + n.toNat < 2 ^ 64 := Nat.lt_of_not_le h
  unfold total at hlt ⊢
  rw [levels_addOrder]
  by_cases hs : side = side'
  · subst hs
    rw [if_pos rfl, FinMap.get_insert]
    by_cases hp : price = price'
    · subst hp
      simp only [if_true, and_self, Option.getD_some, saturatingAdd]
      omega
    · simp [hp]
  · simp [hs]

theorem mem_levels_addOrder {r : OrderReference} {n : UInt32} :
    price' ∈ (b.addOrder r side n price).levels side' ↔
      (side = side' ∧ price = price') ∨ price' ∈ b.levels side' := by
  rw [levels_addOrder]
  by_cases hs : side = side'
  · subst hs
    rw [if_pos rfl, FinMap.mem_insert_iff]
    simp
  · simp [hs]

theorem get_reduceLevel {ls : FinMap Price4 Nat} :
    (reduceLevel ls price shares)[price']? =
      if price = price' then
        ls[price']?.bind fun level => if level - shares = 0 then none else some (level - shares)
      else ls[price']? := by
  unfold reduceLevel saturatingSub
  cases hg : ls[price]? with
  | none =>
      by_cases hp : price = price'
      · subst hp
        simp [hg]
      · simp [hp]
  | some level =>
      by_cases hz : level - shares = 0
      · by_cases hp : price = price'
        · subst hp
          simp [hg, hz]
        · simp [FinMap.get_erase, hz, hp]
      · by_cases hp : price = price'
        · subst hp
          simp [hg, hz]
        · simp [FinMap.get_insert, hz, hp]

theorem total_reduce :
    (b.reduce side price shares).total side' price' =
      b.total side' price' - if side = side' ∧ price = price' then shares else 0 := by
  unfold total
  rw [levels_reduce]
  by_cases hs : side = side'
  · subst hs
    rw [if_pos rfl, get_reduceLevel]
    by_cases hp : price = price'
    · subst hp
      cases (b.levels side)[price]? with
      | none => simp
      | some level =>
          by_cases hz : level - shares = 0
          · simp [hz]
          · simp [hz]
    · simp [hp]
  · simp [hs]

/-- A reduced level stays listed only with a positive total. -/
theorem total_pos_of_mem_reduce (h : price ∈ (b.reduce side price shares).levels side) :
    0 < (b.reduce side price shares).total side price := by
  unfold total
  rw [levels_reduce, if_pos rfl] at h ⊢
  obtain ⟨level, hl⟩ := FinMap.mem_iff_get.mp h
  rw [hl, Option.getD_some]
  rw [get_reduceLevel, if_pos rfl, Option.bind_eq_some_iff] at hl
  obtain ⟨old, -, hold⟩ := hl
  split at hold
  next => cases hold
  next hne =>
    cases hold
    exact Nat.pos_of_ne_zero hne

theorem mem_levels_of_reduce (hne : ¬ (side = side' ∧ price = price'))
    (h : price' ∈ (b.reduce side price shares).levels side') : price' ∈ b.levels side' := by
  rw [levels_reduce] at h
  by_cases hs : side = side'
  · subst hs
    rw [if_pos rfl] at h
    obtain ⟨level, hl⟩ := FinMap.mem_iff_get.mp h
    rw [get_reduceLevel, if_neg fun hp => hne ⟨rfl, hp⟩] at hl
    exact FinMap.mem_of_get hl
  · rwa [if_neg hs] at h

end Totals

/-! ## Moves -/

section Moves

variable {b : L2Book} {r : OrderReference} {e : OrderEntry}

theorem exact_new (locate : StockLocate) : (new locate).Exact where
  total_eq side price := by cases side <;> simp [total, levels, new, openShares]
  listed side price h := by cases side <;> simp [levels, new] at h

/-- The open shares with a new order. -/
theorem openShares_addOrder {side side' : Side} {n : UInt32} {price price' : Price4}
    (hfresh : r ∉ b.orders) :
    openShares (b.addOrder r side n price).orders side' price' =
      openShares b.orders side' price' + if side = side' ∧ price = price' then n.toNat else 0 := by
  rw [addOrder_orders, openShares, FinMap.weight_insert hfresh, openShares, Nat.add_comm]
  rfl

/-- The open shares without one order. -/
theorem openShares_erase (hget : b.orders[r]? = some e) (side : Side) (price : Price4) :
    openShares (b.orders.erase r) side price +
      (if e.side = side ∧ e.price = price then e.shares.toNat else 0)
        = openShares b.orders side price := by
  rw [openShares, openShares, FinMap.weight_erase hget, Nat.add_comm]
  rfl

/-- The open shares after some are taken off one order. -/
theorem openShares_update (hget : b.orders[r]? = some e) {n : UInt32} (hn : n ≤ e.shares)
    (side : Side) (price : Price4) :
    openShares (b.orders.insert r { e with shares := e.shares - n }) side price +
      (if e.side = side ∧ e.price = price then n.toNat else 0)
        = openShares b.orders side price := by
  have hw := FinMap.weight_update (f := fun _ e => OrderEntry.sharesAt side price e) hget
    (w := { e with shares := e.shares - n })
  have hsub : (e.shares - n).toNat = e.shares.toNat - n.toNat := UInt32.toNat_sub_of_le _ _ hn
  have hle : n.toNat ≤ e.shares.toNat := hn
  by_cases hsp : e.side = side ∧ e.price = price
  · simp only [OrderEntry.sharesAt, hsp, and_self, if_true, hsub] at hw
    simp only [openShares, OrderEntry.sharesAt, hsp, and_self, if_true]
    omega
  · simp only [OrderEntry.sharesAt, hsp, if_false] at hw
    simp only [openShares, OrderEntry.sharesAt, hsp, if_false]
    omega

/-- After shares are taken off an open order and its level, every listed level still has an
open order, if the open shares cover the totals that are left. -/
theorem listed_reduce {k : Nat} {o : FinMap OrderReference OrderEntry}
    (hlisted : ∀ side price, price ∈ b.levels side →
      ∃ (r : OrderReference) (e : OrderEntry), b.orders[r]? = some e ∧ e.side = side ∧ e.price = price)
    (hget : b.orders[r]? = some e)
    (htotal : ({ b with orders := o }.reduce e.side e.price k).total e.side e.price
      ≤ openShares o e.side e.price)
    (hkeep : ∀ r', r ≠ r' → o[r']? = b.orders[r']?) (side : Side) (price : Price4)
    (hmem : price ∈ ({ b with orders := o }.reduce e.side e.price k).levels side) :
    ∃ (r : OrderReference) (e : OrderEntry), o[r]? = some e ∧ e.side = side ∧ e.price = price := by
  by_cases hsp : e.side = side ∧ e.price = price
  · -- the reduced level is still listed, so some order there has shares left
    obtain ⟨rfl, rfl⟩ := hsp
    have hpos : 0 < openShares o e.side e.price :=
      lt_of_lt_of_le (total_pos_of_mem_reduce hmem) htotal
    obtain ⟨r', e', hget', hpos'⟩ := FinMap.exists_of_weight_pos hpos
    exact ⟨r', e', hget', OrderEntry.eq_of_sharesAt_pos hpos'⟩
  · have hold := mem_levels_of_reduce hsp hmem
    rw [levels_setOrders] at hold
    obtain ⟨r', e', hget', hse⟩ := hlisted _ _ hold
    have hne : r ≠ r' := by
      rintro rfl
      rw [hget] at hget'
      cases hget'
      exact hsp hse
    exact ⟨r', e', by rw [hkeep r' hne, hget'], hse⟩

/-- Entering an order lists its level, which then has that order. -/
theorem listed_addOrder {side : Side} {n : UInt32} {price : Price4}
    (hlisted : ∀ side price, price ∈ b.levels side →
      ∃ (r : OrderReference) (e : OrderEntry), b.orders[r]? = some e ∧ e.side = side ∧ e.price = price)
    (hfresh : r ∉ b.orders) (side' : Side) (price' : Price4)
    (hmem : price' ∈ (b.addOrder r side n price).levels side') :
    ∃ (r' : OrderReference) (e : OrderEntry), (b.addOrder r side n price).orders[r']? = some e ∧
      e.side = side' ∧ e.price = price' := by
  rw [addOrder_orders]
  rcases mem_levels_addOrder.mp hmem with ⟨rfl, rfl⟩ | hold
  · exact ⟨r, _, by rw [FinMap.get_insert, if_pos rfl], rfl, rfl⟩
  · obtain ⟨r', e', hget, hse⟩ := hlisted _ _ hold
    have hne : r ≠ r' := by
      rintro rfl
      exact hfresh (FinMap.mem_of_get hget)
    exact ⟨r', e', by rw [FinMap.get_insert, if_neg hne, hget], hse⟩

/-- Opening an order under a fresh reference. -/
theorem Exact.addOrder (h : b.Exact) {side : Side} {n : UInt32} {price : Price4}
    (hfresh : r ∉ b.orders) (hsat : ¬ b.AddSaturates side n price) :
    (b.addOrder r side n price).Exact where
  total_eq side' price' := by
    rw [total_addOrder hsat, h.total_eq, openShares_addOrder hfresh]
  listed := listed_addOrder h.listed hfresh

/-- Taking `k` shares off an open order, in the index and on its level. -/
theorem Exact.take (h : b.Exact) (hget : b.orders[r]? = some e) {k : Nat}
    {o : FinMap OrderReference OrderEntry}
    (hsum : ∀ side price, openShares o side price +
      (if e.side = side ∧ e.price = price then k else 0) = openShares b.orders side price)
    (hkeep : ∀ r', r ≠ r' → o[r']? = b.orders[r']?) :
    ({ b with orders := o }.reduce e.side e.price k).Exact := by
  have htotal : ∀ side price,
      ({ b with orders := o }.reduce e.side e.price k).total side price
        = openShares o side price := by
    intro side price
    have hb : { b with orders := o }.total side price = b.total side price := by
      simp [total]
    rw [total_reduce, hb, h.total_eq, ← hsum side price]
    omega
  refine ⟨fun side price => by rw [htotal, reduce_orders], fun side price hmem => ?_⟩
  rw [reduce_orders]
  exact listed_reduce h.listed hget (htotal _ _).le hkeep side price hmem

theorem Exact.erase (h : b.Exact) (hget : b.orders[r]? = some e) :
    ({ b with orders := b.orders.erase r }.reduce e.side e.price e.shares.toNat).Exact :=
  h.take hget (openShares_erase hget) fun r' hne => by rw [FinMap.get_erase, if_neg hne]

theorem Exact.update (h : b.Exact) (hget : b.orders[r]? = some e) {n : UInt32}
    (hn : n ≤ e.shares) :
    ({ b with orders := b.orders.insert r { e with shares := e.shares - n } }.reduce
      e.side e.price n.toNat).Exact :=
  h.take hget (openShares_update hget hn) fun r' hne => by rw [FinMap.get_insert, if_neg hne]

theorem Exact.not_addSaturates (h : b.Exact) (hsize : b.orders.size < 2 ^ 32) (side : Side)
    (n : UInt32) (price : Price4) : ¬ b.AddSaturates side n price := by
  have hle : b.total side price ≤ b.orders.size * (2 ^ 32 - 1) := by
    rw [h.total_eq]
    exact FinMap.weight_le_size_mul fun _ _ _ => OrderEntry.sharesAt_le
  have hn := n.toNat_lt
  have hmul : b.orders.size * (2 ^ 32 - 1) ≤ (2 ^ 32 - 1) * (2 ^ 32 - 1) :=
    Nat.mul_le_mul_right _ (by omega)
  unfold AddSaturates
  omega

theorem Exact.not_reduceSaturates (h : b.Exact) (hget : b.orders[r]? = some e) {k : Nat}
    (hk : k ≤ e.shares.toNat) : ¬ b.ReduceSaturates e.side e.price k := by
  rintro ⟨level, hl, hlt⟩
  have hle : e.sharesAt e.side e.price ≤ openShares b.orders e.side e.price :=
    FinMap.le_weight (f := fun _ x => OrderEntry.sharesAt e.side e.price x) hget
  rw [← h.total_eq, total, hl, Option.getD_some, OrderEntry.sharesAt_self] at hle
  omega

end Moves

/-! ## Mutators -/

section Mutators

variable {b : L2Book}

theorem Exact.execute (h : b.Exact) (r : OrderReference) (n : UInt32) :
    (b.execute r n).2.Exact := by
  cases hget : b.orders[r]? with
  | none => rwa [execute_of_none hget]
  | some e =>
      rcases Word32.lt_or_eq_or_gt e.shares n with hlt | rfl | hlt
      · rwa [execute_of_lt hget hlt]
      · rw [execute_fully hget]
        exact h.erase hget
      · rw [execute_partly hget hlt]
        exact h.update hget (UInt32.le_of_lt hlt)

theorem Exact.not_executeSaturates (h : b.Exact) (r : OrderReference) (n : UInt32) :
    ¬ b.ExecuteSaturates r n := by
  rintro ⟨e, hget, hlt, hsat⟩
  exact h.not_reduceSaturates hget (UInt32.not_lt.mp hlt) hsat

theorem Exact.delete (h : b.Exact) (r : OrderReference) : (b.delete r).Exact := by
  cases hget : b.orders[r]? with
  | none => rwa [delete_of_none hget]
  | some e =>
      rw [delete_of_some hget]
      exact h.erase hget

theorem Exact.not_deleteSaturates (h : b.Exact) (r : OrderReference) :
    ¬ b.DeleteSaturates r := by
  rintro ⟨e, hget, hsat⟩
  exact h.not_reduceSaturates hget le_rfl hsat

theorem delete_orders {r : OrderReference} : (b.delete r).orders = b.orders.erase r := by
  cases hget : b.orders[r]? with
  | none =>
      rw [delete_of_none hget]
      exact (FinMap.erase_of_get_none hget).symm
  | some e => rw [delete_of_some hget, reduce_orders]

theorem Exact.replace (h : b.Exact) (hsize : b.orders.size < 2 ^ 32) {r r' : OrderReference}
    (hfresh : r ∈ b.orders → r' ≠ r → r' ∉ b.orders) (n : UInt32) (price : Price4) :
    (b.replace r r' n price).2.Exact ∧ ¬ b.ReplaceSaturates r n price := by
  have hsize' : (b.delete r).orders.size < 2 ^ 32 := by
    rw [delete_orders]
    exact lt_of_le_of_lt Std.ExtTreeMap.size_erase_le hsize
  have hnot := (h.delete r).not_addSaturates hsize'
  constructor
  · cases hget : b.orders[r]? with
    | none => rwa [replace_of_none hget]
    | some e =>
        rw [replace_of_some hget]
        refine (h.delete r).addOrder ?_ (hnot _ _ _)
        rw [delete_orders, FinMap.mem_erase_iff]
        rintro ⟨hne, hmem⟩
        exact hfresh (FinMap.mem_of_get hget) hne.symm hmem
  · rintro ⟨e, hget, hsat | hsat⟩
    · exact h.not_reduceSaturates hget le_rfl hsat
    · rw [← delete_of_some hget] at hsat
      exact hnot _ _ _ hsat

/-- One message keeps the levels exact and saturates nothing. -/
theorem Exact.apply (h : b.Exact) (hsize : b.orders.size < 2 ^ 32) {m : Message}
    (hfresh : m.AddsFresh b.stockLocate (· ∈ b.orders)) :
    (b.apply m).2.Exact ∧ ¬ b.Saturates m := by
  have hnot := h.not_addSaturates hsize
  cases m with
  | addOrder m =>
      refine ⟨?_, fun hs => hnot _ _ _ hs.2⟩
      by_cases hl : m.header.stockLocate = b.stockLocate
      · simpa [L2Book.apply, hl] using h.addOrder (hfresh hl) (hnot _ _ _)
      · simpa [L2Book.apply, hl] using h
  | addOrderWithMpid m =>
      refine ⟨?_, fun hs => hnot _ _ _ hs.2⟩
      by_cases hl : m.header.stockLocate = b.stockLocate
      · simpa [L2Book.apply, hl] using h.addOrder (hfresh hl) (hnot _ _ _)
      · simpa [L2Book.apply, hl] using h
  | orderExecuted m => exact ⟨h.execute _ _, h.not_executeSaturates _ _⟩
  | orderExecutedWithPrice m => exact ⟨h.execute _ _, h.not_executeSaturates _ _⟩
  | orderCancel m => exact ⟨h.execute _ _, h.not_executeSaturates _ _⟩
  | orderDelete m => exact ⟨h.delete _, h.not_deleteSaturates _⟩
  | orderReplace m => exact h.replace hsize hfresh _ _
  | _ => exact ⟨h, id⟩

end Mutators

/-! ## Runs -/

/-- At every point of the feed there are fewer than `2 ^ 32` open orders, and no message
adds a live reference. -/
def CleanFeed : L2Book → List Message → Prop
  | b, [] => b.orders.size < 2 ^ 32
  | b, m :: msgs => b.orders.size < 2 ^ 32 ∧ m.AddsFresh b.stockLocate (· ∈ b.orders) ∧
      CleanFeed (b.apply m).2 msgs

instance instDecidableCleanFeed : (b : L2Book) → (msgs : List Message) → Decidable (b.CleanFeed msgs)
  | b, [] => inferInstanceAs (Decidable (b.orders.size < 2 ^ 32))
  | b, m :: msgs =>
      have := instDecidableCleanFeed (b.apply m).2 msgs
      inferInstanceAs (Decidable (b.orders.size < 2 ^ 32 ∧
        m.AddsFresh b.stockLocate (· ∈ b.orders) ∧ (b.apply m).2.CleanFeed msgs))

theorem CleanFeed.size_lt {b : L2Book} {msgs : List Message} (h : b.CleanFeed msgs) :
    b.orders.size < 2 ^ 32 := by
  cases msgs with
  | nil => exact h
  | cons m msgs => exact h.1

theorem cleanFeed_append {b : L2Book} {msgs msgs' : List Message} :
    b.CleanFeed (msgs ++ msgs') ↔ b.CleanFeed msgs ∧ (b.run msgs).CleanFeed msgs' := by
  induction msgs generalizing b with
  | nil => exact ⟨fun h => ⟨CleanFeed.size_lt h, h⟩, And.right⟩
  | cons m msgs ih => simp [CleanFeed, ih, and_assoc]

theorem Exact.run {b : L2Book} (h : b.Exact) {msgs : List Message} (hfeed : b.CleanFeed msgs) :
    (b.run msgs).Exact := by
  induction msgs generalizing b with
  | nil => exact h
  | cons m msgs ih => exact ih (h.apply hfeed.1 hfeed.2.1).1 hfeed.2.2

/-- On a clean feed, errors included, level totals are exact after every message, every
listed price has an open order, and no level arithmetic ever saturates. -/
theorem level_totals_exact (locate : StockLocate) (msgs : List Message)
    (hfeed : (new locate).CleanFeed msgs) :
    (∀ before, before <+: msgs →
      (∀ side price, ((new locate).run before).total side price =
        openShares ((new locate).run before).orders side price) ∧
      (∀ side price, price ∈ ((new locate).run before).levels side →
        ∃ (r : OrderReference) (e : OrderEntry),
          ((new locate).run before).orders[r]? = some e ∧ e.side = side ∧ e.price = price)) ∧
    (∀ before m, before ++ [m] <+: msgs → ¬ ((new locate).run before).Saturates m) := by
  constructor
  · rintro before ⟨after, rfl⟩
    have hexact := (exact_new locate).run (cleanFeed_append.mp hfeed).1
    exact ⟨hexact.total_eq, hexact.listed⟩
  · rintro before m ⟨after, rfl⟩
    rw [List.append_assoc] at hfeed
    obtain ⟨hbefore, hsize, hfresh, -⟩ := cleanFeed_append.mp hfeed
    exact (((exact_new locate).run hbefore).apply hsize hfresh).2

/-- Two bids at 100; the first is partly executed and then replaced, the second is
over-executed, which fails. -/
def sampleFeed : List Message :=
  [ .addOrder { header := ⟨1, 0, 0⟩, orderRef := 1, side := .buy, shares := 100,
                stock := Vector.replicate 8 ' '.toUInt8, price := 100 },
    .addOrder { header := ⟨1, 0, 0⟩, orderRef := 2, side := .buy, shares := 50,
                stock := Vector.replicate 8 ' '.toUInt8, price := 100 },
    .orderExecuted { header := ⟨1, 0, 0⟩, orderRef := 1, executedShares := 70, matchNumber := 9 },
    .orderExecuted { header := ⟨1, 0, 0⟩, orderRef := 2, executedShares := 80, matchNumber := 9 },
    .orderReplace { header := ⟨1, 0, 0⟩, originalOrderRef := 1, newOrderRef := 3, shares := 10,
                    price := 100 } ]

theorem level_totals_exact_sampleFeed :
    ((new 1).run sampleFeed).total .buy 100 = 60 ∧
    ((new 1).run sampleFeed).total .buy 100 =
      openShares ((new 1).run sampleFeed).orders .buy 100 :=
  ⟨by decide +kernel,
    ((level_totals_exact 1 sampleFeed (by decide +kernel)).1 sampleFeed
      (List.prefix_refl _)).1 .buy 100⟩

end L2Book

end Itch
