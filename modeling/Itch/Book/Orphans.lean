import Itch.Book.Ops

/-!
# Orphan liquidity

A level of the L2 book and a queue of the L3 book outlive the orders that made them if an
order is overwritten in the index: `add_order` and `insert_order` write the index entry
without looking at the one that is there.  On a feed that enters no live reference
nothing is overwritten, and then every listed level has a live order and every queued
reference is live at its level.

For the L2 book this holds without any bound on the number of orders.  `Covered` keeps
only the half of exactness that survives saturation: a total never exceeds the open
shares of its level.
-/

namespace Itch

open Lib

namespace L2Book

/-- The open orders cover the levels. -/
structure Covered (b : L2Book) : Prop where
  /-- Totals are at most the open shares. -/
  total_le : ∀ side price, b.total side price ≤ openShares b.orders side price
  /-- A listed price has an open order. -/
  listed : ∀ side price, price ∈ b.levels side →
    ∃ (r : OrderReference) (e : OrderEntry), b.orders[r]? = some e ∧ e.side = side ∧ e.price = price

theorem covered_new (locate : StockLocate) : (new locate).Covered where
  total_le side price := ((exact_new locate).total_eq side price).le
  listed := (exact_new locate).listed

section Moves

variable {b : L2Book} {r r' : OrderReference} {e : OrderEntry} {n : UInt32} {price : Price4}

/-- Saturation can only lower a total. -/
theorem total_addOrder_le {side side' : Side} {price' : Price4} :
    (b.addOrder r side n price).total side' price' ≤
      b.total side' price' + if side = side' ∧ price = price' then n.toNat else 0 := by
  unfold total
  rw [levels_addOrder]
  by_cases hs : side = side'
  · subst hs
    rw [if_pos rfl, FinMap.get_insert]
    by_cases hp : price = price'
    · subst hp
      simp only [if_true, and_self, Option.getD_some, saturatingAdd]
      omega
    · simp [hp]
  · simp [hs]

theorem Covered.addOrder (h : b.Covered) {side : Side} (hfresh : r ∉ b.orders) :
    (b.addOrder r side n price).Covered where
  total_le side' price' := by
    rw [openShares_addOrder hfresh]
    exact total_addOrder_le.trans (Nat.add_le_add_right (h.total_le side' price') _)
  listed := listed_addOrder h.listed hfresh

theorem Covered.take (h : b.Covered) (hget : b.orders[r]? = some e) {k : Nat}
    {o : FinMap OrderReference OrderEntry}
    (hsum : ∀ side price, openShares o side price +
      (if e.side = side ∧ e.price = price then k else 0) = openShares b.orders side price)
    (hkeep : ∀ r', r ≠ r' → o[r']? = b.orders[r']?) :
    ({ b with orders := o }.reduce e.side e.price k).Covered := by
  have htotal : ∀ side price,
      ({ b with orders := o }.reduce e.side e.price k).total side price
        ≤ openShares o side price := by
    intro side price
    have hb : { b with orders := o }.total side price = b.total side price := by
      simp [total]
    have hle := h.total_le side price
    rw [total_reduce, hb]
    rw [← hsum side price] at hle
    omega
  refine ⟨fun side price => by rw [reduce_orders]; exact htotal side price, fun side price hmem => ?_⟩
  rw [reduce_orders]
  exact listed_reduce h.listed hget (htotal _ _) hkeep side price hmem

theorem Covered.erase (h : b.Covered) (hget : b.orders[r]? = some e) :
    ({ b with orders := b.orders.erase r }.reduce e.side e.price e.shares.toNat).Covered :=
  h.take hget (openShares_erase hget) fun r' hne => by rw [FinMap.get_erase, if_neg hne]

theorem Covered.execute (h : b.Covered) : (b.execute r n).2.Covered := by
  cases hget : b.orders[r]? with
  | none => rwa [execute_of_none hget]
  | some e =>
      rcases Word32.lt_or_eq_or_gt e.shares n with hlt | rfl | hlt
      · rwa [execute_of_lt hget hlt]
      · rw [execute_fully hget]
        exact h.erase hget
      · rw [execute_partly hget hlt]
        exact h.take hget (openShares_update hget (UInt32.le_of_lt hlt)) fun r' hne => by
          rw [FinMap.get_insert, if_neg hne]

theorem Covered.delete (h : b.Covered) : (b.delete r).Covered := by
  cases hget : b.orders[r]? with
  | none => rwa [delete_of_none hget]
  | some e =>
      rw [delete_of_some hget]
      exact h.erase hget

theorem Covered.replace (h : b.Covered) (hfresh : r ∈ b.orders → r' ≠ r → r' ∉ b.orders) :
    (b.replace r r' n price).2.Covered := by
  cases hget : b.orders[r]? with
  | none => rwa [replace_of_none hget]
  | some e =>
      rw [replace_of_some hget]
      refine h.delete.addOrder ?_
      rw [delete_orders, FinMap.mem_erase_iff]
      rintro ⟨hne, hmem⟩
      exact hfresh (FinMap.mem_of_get hget) hne.symm hmem

/-- An operation that enters no live reference keeps the levels covered. -/
theorem Covered.step (h : b.Covered) {op : BookOp} (hfresh : op.Fresh (· ∈ b.orders)) :
    (b.step op).2.Covered := by
  cases op with
  | add => exact h.addOrder hfresh
  | execute | cancel => exact h.execute
  | delete => exact h.delete
  | replace => exact h.replace hfresh

theorem Covered.apply (h : b.Covered) {m : Message}
    (hfresh : m.AddsFresh b.stockLocate (· ∈ b.orders)) : (b.apply m).2.Covered := by
  cases hop : m.op b.stockLocate with
  | none => rwa [apply_of_no_op hop]
  | some op =>
      rw [apply_of_op hop]
      exact h.step (hfresh.op hop)

end Moves

/-- No message of the feed adds a live reference. -/
def FreshFeed : L2Book → List Message → Prop
  | _, [] => True
  | b, m :: msgs => m.AddsFresh b.stockLocate (· ∈ b.orders) ∧ FreshFeed (b.apply m).2 msgs

theorem Covered.run {b : L2Book} (h : b.Covered) {msgs : List Message} (hfeed : b.FreshFeed msgs) :
    (b.run msgs).Covered := by
  induction msgs generalizing b with
  | nil => exact h
  | cons m msgs ih => exact ih (h.apply hfeed.1) hfeed.2

end L2Book

/-- On a feed that adds no live reference, errors included and of any length, every level
that the L2 book lists has a live order, and every reference queued in the L3 book is live
at the side and price of its queue. -/
theorem no_orphan_liquidity (locate : StockLocate) (msgs : List Message) :
    ((L2Book.new locate).FreshFeed msgs → ∀ side price,
      price ∈ ((L2Book.new locate).run msgs).levels side →
        ∃ (r : OrderReference) (e : OrderEntry),
          ((L2Book.new locate).run msgs).orders[r]? = some e ∧ e.side = side ∧ e.price = price) ∧
    ((L3Book.new locate).FreshFeed msgs → ∀ side price r,
      r ∈ ((L3Book.new locate).run msgs).queue side price →
        ∃ e : L3OrderEntry,
          ((L3Book.new locate).run msgs).orders[r]? = some e ∧ e.side = side ∧ e.price = price) :=
  ⟨fun hfeed => ((L2Book.covered_new locate).run hfeed).listed,
    fun hfeed side price r =>
      (((L3Book.wellQueued_new locate).run hfeed).mem_queue side price r).mp⟩

/-- Two orders of symbol 1 at two prices; the first is deleted. -/
theorem no_orphan_liquidity_of_two_orders :
    ((L2Book.new 1).run [L3Book.buyMsg 1 10, L3Book.buyMsg 2 20, L3Book.deleteMsg 1]).bids.toList
      = [(20, 100)] ∧
    (∀ side price,
      price ∈ ((L2Book.new 1).run
        [L3Book.buyMsg 1 10, L3Book.buyMsg 2 20, L3Book.deleteMsg 1]).levels side →
      ∃ (r : OrderReference) (e : OrderEntry),
        ((L2Book.new 1).run
          [L3Book.buyMsg 1 10, L3Book.buyMsg 2 20, L3Book.deleteMsg 1]).orders[r]? = some e ∧
        e.side = side ∧ e.price = price) ∧
    (∀ side price r,
      r ∈ ((L3Book.new 1).run
        [L3Book.buyMsg 1 10, L3Book.buyMsg 2 20, L3Book.deleteMsg 1]).queue side price →
      ∃ e : L3OrderEntry,
        ((L3Book.new 1).run
          [L3Book.buyMsg 1 10, L3Book.buyMsg 2 20, L3Book.deleteMsg 1]).orders[r]? = some e ∧
        e.side = side ∧ e.price = price) :=
  ⟨by decide +kernel,
    (no_orphan_liquidity 1 _).1
      ⟨fun _ => by decide +kernel, fun _ => by decide +kernel, trivial, trivial⟩,
    (no_orphan_liquidity 1 _).2
      ⟨fun _ => by decide +kernel, fun _ => by decide +kernel, trivial, trivial⟩⟩

/-- Adding order 1 a second time, at another price, leaves 100 shares at the old price with
no order behind them, and the old queue with a reference that is live elsewhere. -/
theorem readded_reference_leaves_orphan :
    (10 : Price4) ∈ ((L2Book.new 1).run [L3Book.buyMsg 1 10, L3Book.buyMsg 1 20]).levels .buy ∧
    ((L2Book.new 1).run [L3Book.buyMsg 1 10, L3Book.buyMsg 1 20]).orders.toList.all
      (fun x => x.2.price = 20) ∧
    ((L3Book.new 1).run [L3Book.buyMsg 1 10, L3Book.buyMsg 1 20]).queue .buy 10 = [1] ∧
    (((L3Book.new 1).run [L3Book.buyMsg 1 10, L3Book.buyMsg 1 20]).orders[(1 : OrderReference)]?).map
      L3OrderEntry.price = some 20 := by
  decide +kernel

end Itch
