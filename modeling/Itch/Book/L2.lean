import Itch.Lib.Word64
import Itch.Protocol.Messages

/-!
# The L2 book

Single-symbol order book aggregated by price: a share total per price level on each
side, and an index of the open orders that resolves the messages which name an order
by reference only.  A mutator that can fail returns its result beside the book, since
the caller may go on after an error.

The level totals are `u64`, written as natural numbers with the saturation explicit.
-/

namespace Itch

open Lib

/-- Errors raised when a message is applied to a book. -/
inductive BookError where
  | overExecution (order : OrderReference) (executed remaining : UInt32)
  | fifoViolation (expected got : OrderReference)
deriving Repr, DecidableEq

/-- No order reference is added while it is already live: by `A` or `F` for the symbol
of the book, or as the new reference of a `U` that finds its original. -/
def Message.AddsFresh (locate : StockLocate) (live : OrderReference → Prop) : Message → Prop
  | .addOrder m => m.header.stockLocate = locate → ¬ live m.orderRef
  | .addOrderWithMpid m => m.header.stockLocate = locate → ¬ live m.orderRef
  | .orderReplace m =>
      live m.originalOrderRef → m.newOrderRef ≠ m.originalOrderRef → ¬ live m.newOrderRef
  | _ => True

instance (locate : StockLocate) (live : OrderReference → Prop) [DecidablePred live] :
    (m : Message) → Decidable (m.AddsFresh locate live)
  | .addOrder m => inferInstanceAs (Decidable (m.header.stockLocate = locate → ¬ live m.orderRef))
  | .addOrderWithMpid m =>
      inferInstanceAs (Decidable (m.header.stockLocate = locate → ¬ live m.orderRef))
  | .orderReplace m =>
      inferInstanceAs (Decidable (live m.originalOrderRef →
        m.newOrderRef ≠ m.originalOrderRef → ¬ live m.newOrderRef))
  | .systemEvent _ | .stockDirectory _ | .stockTradingAction _ | .regShoRestriction _
  | .marketParticipantPosition _ | .mwcbDeclineLevel _ | .mwcbStatus _
  | .ipoQuotingPeriodUpdate _ | .orderExecuted _ | .orderExecutedWithPrice _ | .orderCancel _
  | .orderDelete _ | .tradeNonCross _ | .crossTrade _ | .brokenTrade _ | .noii _
  | .retailPriceImprovement _ => inferInstanceAs (Decidable True)

/-- `u64::saturating_add`. -/
def saturatingAdd (a b : Nat) : Nat :=
  min (a + b) (2 ^ 64 - 1)

/-- `u64::saturating_sub`. -/
def saturatingSub (a b : Nat) : Nat :=
  a - b

/-- Per-order bookkeeping entry. -/
structure OrderEntry where
  price : Price4
  /-- Remaining open shares. -/
  shares : UInt32
  side : Side
  stockLocate : StockLocate
deriving Repr, DecidableEq

/-- Single-symbol L2 book. -/
structure L2Book where
  stockLocate : StockLocate
  /-- Total shares per bid price. -/
  bids : FinMap Price4 Nat
  /-- Total shares per ask price. -/
  asks : FinMap Price4 Nat
  /-- The open orders. -/
  orders : FinMap OrderReference OrderEntry

namespace L2Book

/-- An empty book for one symbol. -/
def new (stockLocate : StockLocate) : L2Book where
  stockLocate := stockLocate
  bids := ∅
  asks := ∅
  orders := ∅

/-- The price levels of a side. -/
def levels (b : L2Book) : Side → FinMap Price4 Nat
  | .buy => b.bids
  | .sell => b.asks

/-- Replace the price levels of a side. -/
def setLevels (b : L2Book) (side : Side) (levels : FinMap Price4 Nat) : L2Book :=
  match side with
  | .buy => { b with bids := levels }
  | .sell => { b with asks := levels }

/-! ## Mutators -/

def addOrder (b : L2Book) (orderRef : OrderReference) (side : Side) (shares : UInt32)
    (price : Price4) : L2Book :=
  let entry : OrderEntry :=
    { price := price, shares := shares, side := side, stockLocate := b.stockLocate }
  let b := { b with orders := b.orders.insert orderRef entry }
  let level := (b.levels side)[price]?.getD 0
  b.setLevels side ((b.levels side).insert price (saturatingAdd level shares.toNat))

/-- Subtract `shares` from the level at `price`, removing it when it reaches zero. -/
def reduceLevel (levels : FinMap Price4 Nat) (price : Price4) (shares : Nat) :
    FinMap Price4 Nat :=
  match levels[price]? with
  | none => levels
  | some level =>
      if saturatingSub level shares = 0 then levels.erase price
      else levels.insert price (saturatingSub level shares)

/-- `reduceLevel` on the levels of a side. -/
def reduce (b : L2Book) (side : Side) (price : Price4) (shares : Nat) : L2Book :=
  b.setLevels side (reduceLevel (b.levels side) price shares)

def execute (b : L2Book) (orderRef : OrderReference) (shares : UInt32) :
    Except BookError Unit × L2Book :=
  match b.orders[orderRef]? with
  -- an order of another symbol's book
  | none => (.ok (), b)
  | some entry =>
      if entry.shares < shares then
        (.error (.overExecution orderRef shares entry.shares), b)
      else
        let entry : OrderEntry := { entry with shares := entry.shares - shares }
        let b := { b with orders := b.orders.insert orderRef entry }
        let b := b.reduce entry.side entry.price shares.toNat
        let exhausted := entry.shares == 0
        (.ok (), if exhausted then { b with orders := b.orders.erase orderRef } else b)

def delete (b : L2Book) (orderRef : OrderReference) : L2Book :=
  match b.orders[orderRef]? with
  | none => b
  | some entry =>
      let b := { b with orders := b.orders.erase orderRef }
      b.reduce entry.side entry.price entry.shares.toNat

def replace (b : L2Book) (originalRef newRef : OrderReference) (newShares : UInt32)
    (newPrice : Price4) : Except BookError Unit × L2Book :=
  match b.orders[originalRef]? with
  | none => (.ok (), b)
  | some original =>
      let b := { b with orders := b.orders.erase originalRef }
      let b := b.reduce original.side original.price original.shares.toNat
      (.ok (), b.addOrder newRef original.side newShares newPrice)

/-! ## Apply -/

/-- Apply one message to the book. -/
def apply (b : L2Book) : Message → Except BookError Unit × L2Book
  | .addOrder m =>
      if m.header.stockLocate ≠ b.stockLocate then (.ok (), b)
      else (.ok (), b.addOrder m.orderRef m.side m.shares m.price)
  | .addOrderWithMpid m =>
      if m.header.stockLocate ≠ b.stockLocate then (.ok (), b)
      else (.ok (), b.addOrder m.orderRef m.side m.shares m.price)
  | .orderExecuted m => b.execute m.orderRef m.executedShares
  | .orderExecutedWithPrice m => b.execute m.orderRef m.executedShares
  | .orderCancel m => b.execute m.orderRef m.cancelledShares
  | .orderDelete m => (.ok (), b.delete m.orderRef)
  | .orderReplace m => b.replace m.originalOrderRef m.newOrderRef m.shares m.price
  -- session and informational kinds
  | .systemEvent _ | .stockDirectory _ | .stockTradingAction _ | .regShoRestriction _
  | .marketParticipantPosition _ | .mwcbDeclineLevel _ | .mwcbStatus _
  | .ipoQuotingPeriodUpdate _ | .tradeNonCross _ | .crossTrade _ | .brokenTrade _
  | .noii _ | .retailPriceImprovement _ => (.ok (), b)

/-- Apply a feed, going on after errors. -/
def run (b : L2Book) (msgs : List Message) : L2Book :=
  msgs.foldl (fun b m => (b.apply m).2) b

@[simp] theorem run_nil (b : L2Book) : b.run [] = b := rfl

@[simp] theorem run_cons (b : L2Book) (m : Message) (msgs : List Message) :
    b.run (m :: msgs) = (b.apply m).2.run msgs := rfl

/-! ## Frame lemmas -/

section Frame

variable {b : L2Book} {side side' : Side} {ls : FinMap Price4 Nat}
  {o : FinMap OrderReference OrderEntry} {price : Price4} {shares : Nat}

@[simp] theorem setLevels_orders : (b.setLevels side ls).orders = b.orders := by
  cases side <;> rfl

@[simp] theorem setLevels_stockLocate : (b.setLevels side ls).stockLocate = b.stockLocate := by
  cases side <;> rfl

theorem levels_setLevels :
    (b.setLevels side ls).levels side' = if side = side' then ls else b.levels side' := by
  cases side <;> cases side' <;> rfl

@[simp] theorem reduce_orders : (b.reduce side price shares).orders = b.orders :=
  setLevels_orders

@[simp] theorem reduce_stockLocate : (b.reduce side price shares).stockLocate = b.stockLocate :=
  setLevels_stockLocate

@[simp] theorem levels_setOrders : { b with orders := o }.levels side = b.levels side := by
  cases side <;> rfl

/-- The index and the levels are updated independently. -/
theorem reduce_setOrders :
    { b.reduce side price shares with orders := o }
      = { b with orders := o }.reduce side price shares := by
  cases side <;> rfl

theorem levels_reduce :
    (b.reduce side price shares).levels side' =
      if side = side' then reduceLevel (b.levels side) price shares else b.levels side' :=
  levels_setLevels

section AddOrder

variable {orderRef : OrderReference} {n : UInt32}

@[simp] theorem addOrder_stockLocate :
    (b.addOrder orderRef side n price).stockLocate = b.stockLocate := by
  cases side <;> rfl

theorem addOrder_orders :
    (b.addOrder orderRef side n price).orders =
      b.orders.insert orderRef
        { price := price, shares := n, side := side, stockLocate := b.stockLocate } := by
  cases side <;> rfl

theorem levels_addOrder :
    (b.addOrder orderRef side n price).levels side' =
      if side = side' then
        (b.levels side).insert price
          (saturatingAdd ((b.levels side)[price]?.getD 0) n.toNat)
      else b.levels side' := by
  cases side <;> cases side' <;> rfl

end AddOrder

end Frame

/-! ## What the mutators do -/

section Spec

variable {b : L2Book} {r : OrderReference} {e : OrderEntry} {n : UInt32} {price : Price4}

theorem execute_of_none (hget : b.orders[r]? = none) : b.execute r n = (.ok (), b) := by
  rw [execute, hget]

theorem execute_of_lt (hget : b.orders[r]? = some e) (hlt : e.shares < n) :
    b.execute r n = (.error (.overExecution r n e.shares), b) := by
  rw [execute, hget]
  exact if_pos hlt

/-- An order that keeps shares is updated in place. -/
theorem execute_partly (hget : b.orders[r]? = some e) (hlt : n < e.shares) :
    b.execute r n = (.ok (),
      { b with orders := b.orders.insert r { e with shares := e.shares - n } }.reduce
        e.side e.price n.toNat) := by
  rw [execute, hget]
  simp only [UInt32.lt_asymm hlt, if_false, Word32.sub_beq_zero_of_lt hlt, Bool.false_eq_true]

/-- An order that is exhausted leaves the index. -/
theorem execute_fully (hget : b.orders[r]? = some e) :
    b.execute r e.shares = (.ok (),
      { b with orders := b.orders.erase r }.reduce e.side e.price e.shares.toNat) := by
  rw [execute, hget]
  simp only [UInt32.lt_irrefl, if_false, UInt32.sub_self, beq_self_eq_true, if_true, reduce_orders,
    FinMap.erase_insert_self]
  rw [reduce_setOrders]

theorem delete_of_none (hget : b.orders[r]? = none) : b.delete r = b := by
  rw [delete, hget]

theorem delete_of_some (hget : b.orders[r]? = some e) :
    b.delete r = { b with orders := b.orders.erase r }.reduce e.side e.price e.shares.toNat := by
  rw [delete, hget]

theorem replace_of_none {r' : OrderReference} (hget : b.orders[r]? = none) :
    b.replace r r' n price = (.ok (), b) := by
  rw [replace, hget]

/-- A replace is a delete followed by an add on the same side. -/
theorem replace_of_some {r' : OrderReference} (hget : b.orders[r]? = some e) :
    b.replace r r' n price = (.ok (), (b.delete r).addOrder r' e.side n price) := by
  rw [replace, delete_of_some hget, hget]

end Spec

end L2Book

end Itch
