import Itch.Book.L2

/-!
# The L3 book

Single-symbol order book with one FIFO queue of order references per price level, and
an index from references to full records.  The mutators follow the source one by one;
in particular an execution that exhausts an order pops the front of its queue, while a
cancel or a delete removes the order from anywhere in it.

`arrival_seq` is a `u64` bumped with a plain `+= 1`, which wraps in a release build.
The order index is a hash map, so `summaryL2` takes the order in which it is visited.
-/

namespace Itch

open Lib

/-- Per-order bookkeeping entry of the L3 index. -/
structure L3OrderEntry where
  price : Price4
  /-- Remaining open shares. -/
  shares : UInt32
  side : Side
  stockLocate : StockLocate
  /-- Broker attribution of an order that arrived as `F`. -/
  mpid : Option Mpid
  /-- Value of the arrival counter when the order was inserted. -/
  arrivalSeq : Nat
deriving Repr, DecidableEq

/-- Single-symbol L3 book. -/
structure L3Book where
  stockLocate : StockLocate
  /-- Bid queues, most senior order first. -/
  bids : FinMap Price4 (List OrderReference)
  /-- Ask queues, most senior order first. -/
  asks : FinMap Price4 (List OrderReference)
  /-- The open orders. -/
  orders : FinMap OrderReference L3OrderEntry
  /-- Arrival counter. -/
  arrivalSeq : Nat

namespace L3Book

/-- An empty book for one symbol. -/
def new (stockLocate : StockLocate) : L3Book where
  stockLocate := stockLocate
  bids := ∅
  asks := ∅
  orders := ∅
  arrivalSeq := 0

/-- The queues of a side. -/
def levels (b : L3Book) : Side → FinMap Price4 (List OrderReference)
  | .buy => b.bids
  | .sell => b.asks

/-- Replace the queues of a side. -/
def setLevels (b : L3Book) (side : Side) (levels : FinMap Price4 (List OrderReference)) :
    L3Book :=
  match side with
  | .buy => { b with bids := levels }
  | .sell => { b with asks := levels }

/-- Write a queue back, dropping the level once it is empty. -/
def putQueue (levels : FinMap Price4 (List OrderReference)) (price : Price4)
    (queue : List OrderReference) : FinMap Price4 (List OrderReference) :=
  if queue.isEmpty then levels.erase price else levels.insert price queue

/-! ## Queries -/

/-- Position of an order in its queue. -/
def queuePosition (b : L3Book) (orderRef : OrderReference) : Option Nat := do
  let entry ← b.orders[orderRef]?
  let queue ← (b.levels entry.side)[entry.price]?
  queue.idxOf? orderRef

/-- The orders of a level from front to back. -/
def levelOrders (b : L3Book) (side : Side) (price : Price4) : List L3OrderEntry :=
  match (b.levels side)[price]? with
  | some queue => queue.filterMap (b.orders[·]?)
  | none => []

/-- The `A` message that stands for an open order in the summary. -/
def summaryMsg (b : L3Book) (orderRef : OrderReference) (entry : L3OrderEntry) : Message :=
  .addOrder
    { header := { stockLocate := b.stockLocate, trackingNumber := 0, timestamp := 0 }
      orderRef := orderRef
      side := entry.side
      shares := entry.shares
      stock := Vector.replicate 8 ' '.toUInt8
      price := entry.price }

/-- The L2 book of the open orders, visited in the given order. -/
def summaryL2 (b : L3Book) (visit : List (OrderReference × L3OrderEntry)) : L2Book :=
  visit.foldl (fun l2 (orderRef, entry) =>
      if entry.stockLocate ≠ b.stockLocate then l2
      else (l2.apply (b.summaryMsg orderRef entry)).2)
    (L2Book.new b.stockLocate)

/-! ## Mutators -/

/-- Insert a new order at the back of its queue. -/
def insertOrder (b : L3Book) (orderRef : OrderReference) (side : Side) (shares : UInt32)
    (price : Price4) (mpid : Option Mpid) : L3Book :=
  let arrivalSeq := (b.arrivalSeq + 1) % 2 ^ 64
  let entry : L3OrderEntry :=
    { price := price, shares := shares, side := side, stockLocate := b.stockLocate,
      mpid := mpid, arrivalSeq := arrivalSeq }
  let b := { b with arrivalSeq := arrivalSeq, orders := b.orders.insert orderRef entry }
  let queue := (b.levels side)[price]?.getD []
  b.setLevels side ((b.levels side).insert price (queue ++ [orderRef]))

/-- Find-and-remove an order from the queue of a level. -/
def removeFromQueue (b : L3Book) (side : Side) (price : Price4) (orderRef : OrderReference) :
    L3Book :=
  match (b.levels side)[price]? with
  | none => b
  | some queue => b.setLevels side (putQueue (b.levels side) price (queue.erase orderRef))

/-- Apply an `E` or `C` execution. -/
def execute (b : L3Book) (orderRef : OrderReference) (shares : UInt32) :
    Except BookError Unit × L3Book :=
  match b.orders[orderRef]? with
  | none => (.ok (), b)
  | some entry =>
      if entry.shares < shares then
        (.error (.overExecution orderRef shares entry.shares), b)
      else
        let entry : L3OrderEntry := { entry with shares := entry.shares - shares }
        let b := { b with orders := b.orders.insert orderRef entry }
        let exhausted := entry.shares == 0
        if exhausted then
          match (b.levels entry.side)[entry.price]? with
          -- no queue, or an empty one: only the entry is dropped
          | none | some [] => (.ok (), { b with orders := b.orders.erase orderRef })
          | some (front :: queue) =>
              if front = orderRef then
                let b := b.setLevels entry.side (putQueue (b.levels entry.side) entry.price queue)
                (.ok (), { b with orders := b.orders.erase orderRef })
              else
                -- the front is put back and the entry stays, with no shares left
                (.error (.fifoViolation orderRef front), b)
        else (.ok (), b)

/-- Apply an `X` cancel. -/
def cancel (b : L3Book) (orderRef : OrderReference) (shares : UInt32) :
    Except BookError Unit × L3Book :=
  match b.orders[orderRef]? with
  | none => (.ok (), b)
  | some entry =>
      if entry.shares < shares then
        (.error (.overExecution orderRef shares entry.shares), b)
      else
        let entry : L3OrderEntry := { entry with shares := entry.shares - shares }
        let b := { b with orders := b.orders.insert orderRef entry }
        let exhausted := entry.shares == 0
        if exhausted then
          let b := b.removeFromQueue entry.side entry.price orderRef
          (.ok (), { b with orders := b.orders.erase orderRef })
        else (.ok (), b)

/-- Apply a `D` delete. -/
def delete (b : L3Book) (orderRef : OrderReference) : L3Book :=
  match b.orders[orderRef]? with
  | none => b
  | some entry =>
      let b := { b with orders := b.orders.erase orderRef }
      b.removeFromQueue entry.side entry.price orderRef

/-- Apply a `U` replace. -/
def replace (b : L3Book) (originalRef newRef : OrderReference) (newShares : UInt32)
    (newPrice : Price4) : Except BookError Unit × L3Book :=
  match b.orders[originalRef]? with
  | none => (.ok (), b)
  | some original =>
      let b := { b with orders := b.orders.erase originalRef }
      let b := b.removeFromQueue original.side original.price originalRef
      (.ok (), b.insertOrder newRef original.side newShares newPrice original.mpid)

/-! ## Apply -/

/-- Apply one message to the book. -/
def apply (b : L3Book) : Message → Except BookError Unit × L3Book
  | .addOrder m =>
      if m.header.stockLocate ≠ b.stockLocate then (.ok (), b)
      else (.ok (), b.insertOrder m.orderRef m.side m.shares m.price none)
  | .addOrderWithMpid m =>
      if m.header.stockLocate ≠ b.stockLocate then (.ok (), b)
      else (.ok (), b.insertOrder m.orderRef m.side m.shares m.price (some m.attribution))
  | .orderExecuted m => b.execute m.orderRef m.executedShares
  | .orderExecutedWithPrice m => b.execute m.orderRef m.executedShares
  | .orderCancel m => b.cancel m.orderRef m.cancelledShares
  | .orderDelete m => (.ok (), b.delete m.orderRef)
  | .orderReplace m => b.replace m.originalOrderRef m.newOrderRef m.shares m.price
  -- session and informational kinds
  | .systemEvent _ | .stockDirectory _ | .stockTradingAction _ | .regShoRestriction _
  | .marketParticipantPosition _ | .mwcbDeclineLevel _ | .mwcbStatus _
  | .ipoQuotingPeriodUpdate _ | .tradeNonCross _ | .crossTrade _ | .brokenTrade _
  | .noii _ | .retailPriceImprovement _ => (.ok (), b)

/-- Apply a feed, going on after errors. -/
def run (b : L3Book) (msgs : List Message) : L3Book :=
  msgs.foldl (fun b m => (b.apply m).2) b

@[simp] theorem run_nil (b : L3Book) : b.run [] = b := rfl

@[simp] theorem run_cons (b : L3Book) (m : Message) (msgs : List Message) :
    b.run (m :: msgs) = (b.apply m).2.run msgs := rfl

theorem run_append (b : L3Book) (msgs msgs' : List Message) :
    b.run (msgs ++ msgs') = (b.run msgs).run msgs' :=
  List.foldl_append

/-! ## Frame lemmas -/

/-- The queue of a level, empty if it is not listed. -/
def queue (b : L3Book) (side : Side) (price : Price4) : List OrderReference :=
  (b.levels side)[price]?.getD []

/-- The book without an order of the index. -/
def remove (b : L3Book) (r : OrderReference) (e : L3OrderEntry) : L3Book :=
  { b.removeFromQueue e.side e.price r with orders := b.orders.erase r }

section Frame

variable {b : L3Book} {side side' : Side} {price price' : Price4} {r : OrderReference}
  {ls : FinMap Price4 (List OrderReference)} {o : FinMap OrderReference L3OrderEntry}

@[simp] theorem setLevels_orders : (b.setLevels side ls).orders = b.orders := by
  cases side <;> rfl

@[simp] theorem setLevels_stockLocate : (b.setLevels side ls).stockLocate = b.stockLocate := by
  cases side <;> rfl

@[simp] theorem setLevels_arrivalSeq : (b.setLevels side ls).arrivalSeq = b.arrivalSeq := by
  cases side <;> rfl

theorem levels_setLevels :
    (b.setLevels side ls).levels side' = if side = side' then ls else b.levels side' := by
  cases side <;> cases side' <;> rfl

@[simp] theorem levels_setOrders : { b with orders := o }.levels side = b.levels side := by
  cases side <;> rfl

@[simp] theorem queue_setOrders : { b with orders := o }.queue side price = b.queue side price := by
  rw [queue, queue, levels_setOrders]

theorem setLevels_setOrders :
    { b.setLevels side ls with orders := o } = { b with orders := o }.setLevels side ls := by
  cases side <;> rfl

/-- The index and the queues are updated independently. -/
theorem removeFromQueue_setOrders :
    { b with orders := o }.removeFromQueue side price r
      = { b.removeFromQueue side price r with orders := o } := by
  unfold removeFromQueue
  rw [levels_setOrders]
  cases (b.levels side)[price]? with
  | none => rfl
  | some q => exact setLevels_setOrders.symm

@[simp] theorem removeFromQueue_stockLocate :
    (b.removeFromQueue side price r).stockLocate = b.stockLocate := by
  unfold removeFromQueue
  cases (b.levels side)[price]? with
  | none => rfl
  | some q => exact setLevels_stockLocate

@[simp] theorem removeFromQueue_arrivalSeq :
    (b.removeFromQueue side price r).arrivalSeq = b.arrivalSeq := by
  unfold removeFromQueue
  cases (b.levels side)[price]? with
  | none => rfl
  | some q => exact setLevels_arrivalSeq

variable {q : List OrderReference}

/-- A queue that is not empty is listed. -/
theorem levels_of_queue (h : b.queue side price = r :: q) :
    (b.levels side)[price]? = some (r :: q) := by
  rw [queue] at h
  cases hl : (b.levels side)[price]? with
  | none =>
      rw [hl] at h
      cases h
  | some q' =>
      rw [hl, Option.getD_some] at h
      rw [h]

theorem get_putQueue :
    (putQueue ls price q)[price']? =
      if price = price' then (if q = [] then none else some q) else ls[price']? := by
  unfold putQueue
  cases q with
  | nil => simp [FinMap.get_erase]
  | cons a q => simp [FinMap.get_insert]

theorem queue_removeFromQueue :
    (b.removeFromQueue side price r).queue side' price' =
      if side = side' ∧ price = price' then (b.queue side' price').erase r
      else b.queue side' price' := by
  unfold removeFromQueue queue
  cases hget : (b.levels side)[price]? with
  | none =>
      by_cases h : side = side' ∧ price = price'
      · obtain ⟨rfl, rfl⟩ := h
        simp [hget]
      · rw [if_neg h]
  | some q =>
      simp only
      rw [levels_setLevels]
      by_cases hs : side = side'
      · subst hs
        rw [if_pos rfl, get_putQueue]
        by_cases hp : price = price'
        · subst hp
          by_cases hq : q.erase r = []
          · simp [hget, hq]
          · simp [hget, hq]
        · simp [hp]
      · simp [hs]

theorem levels_insertOrder {n : UInt32} {mpid : Option Mpid} :
    (b.insertOrder r side n price mpid).levels side' =
      if side = side' then (b.levels side).insert price (b.queue side price ++ [r])
      else b.levels side' := by
  cases side <;> cases side' <;> rfl

theorem queue_insertOrder {n : UInt32} {mpid : Option Mpid} :
    (b.insertOrder r side n price mpid).queue side' price' =
      b.queue side' price' ++ if side = side' ∧ price = price' then [r] else [] := by
  rw [queue, levels_insertOrder]
  by_cases hs : side = side'
  · subst hs
    rw [if_pos rfl, FinMap.get_insert]
    by_cases hp : price = price'
    · subst hp
      simp
    · simp [hp, queue]
  · simp [hs, queue]

@[simp] theorem insertOrder_orders {n : UInt32} {mpid : Option Mpid} :
    (b.insertOrder r side n price mpid).orders = b.orders.insert r
      { price := price, shares := n, side := side, stockLocate := b.stockLocate, mpid := mpid,
        arrivalSeq := (b.arrivalSeq + 1) % 2 ^ 64 } := by
  cases side <;> rfl

@[simp] theorem insertOrder_arrivalSeq {n : UInt32} {mpid : Option Mpid} :
    (b.insertOrder r side n price mpid).arrivalSeq = (b.arrivalSeq + 1) % 2 ^ 64 := by
  cases side <;> rfl

@[simp] theorem insertOrder_stockLocate {n : UInt32} {mpid : Option Mpid} :
    (b.insertOrder r side n price mpid).stockLocate = b.stockLocate := by
  cases side <;> rfl

@[simp] theorem remove_orders {e : L3OrderEntry} : (b.remove r e).orders = b.orders.erase r := rfl

@[simp] theorem remove_arrivalSeq {e : L3OrderEntry} :
    (b.remove r e).arrivalSeq = b.arrivalSeq :=
  removeFromQueue_arrivalSeq

@[simp] theorem remove_stockLocate {e : L3OrderEntry} :
    (b.remove r e).stockLocate = b.stockLocate :=
  removeFromQueue_stockLocate

theorem queue_remove {e : L3OrderEntry} :
    (b.remove r e).queue side price =
      if e.side = side ∧ e.price = price then (b.queue side price).erase r
      else b.queue side price := by
  rw [remove, queue_setOrders, queue_removeFromQueue]

end Frame

/-! ## What the mutators do -/

section Spec

variable {b : L3Book} {r : OrderReference} {e : L3OrderEntry} {n : UInt32} {price : Price4}

theorem execute_of_none (hget : b.orders[r]? = none) : b.execute r n = (.ok (), b) := by
  rw [execute, hget]

theorem cancel_of_none (hget : b.orders[r]? = none) : b.cancel r n = (.ok (), b) := by
  rw [cancel, hget]

theorem execute_of_lt (hget : b.orders[r]? = some e) (hlt : e.shares < n) :
    b.execute r n = (.error (.overExecution r n e.shares), b) := by
  rw [execute, hget]
  exact if_pos hlt

theorem cancel_of_lt (hget : b.orders[r]? = some e) (hlt : e.shares < n) :
    b.cancel r n = (.error (.overExecution r n e.shares), b) := by
  rw [cancel, hget]
  exact if_pos hlt

/-- An order that keeps shares is updated in place. -/
theorem execute_partly (hget : b.orders[r]? = some e) (hlt : n < e.shares) :
    b.execute r n =
      (.ok (), { b with orders := b.orders.insert r { e with shares := e.shares - n } }) := by
  rw [execute, hget]
  simp only [UInt32.lt_asymm hlt, if_false, Word32.sub_beq_zero_of_lt hlt, Bool.false_eq_true]

theorem cancel_partly (hget : b.orders[r]? = some e) (hlt : n < e.shares) :
    b.cancel r n =
      (.ok (), { b with orders := b.orders.insert r { e with shares := e.shares - n } }) := by
  rw [cancel, hget]
  simp only [UInt32.lt_asymm hlt, if_false, Word32.sub_beq_zero_of_lt hlt, Bool.false_eq_true]

/-- An exhausted order at the front of its queue leaves the book. -/
theorem execute_front {q : List OrderReference} (hget : b.orders[r]? = some e)
    (hq : (b.levels e.side)[e.price]? = some (r :: q)) :
    b.execute r e.shares = (.ok (), b.remove r e) := by
  rw [execute, hget]
  simp only [UInt32.lt_irrefl, if_false, UInt32.sub_self, beq_self_eq_true, if_true,
    levels_setOrders, hq, setLevels_orders, FinMap.erase_insert_self]
  rw [remove, removeFromQueue, hq]
  simp only [List.erase_cons_head]
  cases e.side <;> rfl

/-- An exhausted order whose level has no queue only leaves the index. -/
theorem execute_no_queue (hget : b.orders[r]? = some e) (hq : b.queue e.side e.price = []) :
    b.execute r e.shares = (.ok (), { b with orders := b.orders.erase r }) := by
  rw [execute, hget]
  simp only [UInt32.lt_irrefl, if_false, UInt32.sub_self, beq_self_eq_true, if_true,
    levels_setOrders, FinMap.erase_insert_self]
  rw [queue] at hq
  cases hl : (b.levels e.side)[e.price]? with
  | none => rfl
  | some q =>
      rw [hl, Option.getD_some] at hq
      rw [hq]

/-- An exhausted order that is not at the front stays, with no shares left. -/
theorem execute_not_front {q : List OrderReference} {front : OrderReference}
    (hget : b.orders[r]? = some e) (hq : (b.levels e.side)[e.price]? = some (front :: q))
    (hne : front ≠ r) :
    b.execute r e.shares = (.error (.fifoViolation r front),
      { b with orders := b.orders.insert r { e with shares := 0 } }) := by
  rw [execute, hget]
  simp only [UInt32.lt_irrefl, if_false, UInt32.sub_self, beq_self_eq_true, if_true,
    levels_setOrders, hq, hne]

theorem cancel_fully (hget : b.orders[r]? = some e) :
    b.cancel r e.shares = (.ok (), b.remove r e) := by
  rw [cancel, hget]
  simp only [UInt32.lt_irrefl, if_false, UInt32.sub_self, beq_self_eq_true, if_true,
    removeFromQueue_setOrders, FinMap.erase_insert_self, remove]

theorem delete_of_none (hget : b.orders[r]? = none) : b.delete r = b := by
  rw [delete, hget]

theorem delete_of_some (hget : b.orders[r]? = some e) : b.delete r = b.remove r e := by
  rw [delete, hget]
  exact removeFromQueue_setOrders

theorem replace_of_none {r' : OrderReference} (hget : b.orders[r]? = none) :
    b.replace r r' n price = (.ok (), b) := by
  rw [replace, hget]

/-- A replace is a removal followed by an insertion that keeps side and attribution. -/
theorem replace_of_some {r' : OrderReference} (hget : b.orders[r]? = some e) :
    b.replace r r' n price = (.ok (), (b.remove r e).insertOrder r' e.side n price e.mpid) := by
  rw [replace, hget]
  simp only [removeFromQueue_setOrders, remove]

end Spec

end L3Book

end Itch
