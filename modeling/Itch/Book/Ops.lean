import Itch.Book.L2Totals
import Itch.Book.L3Queues

/-!
# What a message asks of a book

Seven of the twenty message kinds mutate a book, and both books read the same five
operations out of them.  `Message.op` is that reading.  An `A` or `F` is read only for
the symbol of the book; the other five kinds are read for every symbol, since the book
resolves them by order reference.  `apply_eq` says that applying a message is running its
operation, so that a fact about a book is proved per operation and not per message kind.
-/

namespace Itch

open Lib

/-- An operation on a book. -/
inductive BookOp where
  | add (orderRef : OrderReference) (side : Side) (shares : UInt32) (price : Price4)
      (mpid : Option Mpid)
  | execute (orderRef : OrderReference) (shares : UInt32)
  | cancel (orderRef : OrderReference) (shares : UInt32)
  | delete (orderRef : OrderReference)
  | replace (originalRef newRef : OrderReference) (shares : UInt32) (price : Price4)
deriving Repr, DecidableEq

/-- The operation a message asks of the book of a symbol. -/
def Message.op (locate : StockLocate) : Message → Option BookOp
  | .addOrder m =>
      if m.header.stockLocate ≠ locate then none
      else some (.add m.orderRef m.side m.shares m.price none)
  | .addOrderWithMpid m =>
      if m.header.stockLocate ≠ locate then none
      else some (.add m.orderRef m.side m.shares m.price (some m.attribution))
  | .orderExecuted m => some (.execute m.orderRef m.executedShares)
  | .orderExecutedWithPrice m => some (.execute m.orderRef m.executedShares)
  | .orderCancel m => some (.cancel m.orderRef m.cancelledShares)
  | .orderDelete m => some (.delete m.orderRef)
  | .orderReplace m => some (.replace m.originalOrderRef m.newOrderRef m.shares m.price)
  | _ => none

/-- Run an operation. -/
def L2Book.step (b : L2Book) : BookOp → Except BookError Unit × L2Book
  | .add r side n price _ => (.ok (), b.addOrder r side n price)
  | .execute r n => b.execute r n
  -- the L2 book has no queues, so a cancel is an execution
  | .cancel r n => b.execute r n
  | .delete r => (.ok (), b.delete r)
  | .replace r r' n price => b.replace r r' n price

@[inherit_doc L2Book.step]
def L3Book.step (b : L3Book) : BookOp → Except BookError Unit × L3Book
  | .add r side n price mpid => (.ok (), b.insertOrder r side n price mpid)
  | .execute r n => b.execute r n
  | .cancel r n => b.cancel r n
  | .delete r => (.ok (), b.delete r)
  | .replace r r' n price => b.replace r r' n price

theorem L2Book.apply_eq (b : L2Book) (m : Message) :
    b.apply m = (m.op b.stockLocate).elim (.ok (), b) b.step := by
  cases m with
  | addOrder m =>
      by_cases hl : m.header.stockLocate = b.stockLocate <;> simp [apply, Message.op, step, hl]
  | addOrderWithMpid m =>
      by_cases hl : m.header.stockLocate = b.stockLocate <;> simp [apply, Message.op, step, hl]
  | _ => rfl

theorem L3Book.apply_eq (b : L3Book) (m : Message) :
    b.apply m = (m.op b.stockLocate).elim (.ok (), b) b.step := by
  cases m with
  | addOrder m =>
      by_cases hl : m.header.stockLocate = b.stockLocate <;> simp [apply, Message.op, step, hl]
  | addOrderWithMpid m =>
      by_cases hl : m.header.stockLocate = b.stockLocate <;> simp [apply, Message.op, step, hl]
  | _ => rfl

theorem L2Book.apply_of_op {b : L2Book} {m : Message} {op : BookOp}
    (h : m.op b.stockLocate = some op) : b.apply m = b.step op := by
  rw [apply_eq, h, Option.elim_some]

theorem L2Book.apply_of_no_op {b : L2Book} {m : Message} (h : m.op b.stockLocate = none) :
    b.apply m = (.ok (), b) := by
  rw [apply_eq, h, Option.elim_none]

theorem L3Book.apply_of_op {b : L3Book} {m : Message} {op : BookOp}
    (h : m.op b.stockLocate = some op) : b.apply m = b.step op := by
  rw [apply_eq, h, Option.elim_some]

theorem L3Book.apply_of_no_op {b : L3Book} {m : Message} (h : m.op b.stockLocate = none) :
    b.apply m = (.ok (), b) := by
  rw [apply_eq, h, Option.elim_none]

/-! ## References -/

namespace BookOp

/-- The reference the operation looks up. -/
def looksUp : BookOp → Option OrderReference
  | add _ _ _ _ _ => none
  | execute r _ => some r
  | cancel r _ => some r
  | delete r => some r
  | replace r _ _ _ => some r

/-- The reference the operation enters into the index. -/
def enters : BookOp → Option OrderReference
  | add r _ _ _ _ => some r
  | replace _ r' _ _ => some r'
  | _ => none

/-- The operation enters no reference that is live when it does so. -/
def Fresh (live : OrderReference → Prop) : BookOp → Prop
  | add r _ _ _ _ => ¬ live r
  | replace r r' _ _ => live r → r' ≠ r → ¬ live r'
  | _ => True

end BookOp

theorem Message.AddsFresh.op {locate : StockLocate} {live : OrderReference → Prop} {m : Message}
    {o : BookOp} (h : m.AddsFresh locate live) (ho : m.op locate = some o) : o.Fresh live := by
  cases m with
  | addOrder m =>
      rw [Message.op] at ho
      split at ho
      next => cases ho
      next hl =>
        cases ho
        exact h (not_not.mp hl)
  | addOrderWithMpid m =>
      rw [Message.op] at ho
      split at ho
      next => cases ho
      next hl =>
        cases ho
        exact h (not_not.mp hl)
  | orderReplace m =>
      cases ho
      exact h
  | _ => cases ho <;> trivial

section Frame

variable {r : OrderReference} {n : UInt32}

@[simp] theorem L2Book.execute_stockLocate (b : L2Book) :
    (b.execute r n).2.stockLocate = b.stockLocate := by
  cases hget : b.orders[r]? with
  | none => rw [execute_of_none hget]
  | some e =>
      rcases Word32.lt_or_eq_or_gt e.shares n with hlt | rfl | hlt
      · rw [execute_of_lt hget hlt]
      · rw [execute_fully hget, reduce_stockLocate]
      · rw [execute_partly hget hlt, reduce_stockLocate]

@[simp] theorem L2Book.delete_stockLocate (b : L2Book) :
    (b.delete r).stockLocate = b.stockLocate := by
  cases hget : b.orders[r]? with
  | none => rw [delete_of_none hget]
  | some e => rw [delete_of_some hget, reduce_stockLocate]

/-- A book stays with its symbol. -/
@[simp] theorem L2Book.apply_stockLocate (b : L2Book) (m : Message) :
    (b.apply m).2.stockLocate = b.stockLocate := by
  cases ho : m.op b.stockLocate with
  | none => rw [apply_of_no_op ho]
  | some op =>
      rw [apply_of_op ho]
      cases op with
      | add => exact addOrder_stockLocate
      | execute | cancel => exact b.execute_stockLocate
      | delete => exact b.delete_stockLocate
      | replace r r' n price =>
          cases hget : b.orders[r]? with
          | none => rw [step, replace_of_none hget]
          | some e => rw [step, replace_of_some hget, addOrder_stockLocate, delete_stockLocate]

/-- A rejected execution leaves the book alone. -/
theorem L2Book.execute_of_error {b : L2Book} (h : (b.execute r n).1 ≠ .ok ()) :
    (b.execute r n).2 = b := by
  cases hget : b.orders[r]? with
  | none => rw [execute_of_none hget]
  | some e =>
      rcases Word32.lt_or_eq_or_gt e.shares n with hlt | rfl | hlt
      · rw [execute_of_lt hget hlt]
      · rw [execute_fully hget] at h
        exact absurd rfl h
      · rw [execute_partly hget hlt] at h
        exact absurd rfl h

/-- A rejected message leaves the book alone. -/
theorem L2Book.apply_of_error {b : L2Book} {m : Message} (h : (b.apply m).1 ≠ .ok ()) :
    (b.apply m).2 = b := by
  cases hop : m.op b.stockLocate with
  | none => rw [apply_of_no_op hop]
  | some op =>
      rw [apply_of_op hop] at h ⊢
      cases op with
      | add | delete => exact absurd rfl h
      | execute | cancel => exact execute_of_error h
      | replace r r' n price =>
          cases hget : b.orders[r]? with
          | none => rw [step, replace_of_none hget]
          | some e =>
              rw [step, replace_of_some hget] at h
              exact absurd rfl h

@[simp] theorem L3Book.execute_stockLocate (b : L3Book) :
    (b.execute r n).2.stockLocate = b.stockLocate := by
  unfold execute
  split
  next => rfl
  next =>
    simp only
    split
    · rfl
    · split
      · split
        · rfl
        · rfl
        · split
          · exact setLevels_stockLocate
          · rfl
      · rfl

@[simp] theorem L3Book.cancel_stockLocate (b : L3Book) :
    (b.cancel r n).2.stockLocate = b.stockLocate := by
  cases hget : b.orders[r]? with
  | none => rw [cancel_of_none hget]
  | some e =>
      rcases Word32.lt_or_eq_or_gt e.shares n with hlt | rfl | hlt
      · rw [cancel_of_lt hget hlt]
      · rw [cancel_fully hget, remove_stockLocate]
      · rw [cancel_partly hget hlt]

/-- A book stays with its symbol. -/
@[simp] theorem L3Book.apply_stockLocate (b : L3Book) (m : Message) :
    (b.apply m).2.stockLocate = b.stockLocate := by
  cases hop : m.op b.stockLocate with
  | none => rw [apply_of_no_op hop]
  | some op =>
      rw [apply_of_op hop]
      cases op with
      | add => exact insertOrder_stockLocate
      | execute => exact b.execute_stockLocate
      | cancel => exact b.cancel_stockLocate
      | delete r =>
          cases hget : b.orders[r]? with
          | none => rw [step, delete_of_none hget]
          | some e => rw [step, delete_of_some hget, remove_stockLocate]
      | replace r r' n price =>
          cases hget : b.orders[r]? with
          | none => rw [step, replace_of_none hget]
          | some e => rw [step, replace_of_some hget, insertOrder_stockLocate, remove_stockLocate]

end Frame

end Itch
