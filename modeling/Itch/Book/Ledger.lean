import Itch.Book.L2Totals

/-!
# Where the shares of a level come from and go to

`Exact` ties the total of a level to the open orders.  The ledger of a level ties it to the
messages: what entered by `A`, `F` and `U`, what was executed by `E` and `C`, what was
cancelled by `X`, and what was withdrawn by `D` and `U`.  An `E`, `C`, `X`, `D` or `U` does
not name a level; it is booked to the level of the order it names, and to none if the order
is not in the book or has fewer shares.

Every message changes the open shares of every level by its entry in the level's ledger
(`openShares_apply`), so over a whole feed the books balance.
-/

namespace Itch

open Lib

/-- Shares that moved into and out of a level. -/
structure Ledger where
  entered : Nat := 0
  executed : Nat := 0
  cancelled : Nat := 0
  withdrawn : Nat := 0
deriving Repr, DecidableEq

namespace Ledger

/-- Everything that left the level. -/
def out (l : Ledger) : Nat :=
  l.executed + l.cancelled + l.withdrawn

/-- Two entries together. -/
def add (l l' : Ledger) : Ledger where
  entered := l.entered + l'.entered
  executed := l.executed + l'.executed
  cancelled := l.cancelled + l'.cancelled
  withdrawn := l.withdrawn + l'.withdrawn

@[simp] theorem entered_add (l l' : Ledger) : (l.add l').entered = l.entered + l'.entered := rfl

@[simp] theorem out_add (l l' : Ledger) : (l.add l').out = l.out + l'.out := by
  simp only [out, add]
  omega

end Ledger

namespace L2Book

/-- Shares of an order in the book, at the level of the order. -/
def sharesOf (b : L2Book) (side : Side) (price : Price4) (r : OrderReference) : Nat :=
  match b.orders[r]? with
  | none => 0
  | some e => e.sharesAt side price

/-- Shares a message takes off an order in the book, at the level of the order.  An order
with fewer shares is left alone. -/
def takenOf (b : L2Book) (side : Side) (price : Price4) (r : OrderReference) (n : UInt32) : Nat :=
  match b.orders[r]? with
  | none => 0
  | some e =>
      if e.shares < n then 0
      else if e.side = side ∧ e.price = price then n.toNat else 0

/-- Shares that a replace enters, on the side of the order it replaces. -/
def reenteredOf (b : L2Book) (side : Side) (price : Price4) (m : OrderReplace) : Nat :=
  match b.orders[m.originalOrderRef]? with
  | none => 0
  | some e => if e.side = side ∧ m.price = price then m.shares.toNat else 0

/-- The entry of a message in the ledger of a level. -/
def bookEntry (b : L2Book) (side : Side) (price : Price4) : Message → Ledger
  | .addOrder m =>
      { entered := if m.header.stockLocate = b.stockLocate ∧ m.side = side ∧ m.price = price
          then m.shares.toNat else 0 }
  | .addOrderWithMpid m =>
      { entered := if m.header.stockLocate = b.stockLocate ∧ m.side = side ∧ m.price = price
          then m.shares.toNat else 0 }
  | .orderExecuted m => { executed := b.takenOf side price m.orderRef m.executedShares }
  | .orderExecutedWithPrice m => { executed := b.takenOf side price m.orderRef m.executedShares }
  | .orderCancel m => { cancelled := b.takenOf side price m.orderRef m.cancelledShares }
  | .orderDelete m => { withdrawn := b.sharesOf side price m.orderRef }
  | .orderReplace m =>
      { withdrawn := b.sharesOf side price m.originalOrderRef
        entered := b.reenteredOf side price m }
  | _ => {}

/-- The ledger of a level over a feed. -/
def ledger (side : Side) (price : Price4) : L2Book → List Message → Ledger
  | _, [] => {}
  | b, m :: msgs => (b.bookEntry side price m).add (ledger side price (b.apply m).2 msgs)

section Entries

variable {b : L2Book} {side : Side} {price : Price4} {r : OrderReference} {n : UInt32}

theorem openShares_execute :
    openShares (b.execute r n).2.orders side price + b.takenOf side price r n =
      openShares b.orders side price := by
  unfold takenOf
  cases hget : b.orders[r]? with
  | none => rw [execute_of_none hget, Nat.add_zero]
  | some e =>
      rcases Word32.lt_or_eq_or_gt e.shares n with hlt | rfl | hlt
      · rw [execute_of_lt hget hlt]
        simp only [if_pos hlt, Nat.add_zero]
      · rw [execute_fully hget, reduce_orders]
        simp only [UInt32.lt_irrefl, if_false]
        exact openShares_erase hget side price
      · rw [execute_partly hget hlt, reduce_orders]
        simp only [UInt32.lt_asymm hlt, if_false]
        exact openShares_update hget (UInt32.le_of_lt hlt) side price

theorem openShares_delete :
    openShares (b.delete r).orders side price + b.sharesOf side price r =
      openShares b.orders side price := by
  unfold sharesOf
  cases hget : b.orders[r]? with
  | none => rw [delete_of_none hget, Nat.add_zero]
  | some e =>
      rw [delete_orders]
      exact openShares_erase hget side price

theorem openShares_replace {m : OrderReplace}
    (hfresh : m.originalOrderRef ∈ b.orders → m.newOrderRef ≠ m.originalOrderRef →
      m.newOrderRef ∉ b.orders) :
    openShares (b.replace m.originalOrderRef m.newOrderRef m.shares m.price).2.orders side price +
        b.sharesOf side price m.originalOrderRef =
      openShares b.orders side price + b.reenteredOf side price m := by
  rw [← @openShares_delete b side price m.originalOrderRef]
  unfold reenteredOf
  cases hget : b.orders[m.originalOrderRef]? with
  | none => rw [replace_of_none hget, delete_of_none hget, Nat.add_zero]
  | some e =>
      have hnew : m.newOrderRef ∉ (b.delete m.originalOrderRef).orders := by
        rw [delete_orders, FinMap.mem_erase_iff]
        rintro ⟨hne, hmem⟩
        exact hfresh (FinMap.mem_of_get hget) hne.symm hmem
      rw [replace_of_some hget, openShares_addOrder hnew]
      dsimp only
      omega

/-- `A` and `F` open an order if they are about this symbol. -/
theorem openShares_add {locate : StockLocate} {side' : Side} {price' : Price4}
    (hfresh : locate = b.stockLocate → r ∉ b.orders) :
    openShares (if locate ≠ b.stockLocate then ((.ok (), b) : Except BookError Unit × L2Book)
        else (.ok (), b.addOrder r side' n price')).2.orders side price =
      openShares b.orders side price +
        if locate = b.stockLocate ∧ side' = side ∧ price' = price then n.toNat else 0 := by
  by_cases hl : locate = b.stockLocate
  · rw [if_neg (not_not_intro hl), openShares_addOrder (hfresh hl)]
    simp only [hl, true_and]
  · simp only [ne_eq, hl, not_false_eq_true, if_true, false_and, if_false, Nat.add_zero]

/-- A message changes the open shares of a level by its entry in the ledger. -/
theorem openShares_apply {m : Message} (hfresh : m.AddsFresh b.stockLocate (· ∈ b.orders)) :
    openShares (b.apply m).2.orders side price + (b.bookEntry side price m).out =
      openShares b.orders side price + (b.bookEntry side price m).entered := by
  cases m with
  | addOrder m => exact openShares_add hfresh
  | addOrderWithMpid m => exact openShares_add hfresh
  | orderExecuted m =>
      have h := @openShares_execute b side price m.orderRef m.executedShares
      simpa [apply, bookEntry, Ledger.out] using h
  | orderExecutedWithPrice m =>
      have h := @openShares_execute b side price m.orderRef m.executedShares
      simpa [apply, bookEntry, Ledger.out] using h
  | orderCancel m =>
      have h := @openShares_execute b side price m.orderRef m.cancelledShares
      simpa [apply, bookEntry, Ledger.out] using h
  | orderDelete m =>
      have h := @openShares_delete b side price m.orderRef
      simpa [apply, bookEntry, Ledger.out] using h
  | orderReplace m =>
      have h := @openShares_replace b side price m hfresh
      simpa [apply, bookEntry, Ledger.out] using h
  | _ => rfl

/-- Over a feed the open shares of a level change by the ledger. -/
theorem openShares_run {msgs : List Message} (hfeed : b.CleanFeed msgs) :
    openShares (b.run msgs).orders side price + (ledger side price b msgs).out =
      openShares b.orders side price + (ledger side price b msgs).entered := by
  induction msgs generalizing b with
  | nil => rfl
  | cons m msgs ih =>
      have hhead := @openShares_apply b side price m hfeed.2.1
      have htail := ih hfeed.2.2
      rw [run_cons, ledger, Ledger.out_add, Ledger.entered_add]
      omega

end Entries

/-- On a clean feed, errors included, the total the book shows at a level is what entered
there less what was executed, cancelled and withdrawn there, after every message. -/
theorem shares_accounted (locate : StockLocate) (msgs : List Message)
    (hfeed : (new locate).CleanFeed msgs) (side : Side) (price : Price4) :
    ((new locate).run msgs).total side price + (ledger side price (new locate) msgs).executed +
        (ledger side price (new locate) msgs).cancelled +
        (ledger side price (new locate) msgs).withdrawn =
      (ledger side price (new locate) msgs).entered := by
  have hexact := (exact_new locate).run hfeed
  have hrun := @openShares_run (new locate) side price msgs hfeed
  have hempty : openShares (new locate).orders side price = 0 := by simp [new, openShares]
  rw [hempty, Nat.zero_add] at hrun
  rw [hexact.total_eq, ← hrun, Ledger.out]
  omega

theorem shares_accounted_sampleFeed :
    ledger .buy 100 (new 1) sampleFeed
      = { entered := 160, executed := 70, cancelled := 0, withdrawn := 30 } ∧
    ((new 1).run sampleFeed).total .buy 100 + (ledger .buy 100 (new 1) sampleFeed).executed +
        (ledger .buy 100 (new 1) sampleFeed).cancelled +
        (ledger .buy 100 (new 1) sampleFeed).withdrawn =
      (ledger .buy 100 (new 1) sampleFeed).entered :=
  ⟨by decide +kernel, shares_accounted 1 sampleFeed (by decide +kernel) .buy 100⟩

end L2Book

end Itch
