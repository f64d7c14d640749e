import Itch.Lib.Run
import Itch.Book.Ops
import Itch.Book.Simulation

/-!
# The book manager

The manager routes a feed of many symbols: it reads the symbol of each message and hands
the message to the L2 book of that symbol and then, unless the L2 book returned an error,
to the L3 book.  Books are created on first sight, so an absent book is an empty one.

The two books of a symbol are written one after the other.  The only error the L3 book
can raise once the L2 book has changed is a FIFO violation, and it raises it with the
remaining shares of the order already set to zero.  `FrontFeed` is the condition under
which that never happens: an execution that exhausts an order names the front of its
queue.
-/

namespace Itch

open Lib

/-- Multi-symbol router. -/
structure BookManager where
  /-- Symbol of each locate, from the `R` messages. -/
  directory : FinMap StockLocate Stock
  l2 : FinMap StockLocate L2Book
  l3 : FinMap StockLocate L3Book
  /-- Sequence of the last applied message, a `u64` bumped with a plain `+= 1`. -/
  lastSeq : Nat

namespace BookManager

/-- An empty manager. -/
def new : BookManager where
  directory := ∅
  l2 := ∅
  l3 := ∅
  lastSeq := 0

/-- The L2 book of a symbol, a fresh one if there is none yet. -/
def l2Book (mgr : BookManager) (locate : StockLocate) : L2Book :=
  mgr.l2[locate]?.getD (L2Book.new locate)

/-- The L3 book of a symbol, a fresh one if there is none yet. -/
def l3Book (mgr : BookManager) (locate : StockLocate) : L3Book :=
  mgr.l3[locate]?.getD (L3Book.new locate)

/-- The directory entry an `R` message leaves. -/
def recordSymbol (mgr : BookManager) : Message → BookManager
  | .stockDirectory r =>
      { mgr with directory := mgr.directory.insert r.header.stockLocate r.stock }
  | _ => mgr

/-- Apply one message. -/
def apply (mgr : BookManager) (msg : Message) : Except BookError Unit × BookManager :=
  let mgr := { mgr with lastSeq := (mgr.lastSeq + 1) % 2 ^ 64 }
  let mgr := mgr.recordSymbol msg
  let locate := msg.header.stockLocate
  let (result, l2) := (mgr.l2Book locate).apply msg
  let mgr := { mgr with l2 := mgr.l2.insert locate l2 }
  match result with
  -- the L3 book is not consulted
  | .error e => (.error e, mgr)
  | .ok () =>
      let (result, l3) := (mgr.l3Book locate).apply msg
      (result, { mgr with l3 := mgr.l3.insert locate l3 })

/-- Apply a feed, going on after errors. -/
def run (mgr : BookManager) (msgs : List Message) : BookManager :=
  msgs.foldl (fun mgr m => (mgr.apply m).2) mgr

@[simp] theorem run_nil (mgr : BookManager) : mgr.run [] = mgr := rfl

@[simp] theorem run_cons (mgr : BookManager) (m : Message) (msgs : List Message) :
    mgr.run (m :: msgs) = (mgr.apply m).2.run msgs := rfl

/-! ## What one message does -/

section Spec

variable {mgr : BookManager} {m : Message} {locate : StockLocate}

@[simp] theorem recordSymbol_l2 : (mgr.recordSymbol m).l2 = mgr.l2 := by
  cases m <;> rfl

@[simp] theorem recordSymbol_l3 : (mgr.recordSymbol m).l3 = mgr.l3 := by
  cases m <;> rfl

theorem apply_l2 : (mgr.apply m).2.l2 =
    mgr.l2.insert m.header.stockLocate ((mgr.l2Book m.header.stockLocate).apply m).2 := by
  simp only [apply, l2Book, recordSymbol_l2]
  split <;> simp

theorem apply_l3 : (mgr.apply m).2.l3 =
    if ((mgr.l2Book m.header.stockLocate).apply m).1 = .ok () then
      mgr.l3.insert m.header.stockLocate ((mgr.l3Book m.header.stockLocate).apply m).2
    else mgr.l3 := by
  simp only [apply, l2Book, l3Book, recordSymbol_l2]
  split
  next h => simp [h]
  next h => simp [h]

/-- A message reaches the L2 book of its symbol. -/
theorem l2Book_apply : (mgr.apply m).2.l2Book locate =
    if m.header.stockLocate = locate then ((mgr.l2Book locate).apply m).2
    else mgr.l2Book locate := by
  rw [l2Book, apply_l2, FinMap.get_insert]
  split
  next h => rw [h, Option.getD_some]
  next => rfl

/-- A message reaches the L3 book of its symbol unless the L2 book rejects it. -/
theorem l3Book_apply : (mgr.apply m).2.l3Book locate =
    if m.header.stockLocate = locate ∧ ((mgr.l2Book locate).apply m).1 = .ok () then
      ((mgr.l3Book locate).apply m).2
    else mgr.l3Book locate := by
  rw [l3Book, apply_l3]
  by_cases hl : m.header.stockLocate = locate
  · subst hl
    by_cases hok : ((mgr.l2Book m.header.stockLocate).apply m).1 = .ok ()
    · simp [hok, l3Book]
    · simp [hok, l3Book]
  · split
    next => simp [hl, l3Book, FinMap.get_insert]
    next => simp [hl, l3Book]

theorem l2Book_new : new.l2Book locate = L2Book.new locate := by
  simp [l2Book, new]

theorem l3Book_new : new.l3Book locate = L3Book.new locate := by
  simp [l3Book, new]

end Spec

end BookManager

/-! ## Executions at the front -/

theorem noViolation_ok : NoViolation (.ok ()) := by
  intro expected got h
  cases h

theorem noViolation_overExecution {r : OrderReference} {n k : UInt32} :
    NoViolation (.error (.overExecution r n k)) := by
  intro expected got h
  cases h

namespace L3Book

/-- An execution that takes all the shares an order has left names the front of the queue of
that order. -/
def HitsFront (b : L3Book) : BookOp → Prop
  | .execute r n => ∀ e ∈ b.orders[r]?, e.shares = n → (b.queue e.side e.price).head? = some r
  | _ => True

variable {b : L3Book} {r : OrderReference} {e : L3OrderEntry} {n : UInt32}

theorem head?_queue {side : Side} {price : Price4} {front : OrderReference}
    {q : List OrderReference} (h : (b.levels side)[price]? = some (front :: q)) :
    (b.queue side price).head? = some front := by
  rw [queue, h, Option.getD_some, List.head?_cons]

/-- An execution at the front is no FIFO violation. -/
theorem WellQueued.noViolation_execute (hq : b.WellQueued) (h : b.HitsFront (.execute r n)) :
    NoViolation (b.execute r n).1 := by
  cases hget : b.orders[r]? with
  | none =>
      rw [execute_of_none hget]
      exact noViolation_ok
  | some e =>
      rcases Word32.lt_or_eq_or_gt e.shares n with hlt | heq | hlt
      · rw [execute_of_lt hget hlt]
        exact noViolation_overExecution
      · obtain ⟨front, q, hqueue⟩ := hq.exists_queue hget
        have hfront := h e hget heq
        rw [head?_queue hqueue, Option.some.injEq] at hfront
        subst hfront heq
        rw [execute_front hget hqueue]
        exact noViolation_ok
      · rw [execute_partly hget hlt]
        exact noViolation_ok

theorem noViolation_cancel : NoViolation (b.cancel r n).1 := by
  cases hget : b.orders[r]? with
  | none =>
      rw [cancel_of_none hget]
      exact noViolation_ok
  | some e =>
      rcases Word32.lt_or_eq_or_gt e.shares n with hlt | rfl | hlt
      · rw [cancel_of_lt hget hlt]
        exact noViolation_overExecution
      · rw [cancel_fully hget]
        exact noViolation_ok
      · rw [cancel_partly hget hlt]
        exact noViolation_ok

theorem noViolation_replace {r' : OrderReference} {price : Price4} :
    NoViolation (b.replace r r' n price).1 := by
  cases hget : b.orders[r]? with
  | none =>
      rw [replace_of_none hget]
      exact noViolation_ok
  | some e =>
      rw [replace_of_some hget]
      exact noViolation_ok

/-- Only an execution behind the front is a FIFO violation. -/
theorem WellQueued.noViolation (hq : b.WellQueued) {m : Message}
    (h : ∀ op ∈ m.op b.stockLocate, b.HitsFront op) : NoViolation (b.apply m).1 := by
  cases hop : m.op b.stockLocate with
  | none =>
      rw [apply_of_no_op hop]
      exact noViolation_ok
  | some op =>
      rw [apply_of_op hop]
      cases op with
      | add => exact noViolation_ok
      | execute r n => exact hq.noViolation_execute (h _ hop)
      | cancel => exact noViolation_cancel
      | delete => exact noViolation_ok
      | replace => exact noViolation_replace

end L3Book

/-! ## Agreement -/

/-- The two books hold the same live orders with the same price, side and remaining
shares. -/
def BooksAgree (l2 : L2Book) (l3 : L3Book) : Prop :=
  ∀ r : OrderReference, (l2.orders[r]?).map (fun e => (e.price, e.side, e.shares))
    = (l3.orders[r]?).map fun e => (e.price, e.side, e.shares)

theorem SameOrders.booksAgree {l3 : L3Book} {l2 : L2Book} (h : SameOrders l3 l2) :
    BooksAgree l2 l3 := by
  intro r
  rw [h.orders, FinMap.get_map, Option.map_map]
  rfl

/-- An execution behind the front drops the order from the L2 book and keeps it in the L3
book. -/
theorem SameOrders.not_booksAgree {l3 : L3Book} {l2 : L2Book} (h : SameOrders l3 l2)
    (hq : l3.WellQueued) {op : BookOp} (hop : ¬ l3.HitsFront op) :
    (l2.step op).1 = .ok () ∧ ¬ BooksAgree (l2.step op).2 (l3.step op).2 := by
  cases op with
  | execute r n =>
      rw [L3Book.HitsFront] at hop
      push Not at hop
      obtain ⟨e, hget, rfl, hne⟩ := hop
      obtain ⟨front, q, hqueue⟩ := hq.exists_queue hget
      rw [L3Book.head?_queue hqueue, ne_eq, Option.some.injEq] at hne
      have hl2 : l2.step (.execute r e.shares) = _ := L2Book.execute_fully (h.get_some hget)
      have hl3 : l3.step (.execute r e.shares) = _ := L3Book.execute_not_front hget hqueue hne
      rw [hl2, hl3]
      refine ⟨rfl, fun hagree => ?_⟩
      have hr := hagree r
      rw [L2Book.reduce_orders, FinMap.get_erase, FinMap.get_insert, if_pos rfl, if_pos rfl] at hr
      cases hr
  | add | cancel | delete | replace => exact absurd trivial hop

namespace BookManager

/-- The two books of every symbol agree. -/
def Agree (mgr : BookManager) : Prop :=
  ∀ locate, BooksAgree (mgr.l2Book locate) (mgr.l3Book locate)

/-- No message of the feed adds a reference that is live in the book of its symbol. -/
def FreshFeed : BookManager → List Message → Prop
  | _, [] => True
  | mgr, m :: msgs =>
      m.AddsFresh m.header.stockLocate (· ∈ (mgr.l2Book m.header.stockLocate).orders) ∧
        FreshFeed (mgr.apply m).2 msgs

/-- Every execution of the feed that exhausts an order names the front of its queue. -/
def FrontFeed : BookManager → List Message → Prop
  | _, [] => True
  | mgr, m :: msgs =>
      (∀ op ∈ m.op m.header.stockLocate, (mgr.l3Book m.header.stockLocate).HitsFront op) ∧
        FrontFeed (mgr.apply m).2 msgs

/-- The books of every symbol hold the same orders, and the L3 queues are in order. -/
structure InStep (mgr : BookManager) : Prop where
  pinned : ∀ locate, (mgr.l3Book locate).stockLocate = locate
  same : ∀ locate, SameOrders (mgr.l3Book locate) (mgr.l2Book locate)
  queued : ∀ locate, (mgr.l3Book locate).WellQueued

theorem inStep_new : new.InStep where
  pinned locate := by rw [l3Book_new]; rfl
  same locate := by
    rw [l3Book_new, l2Book_new]
    exact SameOrders.new locate
  queued locate := by
    rw [l3Book_new]
    exact L3Book.wellQueued_new locate

section Steps

variable {mgr : BookManager} {m : Message}

theorem InStep.agree (h : mgr.InStep) : mgr.Agree :=
  fun locate => (h.same locate).booksAgree

theorem InStep.l2_pinned (h : mgr.InStep) (locate : StockLocate) :
    (mgr.l2Book locate).stockLocate = locate :=
  (h.same locate).stockLocate.trans (h.pinned locate)

/-- What a message does to the books of its own symbol decides about all of them. -/
theorem InStep.of_books (h : mgr.InStep)
    (hpinned : ((mgr.apply m).2.l3Book m.header.stockLocate).stockLocate = m.header.stockLocate)
    (hsame : SameOrders ((mgr.apply m).2.l3Book m.header.stockLocate)
      ((mgr.apply m).2.l2Book m.header.stockLocate))
    (hqueued : ((mgr.apply m).2.l3Book m.header.stockLocate).WellQueued) :
    (mgr.apply m).2.InStep := by
  have hother : ∀ locate, m.header.stockLocate ≠ locate →
      (mgr.apply m).2.l2Book locate = mgr.l2Book locate ∧
        (mgr.apply m).2.l3Book locate = mgr.l3Book locate := by
    intro locate hne
    rw [l2Book_apply, l3Book_apply, if_neg hne, if_neg fun hl => hne hl.1]
    exact ⟨rfl, rfl⟩
  refine ⟨fun locate => ?_, fun locate => ?_, fun locate => ?_⟩ <;>
    by_cases hl : m.header.stockLocate = locate
  · exact hl ▸ hpinned
  · rw [(hother locate hl).2]
    exact h.pinned locate
  · exact hl ▸ hsame
  · rw [(hother locate hl).1, (hother locate hl).2]
    exact h.same locate
  · exact hl ▸ hqueued
  · rw [(hother locate hl).2]
    exact h.queued locate

/-- As long as executions hit the front, the books stay in step.  A message that the L2 book
rejects, and which the L3 book never sees, is one that the L3 book would reject too. -/
theorem InStep.apply (h : mgr.InStep)
    (hfresh : m.AddsFresh m.header.stockLocate (· ∈ (mgr.l2Book m.header.stockLocate).orders))
    (hfront : ∀ op ∈ m.op m.header.stockLocate, (mgr.l3Book m.header.stockLocate).HitsFront op) :
    (mgr.apply m).2.InStep := by
  have hsame := h.same m.header.stockLocate
  have hq := h.queued m.header.stockLocate
  have hfresh3 := hsame.addsFresh (m := m) (by rwa [h.l2_pinned])
  obtain ⟨-, hsame'⟩ := hsame.apply (hq.noViolation (m := m) (by rwa [h.pinned]))
  apply h.of_books
  · rw [l3Book_apply]
    split
    next => rw [L3Book.apply_stockLocate, h.pinned]
    next => exact h.pinned _
  · rw [l2Book_apply, l3Book_apply, if_pos rfl]
    split
    next => exact hsame'
    next hskip =>
      rw [L2Book.apply_of_error fun hok => hskip ⟨rfl, hok⟩]
      exact hsame
  · rw [l3Book_apply]
    split
    next => exact (hq.step hfresh3).wellQueued hq
    next => exact hq

theorem InStep.not_agree (h : mgr.InStep) {op : BookOp} (hop : m.op m.header.stockLocate = some op)
    (hfront : ¬ (mgr.l3Book m.header.stockLocate).HitsFront op) : ¬ (mgr.apply m).2.Agree := by
  obtain ⟨hok, hne⟩ := (h.same m.header.stockLocate).not_booksAgree (h.queued _) hfront
  have hl2 : (mgr.l2Book m.header.stockLocate).apply m = _ :=
    L2Book.apply_of_op (by rwa [h.l2_pinned])
  have hl3 : (mgr.l3Book m.header.stockLocate).apply m = _ :=
    L3Book.apply_of_op (by rwa [h.pinned])
  intro hagree
  have hagree := hagree m.header.stockLocate
  rw [l2Book_apply, l3Book_apply, if_pos rfl, hl2, hl3, if_pos ⟨rfl, hok⟩] at hagree
  exact hne hagree

/-- From books in step, agreement at every point of the feed is the same as every exhausting
execution hitting the front: the first one that does not breaks it. -/
theorem InStep.agree_iff_frontFeed {msgs : List Message} (h : mgr.InStep)
    (hfresh : mgr.FreshFeed msgs) :
    (∀ before, before <+: msgs → (mgr.run before).Agree) ↔ mgr.FrontFeed msgs := by
  have hfeed := (along_iff (fun _ => trivial) fun _ _ _ => Iff.rfl).mp hfresh
  have hfront : mgr.FrontFeed msgs ↔ _ := along_iff (fun _ => trivial) fun _ _ _ => Iff.rfl
  rw [hfront]
  refine forall_prefix_iff_along hfeed h (fun _ => InStep.agree) (fun _ _ => InStep.apply) ?_
  intro mgr m h _ hagree op hop
  by_contra hnot
  exact h.not_agree hop hnot hagree

end Steps

/-- On a feed that adds no live reference, the L2 and the L3 book of every symbol hold the
same live orders after every message, errors included, exactly if every execution that
exhausts an order names the front of its queue. -/
theorem books_agree_iff_frontFeed (msgs : List Message) (hfresh : new.FreshFeed msgs) :
    (∀ before, before <+: msgs → ∀ locate,
      BooksAgree ((new.run before).l2Book locate) ((new.run before).l3Book locate)) ↔
    new.FrontFeed msgs :=
  inStep_new.agree_iff_frontFeed hfresh

/-- Executes `n` shares of order `r` of symbol 1. -/
def executeMsg (r : OrderReference) (n : Shares) : Message :=
  .orderExecuted { header := ⟨1, 0, 0⟩, orderRef := r, executedShares := n, matchNumber := 0 }

/-- Two orders of symbol 1 in one queue, and an execution of all of order `r`. -/
def exhaustFeed (r : OrderReference) : List Message :=
  [L3Book.buyMsg 1 10, L3Book.buyMsg 2 10, executeMsg r 100]

theorem freshFeed_exhaustFeed (r : OrderReference) : new.FreshFeed (exhaustFeed r) :=
  ⟨fun _ => by decide +kernel, fun _ => by decide +kernel, trivial, trivial⟩

/-- The front of the queue is executed, and the books agree that order 2 is left. -/
theorem books_agree_exhaustFeed :
    ((new.run (exhaustFeed 1)).l2Book 1).orders.toList.map Prod.fst = [2] ∧
    BooksAgree ((new.run (exhaustFeed 1)).l2Book 1) ((new.run (exhaustFeed 1)).l3Book 1) := by
  refine ⟨by decide +kernel,
    (books_agree_iff_frontFeed (exhaustFeed 1) (freshFeed_exhaustFeed 1)).mpr
      ⟨?_, ?_, ?_, trivial⟩ _ (List.prefix_refl _) 1⟩
  · rintro op ⟨rfl⟩
    trivial
  · rintro op ⟨rfl⟩
    trivial
  · have hget : ((new.run [L3Book.buyMsg 1 10, L3Book.buyMsg 2 10]).l3Book 1).orders[
        (1 : OrderReference)]? = some
        { price := 10, shares := 100, side := .buy, stockLocate := 1, mpid := none,
          arrivalSeq := 1 } := by decide +kernel
    rintro op ⟨rfl⟩ e he -
    cases hget.symm.trans he
    decide +kernel

/-- The order behind the front is executed: the L2 book drops it, the L3 book reports a FIFO
violation and keeps it, with no shares left. -/
theorem books_disagree_behind_front :
    new.FreshFeed (exhaustFeed 2) ∧
    ((new.run (exhaustFeed 2)).l2Book 1).orders[(2 : OrderReference)]? = none ∧
    (((new.run (exhaustFeed 2)).l3Book 1).orders[(2 : OrderReference)]?).map
      L3OrderEntry.shares = some 0 :=
  ⟨freshFeed_exhaustFeed 2, by decide +kernel⟩

end BookManager

end Itch
