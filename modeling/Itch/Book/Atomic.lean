import Itch.Book.Foreign
import Itch.Book.Manager

/-!
# Failed updates

A message that a book rejects should leave the book as it found it.  The L2 book checks
before it writes.  The L3 book subtracts the executed shares first and looks at the queue
afterwards: a FIFO violation puts the front of the queue back, but not the shares, so the
rejected order stays in the index with none.  That is the only rejected update that leaves a
trace, and the trace is the share count of that one order.
-/

namespace Itch

open Lib

namespace L3Book

variable {b : L3Book} {r : OrderReference} {e : L3OrderEntry} {n : UInt32} {m : Message}

/-- The message executes all the shares an order has left, at least one, while another order
is at the front of its queue. -/
def ExhaustsBehindFront (b : L3Book) (m : Message) : Prop :=
  ∃ (r : OrderReference) (e : L3OrderEntry) (front : OrderReference),
    m.op b.stockLocate = some (.execute r e.shares) ∧ b.orders[r]? = some e ∧ 0 < e.shares ∧
      (b.queue e.side e.price).head? = some front ∧ front ≠ r

theorem not_exhaustsBehindFront (h : ∀ (r : OrderReference) (n : UInt32),
    m.op b.stockLocate ≠ some (.execute r n)) : ¬ b.ExhaustsBehindFront m := by
  rintro ⟨r, e, front, hop, -⟩
  exact h r e.shares hop

theorem exhaustsBehindFront_iff (hop : m.op b.stockLocate = some (.execute r n))
    (hget : b.orders[r]? = some e) :
    b.ExhaustsBehindFront m ↔
      e.shares = n ∧ 0 < e.shares ∧ ∃ front ∈ (b.queue e.side e.price).head?, front ≠ r := by
  constructor
  · rintro ⟨r', e', front, hop', hget', hpos, hhead, hne⟩
    cases hop.symm.trans hop'
    cases hget.symm.trans hget'
    exact ⟨rfl, hpos, front, hhead, hne⟩
  · rintro ⟨rfl, hpos, front, hhead, hne⟩
    exact ⟨r, e, front, hop, hget, hpos, hhead, hne⟩

/-- Taking the last shares off an order in place changes the book unless there are none. -/
theorem exhaust_eq_self_iff (hget : b.orders[r]? = some e) :
    { b with orders := b.orders.insert r { e with shares := 0 } } = b ↔ e.shares = 0 := by
  rw [setOrders_eq_self_iff, FinMap.insert_eq_self_iff, hget, Option.some.injEq]
  exact ⟨fun h => congrArg L3OrderEntry.shares h, fun h => by rw [← h]⟩

/-- An execution that exhausts its order fails only behind the front, and then it has already
taken the shares. -/
theorem execute_fully_atomic_iff (hget : b.orders[r]? = some e) :
    ((b.execute r e.shares).1 ≠ .ok () → (b.execute r e.shares).2 = b) ↔
      ¬ (0 < e.shares ∧ ∃ front ∈ (b.queue e.side e.price).head?, front ≠ r) := by
  cases hq : b.queue e.side e.price with
  | nil =>
      rw [execute_no_queue hget hq]
      refine iff_of_true (fun h => absurd rfl h) ?_
      rintro ⟨-, front, hhead, -⟩
      cases hhead
  | cons front q =>
      have hlevel := levels_of_queue hq
      by_cases hf : front = r
      · subst hf
        rw [execute_front hget hlevel]
        refine iff_of_true (fun h => absurd rfl h) ?_
        rintro ⟨-, front', hhead, hne⟩
        cases hhead
        exact hne rfl
      · rw [execute_not_front hget hlevel hf]
        have hlost : (0 < e.shares ∧ ∃ front' ∈ (front :: q).head?, front' ≠ r) ↔ 0 < e.shares :=
          and_iff_left ⟨front, rfl, hf⟩
        rw [hlost, UInt32.pos_iff_ne_zero, not_not, ← exhaust_eq_self_iff hget]
        exact ⟨fun h => h nofun, fun h _ => h⟩

theorem execute_atomic_iff (hop : m.op b.stockLocate = some (.execute r n)) :
    ((b.execute r n).1 ≠ .ok () → (b.execute r n).2 = b) ↔ ¬ b.ExhaustsBehindFront m := by
  cases hget : b.orders[r]? with
  | none =>
      rw [execute_of_none hget]
      refine iff_of_true (fun _ => rfl) ?_
      rintro ⟨r', e, front, hop', hget', -⟩
      cases hop.symm.trans hop'
      cases hget.symm.trans hget'
  | some e =>
      rw [exhaustsBehindFront_iff hop hget]
      rcases Word32.lt_or_eq_or_gt e.shares n with hlt | rfl | hlt
      · rw [execute_of_lt hget hlt]
        exact iff_of_true (fun _ => rfl) fun h => UInt32.ne_of_lt hlt h.1
      · rw [execute_fully_atomic_iff hget, and_iff_right rfl]
      · rw [execute_partly hget hlt]
        exact iff_of_true (fun h => absurd rfl h) fun h => UInt32.ne_of_lt hlt h.1.symm

theorem cancel_of_error (h : (b.cancel r n).1 ≠ .ok ()) : (b.cancel r n).2 = b := by
  cases hget : b.orders[r]? with
  | none => rw [cancel_of_none hget]
  | some e =>
      rcases Word32.lt_or_eq_or_gt e.shares n with hlt | rfl | hlt
      · rw [cancel_of_lt hget hlt]
      · rw [cancel_fully hget] at h
        exact absurd rfl h
      · rw [cancel_partly hget hlt] at h
        exact absurd rfl h

theorem replace_ok {r' : OrderReference} {price : Price4} :
    (b.replace r r' n price).1 = .ok () := by
  cases hget : b.orders[r]? with
  | none => rw [replace_of_none hget]
  | some e => rw [replace_of_some hget]

/-- A rejected message leaves the L3 book alone exactly if it exhausts no order behind the
front of its queue. -/
theorem apply_atomic_iff :
    ((b.apply m).1 ≠ .ok () → (b.apply m).2 = b) ↔ ¬ b.ExhaustsBehindFront m := by
  cases hop : m.op b.stockLocate with
  | none =>
      rw [apply_of_no_op hop]
      exact iff_of_true (fun _ => rfl) (not_exhaustsBehindFront (by simp [hop]))
  | some op =>
      rw [apply_of_op hop]
      cases op with
      | add | delete =>
          exact iff_of_true (fun h => absurd rfl h) (not_exhaustsBehindFront (by simp [hop]))
      | execute r n => exact execute_atomic_iff hop
      | cancel r n => exact iff_of_true cancel_of_error (not_exhaustsBehindFront (by simp [hop]))
      | replace r r' n price =>
          exact iff_of_true (fun h => absurd replace_ok h)
            (not_exhaustsBehindFront (by simp [hop]))

end L3Book

/-- A message the L2 book rejects never changes it.  A message the L3 book rejects leaves it
alone exactly if it exhausts no order behind the front of its queue. -/
theorem failed_update_atomic_iff (l2 : L2Book) (l3 : L3Book) (m : Message) :
    ((l2.apply m).1 ≠ .ok () → (l2.apply m).2 = l2) ∧
    (((l3.apply m).1 ≠ .ok () → (l3.apply m).2 = l3) ↔ ¬ l3.ExhaustsBehindFront m) :=
  ⟨L2Book.apply_of_error, L3Book.apply_atomic_iff⟩

/-- Two orders in one queue, and the second is executed: the book reports the violation and
has taken all of its shares. -/
theorem failed_execution_takes_shares :
    (((L3Book.new 1).run [L3Book.buyMsg 1 10, L3Book.buyMsg 2 10]).apply
      (BookManager.executeMsg 2 100)).1 = .error (.fifoViolation 2 1) ∧
    (((L3Book.new 1).run [L3Book.buyMsg 1 10, L3Book.buyMsg 2 10]).orders[
      (2 : OrderReference)]?).map L3OrderEntry.shares = some 100 ∧
    ((((L3Book.new 1).run [L3Book.buyMsg 1 10, L3Book.buyMsg 2 10]).apply
      (BookManager.executeMsg 2 100)).2.orders[(2 : OrderReference)]?).map
        L3OrderEntry.shares = some 0 := by
  decide +kernel

end Itch
