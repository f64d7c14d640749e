import Itch.Lib.Before
import Itch.Book.L3Queues

/-!
# Time priority of the L3 book

`WellQueued` is about one book.  Here two moments of a feed are compared.  While an order
rests, that is stays in the book and is not replaced, a message can do only one thing to
the orders in front of it: take out one that leaves the book or is replaced
(`Step.ahead_cases`).  So nobody overtakes it, and whoever is in front of another order
stays there as long as both rest.

An execution that would exhaust an order with others in front of it is refused with a FIFO
violation.  Such a return still changes the book: the order keeps its place with no shares
left.
-/

namespace Itch

open Lib

namespace L3Book

/-- The orders in front of an order in the queue of its level. -/
def ahead (b : L3Book) (r : OrderReference) : List OrderReference :=
  match b.orders[r]? with
  | none => []
  | some e => before (b.queue e.side e.price) r

/-- Side and price of an order. -/
def levelOf (b : L3Book) (r : OrderReference) : Option (Side × Price4) :=
  (b.orders[r]?).map fun e => (e.side, e.price)

/-- An order is in the book after a message, which did not replace it. -/
def Keeps (m : Message) (b' : L3Book) (r : OrderReference) : Prop :=
  r ∈ b'.orders ∧ ∀ u : OrderReplace, m = .orderReplace u → u.originalOrderRef ≠ r

/-- An order stays in the book throughout the feed and is not replaced by it. -/
def Rests (r : OrderReference) : L3Book → List Message → Prop
  | _, [] => True
  | b, m :: msgs => Keeps m (b.apply m).2 r ∧ Rests r (b.apply m).2 msgs

section Ahead

variable {b b' : L3Book} {r x : OrderReference} {e : L3OrderEntry} {m : Message}

theorem ahead_of_get (hget : b.orders[r]? = some e) :
    b.ahead r = before (b.queue e.side e.price) r := by
  rw [ahead, hget]

theorem exists_get_of_ahead (h : x ∈ b.ahead r) : ∃ e, b.orders[r]? = some e := by
  cases hget : b.orders[r]? with
  | none =>
      rw [ahead, hget] at h
      exact absurd h List.not_mem_nil
  | some e => exact ⟨e, rfl⟩

/-- The position of an order is the number of orders in front of it. -/
theorem WellQueued.queuePosition_eq (h : b.WellQueued) (hget : b.orders[r]? = some e) :
    b.queuePosition r = some (b.ahead r).length := by
  obtain ⟨front, q, hq⟩ := h.exists_queue hget
  have hqueue : b.queue e.side e.price = front :: q := by rw [queue, hq, Option.getD_some]
  have hmem : r ∈ front :: q := hqueue ▸ h.mem_of_get hget
  rw [ahead_of_get hget, hqueue, queuePosition, hget]
  simp only [Option.bind_eq_bind, Option.bind_some, hq]
  exact idxOf?_eq_length_before hmem

/-! ## One message -/

/-- An insertion goes to the back of its queue. -/
theorem WellQueued.ahead_insertOrder (h : b.WellQueued) (hget : b.orders[r]? = some e)
    (hfresh : x ∉ b.orders) (side : Side) (n : UInt32) (price : Price4) (mpid : Option Mpid) :
    (b.insertOrder x side n price mpid).ahead r = b.ahead r := by
  have hne : x ≠ r := fun hx => hfresh (hx ▸ FinMap.mem_of_get hget)
  have hget' : (b.insertOrder x side n price mpid).orders[r]? = some e := by
    rw [insertOrder_orders, FinMap.get_insert, if_neg hne, hget]
  rw [ahead_of_get hget', ahead_of_get hget, queue_insertOrder]
  exact before_append (h.mem_of_get hget) _

/-- A removal takes the removed order out of what is in front of the others. -/
theorem ahead_remove {e₀ : L3OrderEntry} (h : b.WellQueued) (hget : b.orders[r]? = some e)
    (hget₀ : b.orders[x]? = some e₀) (hne : x ≠ r) :
    (b.remove x e₀).ahead r = (b.ahead r).erase x := by
  have hget' : (b.remove x e₀).orders[r]? = some e := by
    rw [remove_orders, FinMap.get_erase, if_neg hne, hget]
  rw [ahead_of_get hget', ahead_of_get hget, queue_remove]
  by_cases hlevel : e₀.side = e.side ∧ e₀.price = e.price
  · rw [if_pos hlevel, before_erase hne]
  · rw [if_neg hlevel]
    -- the removed order was queued elsewhere, so there is nothing to take out
    refine (List.erase_of_not_mem fun hmem => hlevel ?_).symm
    have hx : x ∈ b.queue e.side e.price := (List.takeWhile_sublist _).subset hmem
    obtain ⟨e₁, hget₁, hlevel₁⟩ := (h.mem_queue _ _ _).mp hx
    rw [hget₀] at hget₁
    cases hget₁
    exact hlevel₁

theorem ahead_update {e₀ : L3OrderEntry} (hget₀ : b.orders[x]? = some e₀) (n : UInt32) :
    { b with orders := b.orders.insert x { e₀ with shares := n } }.ahead r = b.ahead r := by
  by_cases hx : x = r
  · subst hx
    rw [ahead_of_get hget₀, ahead, FinMap.get_insert, if_pos rfl]
    simp only [queue_setOrders]
  · rw [ahead, FinMap.get_insert, if_neg hx]
    simp only [queue_setOrders]
    rfl

/-- A message leaves the orders in front of a resting order as they are, or takes out one
that does not rest. -/
theorem Step.ahead_cases (hstep : Step b m b') (h : b.WellQueued) (hget : b.orders[r]? = some e)
    (hkeeps : Keeps m b' r) :
    b'.ahead r = b.ahead r ∨ ∃ x, ¬ Keeps m b' x ∧ b'.ahead r = (b.ahead r).erase x := by
  cases hstep with
  | stay => exact .inl rfl
  | insert side n price mpid _ hfresh =>
      exact .inl (h.ahead_insertOrder hget hfresh side n price mpid)
  | update n _ hget₀ => exact .inl (ahead_update hget₀ n)
  | @remove _ x e₀ _ hget₀ =>
      have hgone : x ∉ (b.remove x e₀).orders := by
        rw [remove_orders]
        exact fun hmem => (FinMap.mem_erase_iff.mp hmem).1 rfl
      have hne : x ≠ r := fun hx => hgone (hx ▸ hkeeps.1)
      exact .inr ⟨x, fun hx => hgone hx.1, ahead_remove h hget hget₀ hne⟩
  | @replace u e₀ hget₀ hfresh =>
      have hne : u.originalOrderRef ≠ r := hkeeps.2 u rfl
      have hget' : (b.remove u.originalOrderRef e₀).orders[r]? = some e := by
        rw [remove_orders, FinMap.get_erase, if_neg hne, hget]
      refine .inr ⟨u.originalOrderRef, fun hx => hx.2 u rfl rfl, ?_⟩
      rw [(h.remove hget₀).ahead_insertOrder hget' hfresh, ahead_remove h hget hget₀ hne]

theorem Step.levelOf_eq (hstep : Step b m b') (hget : b.orders[r]? = some e)
    (hkeeps : Keeps m b' r) : b'.levelOf r = b.levelOf r := by
  have hmem : r ∈ b.orders := FinMap.mem_of_get hget
  cases hstep with
  | stay => rfl
  | @insert _ x side n price mpid _ hfresh =>
      have hne : x ≠ r := fun hx => hfresh (hx ▸ hmem)
      rw [levelOf, insertOrder_orders, FinMap.get_insert, if_neg hne, levelOf]
  | @update _ x e₀ n _ hget₀ =>
      rw [levelOf, FinMap.get_insert, levelOf]
      split
      next hx =>
        subst hx
        rw [hget₀]
        rfl
      next => rfl
  | @remove _ x e₀ _ hget₀ =>
      have hne : x ≠ r := by
        rintro rfl
        exact (FinMap.mem_erase_iff.mp hkeeps.1).1 rfl
      rw [levelOf, remove_orders, FinMap.get_erase, if_neg hne, levelOf]
  | @replace u e₀ hget₀ hfresh =>
      have hne : u.originalOrderRef ≠ r := hkeeps.2 u rfl
      have hnew : u.newOrderRef ≠ r := fun hx =>
        hfresh (hx ▸ FinMap.mem_erase_iff.mpr ⟨hne, hmem⟩)
      rw [levelOf, insertOrder_orders, FinMap.get_insert, if_neg hnew, remove_orders,
        FinMap.get_erase, if_neg hne, levelOf]

/-! ## Executions -/

/-- An order with others in front of it is not executed in full: it stays in the book, and
it keeps shares unless the execution is refused. -/
theorem WellQueued.execute_behind (h : b.WellQueued) (hahead : x ∈ b.ahead r) (n : UInt32) :
    ∃ e : L3OrderEntry, (b.execute r n).2.orders[r]? = some e ∧
      ((b.execute r n).1 = .ok () → e.shares ≠ 0) := by
  obtain ⟨e, hget⟩ := exists_get_of_ahead hahead
  rcases Word32.lt_or_eq_or_gt e.shares n with hlt | rfl | hlt
  · rw [execute_of_lt hget hlt]
    exact ⟨e, hget, by rintro ⟨⟩⟩
  · obtain ⟨front, q, hq⟩ := h.exists_queue hget
    have hfront : front ≠ r := by
      rintro rfl
      rw [ahead_of_get hget, queue, hq, Option.getD_some, before_cons_self] at hahead
      exact List.not_mem_nil hahead
    rw [execute_not_front hget hq hfront]
    exact ⟨{ e with shares := 0 }, by rw [FinMap.get_insert, if_pos rfl], by rintro ⟨⟩⟩
  · rw [execute_partly hget hlt]
    exact ⟨{ e with shares := e.shares - n }, by rw [FinMap.get_insert, if_pos rfl],
      fun _ => beq_eq_false_iff_ne.mp (Word32.sub_beq_zero_of_lt hlt)⟩

/-! ## Feeds -/

theorem Step.mem_ahead (hstep : Step b m b') (h : b.WellQueued) (hahead : x ∈ b.ahead r)
    (hr : Keeps m b' r) (hx : Keeps m b' x) : x ∈ b'.ahead r := by
  obtain ⟨e, hget⟩ := exists_get_of_ahead hahead
  rcases hstep.ahead_cases h hget hr with heq | ⟨y, hy, heq⟩
  · rwa [heq]
  · have hne : x ≠ y := by
      rintro rfl
      exact hy hx
    rw [heq]
    exact (List.mem_erase_of_ne hne).mpr hahead

theorem Step.ahead_sublist (hstep : Step b m b') (h : b.WellQueued) (hget : b.orders[r]? = some e)
    (hkeeps : Keeps m b' r) : (b'.ahead r).Sublist (b.ahead r) := by
  rcases hstep.ahead_cases h hget hkeeps with heq | ⟨x, -, heq⟩
  · rw [heq]
  · rw [heq]
    exact List.erase_sublist

variable {msgs : List Message}

/-- A resting order stays at its level, and the orders in front of it only leave. -/
theorem WellQueued.rests (h : b.WellQueued) (hfeed : b.FreshFeed msgs) (hmem : r ∈ b.orders)
    (hrests : Rests r b msgs) :
    r ∈ (b.run msgs).orders ∧ (b.run msgs).levelOf r = b.levelOf r ∧
      ((b.run msgs).ahead r).Sublist (b.ahead r) := by
  induction msgs generalizing b with
  | nil => exact ⟨hmem, rfl, List.Sublist.refl _⟩
  | cons m msgs ih =>
      obtain ⟨e, hget⟩ := FinMap.mem_iff_get.mp hmem
      have hstep := h.step hfeed.1
      obtain ⟨hin, hlevel, hsub⟩ := ih (hstep.wellQueued h) hfeed.2 hrests.1.1 hrests.2
      exact ⟨hin, hlevel.trans (hstep.levelOf_eq hget hrests.1),
        hsub.trans (hstep.ahead_sublist h hget hrests.1)⟩

/-- Of two resting orders the one in front stays in front. -/
theorem WellQueued.rests_ahead (h : b.WellQueued) (hfeed : b.FreshFeed msgs)
    (hahead : x ∈ b.ahead r) (hr : Rests r b msgs) (hx : Rests x b msgs) :
    x ∈ (b.run msgs).ahead r := by
  induction msgs generalizing b with
  | nil => exact hahead
  | cons m msgs ih =>
      have hstep := h.step hfeed.1
      exact ih (hstep.wellQueued h) hfeed.2 (hstep.mem_ahead h hahead hr.1 hx.1) hr.2 hx.2

end Ahead

/-- Time priority, on every feed that adds no live reference, errors included.  While an
order rests it stays at its side and price, every order in front of it was in front of it
before, in the same order, and its position does not go up.  An order behind it stays
behind it while both rest, and no execution takes that order off the book: one that is
accepted leaves it shares. -/
theorem time_priority (locate : StockLocate) (earlier later : List Message)
    (hfeed : (new locate).FreshFeed (earlier ++ later)) (r : OrderReference)
    (hmem : r ∈ ((new locate).run earlier).orders)
    (hrests : Rests r ((new locate).run earlier) later) :
    ((new locate).run (earlier ++ later)).levelOf r = ((new locate).run earlier).levelOf r ∧
    (((new locate).run (earlier ++ later)).ahead r).Sublist (((new locate).run earlier).ahead r) ∧
    (∃ p p', ((new locate).run earlier).queuePosition r = some p ∧
      ((new locate).run (earlier ++ later)).queuePosition r = some p' ∧ p' ≤ p) ∧
    (∀ r', r ∈ ((new locate).run earlier).ahead r' →
      Rests r' ((new locate).run earlier) later →
      r ∈ ((new locate).run (earlier ++ later)).ahead r' ∧
      ∀ n, ∃ e : L3OrderEntry,
        (((new locate).run (earlier ++ later)).execute r' n).2.orders[r']? = some e ∧
        ((((new locate).run (earlier ++ later)).execute r' n).1 = .ok () → e.shares ≠ 0)) := by
  obtain ⟨hearlier, hlater⟩ := freshFeed_append.mp hfeed
  have h : ((new locate).run earlier).WellQueued := (wellQueued_new locate).run hearlier
  have h' : ((new locate).run (earlier ++ later)).WellQueued := (wellQueued_new locate).run hfeed
  rw [run_append] at h' ⊢
  obtain ⟨hin, hlevel, hsub⟩ := h.rests hlater hmem hrests
  obtain ⟨e, hget⟩ := FinMap.mem_iff_get.mp hmem
  obtain ⟨e', hget'⟩ := FinMap.mem_iff_get.mp hin
  refine ⟨hlevel, hsub, ⟨_, _, h.queuePosition_eq hget, h'.queuePosition_eq hget',
    hsub.length_le⟩, fun r' hahead hrests' => ?_⟩
  have hahead' := h.rests_ahead hlater hahead hrests' hrests
  exact ⟨hahead', h'.execute_behind hahead'⟩

/-- Orders 1, 2 and 3 join in turn; then order 1 is deleted and order 4 joins. -/
theorem time_priority_delete :
    ((new 1).run [buyMsg 1 10, buyMsg 2 10, buyMsg 3 10]).ahead 3 = [1, 2] ∧
    ((new 1).run ([buyMsg 1 10, buyMsg 2 10, buyMsg 3 10] ++ [deleteMsg 1, buyMsg 4 10])).ahead 4
      = [2, 3] ∧
    ∀ n, ∃ e : L3OrderEntry,
      (((new 1).run ([buyMsg 1 10, buyMsg 2 10, buyMsg 3 10] ++
        [deleteMsg 1, buyMsg 4 10])).execute 3 n).2.orders[(3 : OrderReference)]? = some e ∧
      ((((new 1).run ([buyMsg 1 10, buyMsg 2 10, buyMsg 3 10] ++
        [deleteMsg 1, buyMsg 4 10])).execute 3 n).1 = .ok () → e.shares ≠ 0) := by
  have hfeed : (new 1).FreshFeed
      ([buyMsg 1 10, buyMsg 2 10, buyMsg 3 10] ++ [deleteMsg 1, buyMsg 4 10]) :=
    ⟨fun _ => by decide +kernel, fun _ => by decide +kernel, fun _ => by decide +kernel, trivial,
      fun _ => by decide +kernel, trivial⟩
  have hrests : ∀ r ∈ ([2, 3] : List OrderReference),
      Rests r ((new 1).run [buyMsg 1 10, buyMsg 2 10, buyMsg 3 10]) [deleteMsg 1, buyMsg 4 10] := by
    intro r hr
    rcases List.mem_pair.mp hr with rfl | rfl
    · exact ⟨⟨by decide +kernel, by rintro _ ⟨⟩⟩, ⟨by decide +kernel, by rintro _ ⟨⟩⟩, trivial⟩
    · exact ⟨⟨by decide +kernel, by rintro _ ⟨⟩⟩, ⟨by decide +kernel, by rintro _ ⟨⟩⟩, trivial⟩
  have hpriority := time_priority 1 [buyMsg 1 10, buyMsg 2 10, buyMsg 3 10]
    [deleteMsg 1, buyMsg 4 10] hfeed 2 (by decide +kernel) (hrests 2 (by simp))
  exact ⟨by decide +kernel, by decide +kernel,
    (hpriority.2.2.2 3 (by decide +kernel) (hrests 3 (by simp))).2⟩

end L3Book

end Itch
