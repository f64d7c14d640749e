import Itch.Book.L3

/-!
# Queues of the L3 book

The index and the queues are separate maps.  `WellQueued` ties them together: a queue
holds, once each, exactly the orders of its side and price, and no listed queue is
empty.  Every mutator is made of three moves, inserting a fresh order, removing an
order, and changing the shares of an order in place, and each move keeps the two maps
in step.  Error returns are covered too: a FIFO violation is a change of shares.

`Sorted` adds that every queue is in arrival order.  It needs the arrival counter not
to wrap.
-/

namespace Itch

open Lib

namespace L3Book

/-- The queues agree with the order index. -/
structure WellQueued (b : L3Book) : Prop where
  /-- No listed queue is empty. -/
  nonempty : ∀ (side : Side) (price : Price4), (b.levels side)[price]? ≠ some []
  /-- No queue repeats an order. -/
  nodup : ∀ side price, (b.queue side price).Nodup
  /-- A queue holds the orders of its side and price. -/
  mem_queue : ∀ side price r, r ∈ b.queue side price ↔
    ∃ e : L3OrderEntry, b.orders[r]? = some e ∧ (e.side = side ∧ e.price = price)

/-- The arrival number of an order. -/
def arrival (b : L3Book) (r : OrderReference) : Nat :=
  (b.orders[r]?).elim 0 L3OrderEntry.arrivalSeq

/-- The queues are in arrival order. -/
structure Sorted (b : L3Book) : Prop where
  /-- Queues are strictly increasing in the arrival number. -/
  pairwise : ∀ side price, (b.queue side price).Pairwise fun r r' => b.arrival r < b.arrival r'
  /-- The counter is at least every arrival number. -/
  arrival_le : ∀ (r : OrderReference) (e : L3OrderEntry),
    b.orders[r]? = some e → e.arrivalSeq ≤ b.arrivalSeq

theorem wellQueued_new (locate : StockLocate) : (new locate).WellQueued where
  nonempty side price := by cases side <;> simp [levels, new]
  nodup side price := by cases side <;> simp [queue, levels, new]
  mem_queue side price r := by cases side <;> simp [queue, levels, new]

theorem sorted_new (locate : StockLocate) : (new locate).Sorted where
  pairwise side price := by cases side <;> simp [queue, levels, new]
  arrival_le r e h := by simp [new] at h

/-! ## Moves -/

section Moves

variable {b : L3Book} {r : OrderReference} {e : L3OrderEntry}

/-- A live order is in the queue of its level. -/
theorem WellQueued.mem_of_get (h : b.WellQueued) (hget : b.orders[r]? = some e) :
    r ∈ b.queue e.side e.price :=
  (h.mem_queue _ _ _).mpr ⟨e, hget, rfl, rfl⟩

/-- The queue of a live order's level is listed. -/
theorem WellQueued.exists_queue (h : b.WellQueued) (hget : b.orders[r]? = some e) :
    ∃ front q, (b.levels e.side)[e.price]? = some (front :: q) := by
  have hmem := h.mem_of_get hget
  have hne := h.nonempty e.side e.price
  rw [queue] at hmem
  cases hl : (b.levels e.side)[e.price]? with
  | none => simp [hl] at hmem
  | some q =>
      cases q with
      | nil => exact absurd hl hne
      | cons front q => exact ⟨front, q, rfl⟩

theorem WellQueued.insertOrder (h : b.WellQueued) (hfresh : r ∉ b.orders) (side : Side)
    (n : UInt32) (price : Price4) (mpid : Option Mpid) :
    (b.insertOrder r side n price mpid).WellQueued where
  nonempty side' price' := by
    rw [levels_insertOrder]
    split
    next hs =>
      subst hs
      rw [FinMap.get_insert]
      split
      next => simp
      next => exact h.nonempty _ _
    next => exact h.nonempty _ _
  nodup side' price' := by
    have hr : r ∉ b.queue side' price' := by
      intro hmem
      obtain ⟨e, hget, -⟩ := (h.mem_queue _ _ _).mp hmem
      exact hfresh (FinMap.mem_of_get hget)
    rw [queue_insertOrder]
    split
    next => exact List.concat_eq_append ▸ (h.nodup _ _).concat hr
    next => simpa using h.nodup side' price'
  mem_queue side' price' x := by
    rw [queue_insertOrder, List.mem_append, h.mem_queue, insertOrder_orders, FinMap.get_insert]
    by_cases hx : r = x
    · subst hx
      rw [FinMap.get_of_not_mem hfresh]
      by_cases hsp : side = side' ∧ price = price' <;> simp [hsp]
    · rw [if_neg hx]
      by_cases hsp : side = side' ∧ price = price' <;> simp [hsp, Ne.symm hx]

theorem WellQueued.remove (h : b.WellQueued) (hget : b.orders[r]? = some e) :
    (b.remove r e).WellQueued where
  nonempty side price := by
    rw [L3Book.remove, levels_setOrders, removeFromQueue]
    cases (b.levels e.side)[e.price]? with
    | none => exact h.nonempty _ _
    | some q =>
        simp only
        rw [levels_setLevels]
        split
        next hs =>
          subst hs
          rw [get_putQueue]
          split
          next =>
            by_cases hq : q.erase r = [] <;> simp [hq]
          next => exact h.nonempty _ _
        next => exact h.nonempty _ _
  nodup side price := by
    rw [queue_remove]
    split
    next => exact (h.nodup _ _).erase r
    next => exact h.nodup _ _
  mem_queue side price x := by
    rw [queue_remove, remove_orders, FinMap.get_erase]
    by_cases hx : r = x
    · subst hx
      split
      next => simpa using (h.nodup side price).not_mem_erase
      next hsp =>
        rw [h.mem_queue, hget]
        simpa using hsp
    · rw [if_neg hx, ← h.mem_queue]
      split
      next => exact List.mem_erase_of_ne (Ne.symm hx)
      next => rfl

/-- Changing an order without moving it. -/
theorem WellQueued.update (h : b.WellQueued) (hget : b.orders[r]? = some e) {e' : L3OrderEntry}
    (hside : e'.side = e.side) (hprice : e'.price = e.price) :
    { b with orders := b.orders.insert r e' }.WellQueued where
  nonempty side price := by
    rw [levels_setOrders]
    exact h.nonempty _ _
  nodup side price := by
    rw [queue_setOrders]
    exact h.nodup _ _
  mem_queue side price x := by
    rw [queue_setOrders, h.mem_queue, FinMap.get_insert]
    by_cases hx : r = x
    · subst hx
      simp [hget, hside, hprice]
    · rw [if_neg hx]

theorem arrival_of_get (hget : b.orders[r]? = some e) : b.arrival r = e.arrivalSeq := by
  rw [arrival, hget, Option.elim_some]

theorem arrival_remove {x : OrderReference} (hx : r ≠ x) :
    (b.remove r e).arrival x = b.arrival x := by
  rw [arrival, remove_orders, FinMap.get_erase, if_neg hx, arrival]

theorem Sorted.remove (hs : b.Sorted) (h : b.WellQueued) (hget : b.orders[r]? = some e) :
    (b.remove r e).Sorted where
  pairwise side price := by
    have hsub : ((b.remove r e).queue side price).Sublist (b.queue side price) := by
      rw [queue_remove]
      split
      next => exact List.erase_sublist
      next => exact List.Sublist.refl _
    -- what is left in the queue is still live, hence not the removed order
    have hne : ∀ x ∈ (b.remove r e).queue side price, r ≠ x := by
      rintro x hx rfl
      obtain ⟨e', hget', -⟩ := ((h.remove hget).mem_queue _ _ _).mp hx
      rw [remove_orders, FinMap.get_erase, if_pos rfl] at hget'
      cases hget'
    refine ((hs.pairwise side price).sublist hsub).imp_of_mem fun {x y} hx hy hlt => ?_
    rwa [arrival_remove (hne x hx), arrival_remove (hne y hy)]
  arrival_le x e' hx := by
    rw [remove_orders, FinMap.get_erase] at hx
    split at hx
    next => cases hx
    next =>
      rw [remove_arrivalSeq]
      exact hs.arrival_le x e' hx

theorem Sorted.update (hs : b.Sorted) (hget : b.orders[r]? = some e) (n : UInt32) :
    { b with orders := b.orders.insert r { e with shares := n } }.Sorted := by
  have harr : ∀ x, { b with orders := b.orders.insert r { e with shares := n } }.arrival x
      = b.arrival x := by
    intro x
    rw [arrival, FinMap.get_insert]
    split
    next hx =>
      subst hx
      rw [arrival_of_get hget, Option.elim_some]
    next => rfl
  refine ⟨fun side price => ?_, fun x e' hx => ?_⟩
  · simp only [harr, queue_setOrders]
    exact hs.pairwise side price
  · rw [FinMap.get_insert] at hx
    split at hx
    next =>
      cases hx
      exact hs.arrival_le r e hget
    next => exact hs.arrival_le x e' hx

theorem Sorted.insertOrder (hs : b.Sorted) (h : b.WellQueued) (hfresh : r ∉ b.orders)
    (hwrap : b.arrivalSeq + 1 < 2 ^ 64) (side : Side) (n : UInt32) (price : Price4)
    (mpid : Option Mpid) : (b.insertOrder r side n price mpid).Sorted := by
  have harr : ∀ x, (b.insertOrder r side n price mpid).arrival x =
      if r = x then b.arrivalSeq + 1 else b.arrival x := by
    intro x
    rw [arrival, insertOrder_orders, FinMap.get_insert]
    split
    next => rw [Option.elim_some, Nat.mod_eq_of_lt hwrap]
    next => rfl
  have hle : ∀ x side' price', x ∈ b.queue side' price' → r ≠ x ∧ b.arrival x ≤ b.arrivalSeq := by
    intro x side' price' hx
    obtain ⟨e, hget, -⟩ := (h.mem_queue _ _ _).mp hx
    refine ⟨fun hr => hfresh (hr ▸ FinMap.mem_of_get hget), ?_⟩
    rw [arrival_of_get hget]
    exact hs.arrival_le x e hget
  refine ⟨fun side' price' => ?_, fun x e' hx => ?_⟩
  · have hold : (b.queue side' price').Pairwise fun x y =>
        (b.insertOrder r side n price mpid).arrival x
          < (b.insertOrder r side n price mpid).arrival y := by
      refine (hs.pairwise side' price').imp_of_mem fun {x y} hx hy hlt => ?_
      rwa [harr, harr, if_neg (hle x _ _ hx).1, if_neg (hle y _ _ hy).1]
    rw [queue_insertOrder]
    split
    next =>
      refine List.pairwise_append.mpr ⟨hold, List.pairwise_singleton _ _, fun x hx y hy => ?_⟩
      rw [List.mem_singleton.mp hy, harr, harr, if_pos rfl, if_neg (hle x _ _ hx).1]
      exact Nat.lt_succ_of_le (hle x _ _ hx).2
    next => rwa [List.append_nil]
  · rw [insertOrder_orders, FinMap.get_insert] at hx
    rw [insertOrder_arrivalSeq, Nat.mod_eq_of_lt hwrap]
    split at hx
    next =>
      cases hx
      exact (Nat.mod_le _ _)
    next => exact Nat.le_succ_of_le (hs.arrival_le x e' hx)

end Moves

/-! ## Steps -/

/-- Applying the message inserts an order. -/
def inserts (b : L3Book) : Message → Bool
  | .addOrder m => m.header.stockLocate == b.stockLocate
  | .addOrderWithMpid m => m.header.stockLocate == b.stockLocate
  | .orderReplace m => (b.orders[m.originalOrderRef]?).isSome
  | _ => false

/-- What a message can do to a book. -/
inductive Step (b : L3Book) : Message → L3Book → Prop where
  | stay {m : Message} : b.inserts m = false → Step b m b
  | insert {m : Message} {r : OrderReference} (side : Side) (n : UInt32) (price : Price4)
      (mpid : Option Mpid) : b.inserts m = true → r ∉ b.orders →
      Step b m (b.insertOrder r side n price mpid)
  | update {m : Message} {r : OrderReference} {e : L3OrderEntry} (n : UInt32) :
      b.inserts m = false → b.orders[r]? = some e →
      Step b m { b with orders := b.orders.insert r { e with shares := n } }
  | remove {m : Message} {r : OrderReference} {e : L3OrderEntry} :
      b.inserts m = false → b.orders[r]? = some e → Step b m (b.remove r e)
  | replace {m : OrderReplace} {e : L3OrderEntry} :
      b.orders[m.originalOrderRef]? = some e →
      m.newOrderRef ∉ b.orders.erase m.originalOrderRef →
      Step b (.orderReplace m)
        ((b.remove m.originalOrderRef e).insertOrder m.newOrderRef e.side m.shares m.price e.mpid)

section Steps

variable {b : L3Book}

theorem step_execute (h : b.WellQueued) {m : Message} (hm : b.inserts m = false)
    (r : OrderReference) (n : UInt32) : Step b m (b.execute r n).2 := by
  cases hget : b.orders[r]? with
  | none =>
      rw [execute_of_none hget]
      exact .stay hm
  | some e =>
      rcases Word32.lt_or_eq_or_gt e.shares n with hlt | rfl | hlt
      · rw [execute_of_lt hget hlt]
        exact .stay hm
      · obtain ⟨front, q, hq⟩ := h.exists_queue hget
        by_cases hf : front = r
        · subst hf
          rw [execute_front hget hq]
          exact .remove hm hget
        · rw [execute_not_front hget hq hf]
          exact .update 0 hm hget
      · rw [execute_partly hget hlt]
        exact .update _ hm hget

theorem step_cancel {m : Message} (hm : b.inserts m = false) (r : OrderReference) (n : UInt32) :
    Step b m (b.cancel r n).2 := by
  cases hget : b.orders[r]? with
  | none =>
      rw [cancel_of_none hget]
      exact .stay hm
  | some e =>
      rcases Word32.lt_or_eq_or_gt e.shares n with hlt | rfl | hlt
      · rw [cancel_of_lt hget hlt]
        exact .stay hm
      · rw [cancel_fully hget]
        exact .remove hm hget
      · rw [cancel_partly hget hlt]
        exact .update _ hm hget

theorem step_delete {m : Message} (hm : b.inserts m = false) (r : OrderReference) :
    Step b m (b.delete r) := by
  cases hget : b.orders[r]? with
  | none =>
      rw [delete_of_none hget]
      exact .stay hm
  | some e =>
      rw [delete_of_some hget]
      exact .remove hm hget

theorem step_replace {m : OrderReplace}
    (hfresh : m.originalOrderRef ∈ b.orders → m.newOrderRef ≠ m.originalOrderRef →
      m.newOrderRef ∉ b.orders) :
    Step b (.orderReplace m) (b.replace m.originalOrderRef m.newOrderRef m.shares m.price).2 := by
  cases hget : b.orders[m.originalOrderRef]? with
  | none =>
      rw [replace_of_none hget]
      refine .stay ?_
      rw [inserts, hget, Option.isSome_none]
  | some e =>
      rw [replace_of_some hget]
      refine .replace hget fun hmem => ?_
      obtain ⟨hne, hmem⟩ := FinMap.mem_erase_iff.mp hmem
      exact hfresh (FinMap.mem_of_get hget) hne.symm hmem

/-- A message that adds no live reference takes one of the steps. -/
theorem WellQueued.step (h : b.WellQueued) {m : Message}
    (hfresh : m.AddsFresh b.stockLocate (· ∈ b.orders)) : Step b m (b.apply m).2 := by
  cases m with
  | addOrder m =>
      by_cases hl : m.header.stockLocate = b.stockLocate
      · simp only [apply, hl, ne_eq, not_true_eq_false, if_false]
        exact .insert _ _ _ _ (by simp [inserts, hl]) (hfresh hl)
      · simp only [apply, hl, ne_eq, not_false_eq_true, if_true]
        exact .stay (by simp [inserts, hl])
  | addOrderWithMpid m =>
      by_cases hl : m.header.stockLocate = b.stockLocate
      · simp only [apply, hl, ne_eq, not_true_eq_false, if_false]
        exact .insert _ _ _ _ (by simp [inserts, hl]) (hfresh hl)
      · simp only [apply, hl, ne_eq, not_false_eq_true, if_true]
        exact .stay (by simp [inserts, hl])
  | orderExecuted m => exact step_execute h rfl _ _
  | orderExecutedWithPrice m => exact step_execute h rfl _ _
  | orderCancel m => exact step_cancel rfl _ _
  | orderDelete m => exact step_delete rfl _
  | orderReplace m => exact step_replace hfresh
  | _ => exact .stay rfl

variable {m : Message} {b' : L3Book}

theorem Step.wellQueued (hstep : Step b m b') (h : b.WellQueued) : b'.WellQueued := by
  cases hstep with
  | stay => exact h
  | insert side n price mpid _ hfresh => exact h.insertOrder hfresh side n price mpid
  | update n _ hget => exact h.update hget rfl rfl
  | remove _ hget => exact h.remove hget
  | replace hget hfresh => exact (h.remove hget).insertOrder hfresh _ _ _ _

theorem Step.sorted (hstep : Step b m b') (h : b.WellQueued) (hs : b.Sorted)
    (hwrap : b.arrivalSeq + (b.inserts m).toNat < 2 ^ 64) : b'.Sorted := by
  cases hstep with
  | stay => exact hs
  | insert side n price mpid hins hfresh =>
      rw [hins] at hwrap
      exact hs.insertOrder h hfresh hwrap side n price mpid
  | update n _ hget => exact hs.update hget n
  | remove _ hget => exact hs.remove h hget
  | replace hget hfresh =>
      simp only [inserts, hget, Option.isSome_some, Bool.toNat_true] at hwrap
      exact (hs.remove h hget).insertOrder (h.remove hget) hfresh
        (by rwa [remove_arrivalSeq]) _ _ _ _

/-- The arrival counter counts insertions, up to a wrap. -/
theorem Step.arrivalSeq (hstep : Step b m b') (hwrap : b.arrivalSeq + (b.inserts m).toNat < 2 ^ 64) :
    b'.arrivalSeq = b.arrivalSeq + (b.inserts m).toNat := by
  cases hstep with
  | stay hins => simp [hins]
  | insert side n price mpid hins =>
      rw [hins, Bool.toNat_true] at hwrap ⊢
      rw [insertOrder_arrivalSeq, Nat.mod_eq_of_lt hwrap]
  | update n hins => simp [hins]
  | remove hins => simp [hins]
  | replace hget =>
      simp only [inserts, hget, Option.isSome_some, Bool.toNat_true] at hwrap ⊢
      rw [insertOrder_arrivalSeq, remove_arrivalSeq, Nat.mod_eq_of_lt hwrap]

/-- The arrival number of an order that stays in the book does not change.  Only a
replace of an order by itself re-enters a reference that was live. -/
theorem Step.arrival_eq (hstep : Step b m b') {r : OrderReference} {e e' : L3OrderEntry}
    (hget : b.orders[r]? = some e) (hget' : b'.orders[r]? = some e')
    (hself : ∀ u : OrderReplace, m = .orderReplace u →
      ¬ (u.originalOrderRef = r ∧ u.newOrderRef = r)) :
    e'.arrivalSeq = e.arrivalSeq := by
  cases hstep with
  | stay => rw [hget] at hget'; cases hget'; rfl
  | @insert _ r₀ side n price mpid _ hfresh =>
      have hne : r₀ ≠ r := fun hr => hfresh (hr ▸ FinMap.mem_of_get hget)
      rw [insertOrder_orders, FinMap.get_insert, if_neg hne, hget] at hget'
      cases hget'
      rfl
  | @update _ r₀ e₀ n _ hget₀ =>
      rw [FinMap.get_insert] at hget'
      split at hget'
      next hr =>
        subst hr
        rw [hget] at hget₀
        cases hget₀
        cases hget'
        rfl
      next =>
        rw [hget] at hget'
        cases hget'
        rfl
  | @remove _ r₀ e₀ _ hget₀ =>
      rw [remove_orders, FinMap.get_erase] at hget'
      split at hget'
      next => cases hget'
      next =>
        rw [hget] at hget'
        cases hget'
        rfl
  | @replace u e₀ hget₀ hfresh =>
      have hmem := FinMap.mem_of_get hget
      have hne : u.newOrderRef ≠ r := by
        intro hnew
        refine hfresh (FinMap.mem_erase_iff.mpr ⟨fun horig => ?_, hnew ▸ hmem⟩)
        exact hself u rfl ⟨horig.trans hnew, hnew⟩
      rw [insertOrder_orders, FinMap.get_insert, if_neg hne, remove_orders, FinMap.get_erase]
        at hget'
      split at hget'
      next => cases hget'
      next =>
        rw [hget] at hget'
        cases hget'
        rfl

end Steps

/-! ## Queue positions -/

/-- The position of a live order is the number of live orders at its level that arrived
before it. -/
theorem Sorted.queuePosition {b : L3Book} (hs : b.Sorted) (h : b.WellQueued) {r : OrderReference}
    {e : L3OrderEntry} (hget : b.orders[r]? = some e) :
    b.queuePosition r = some (b.orders.toList.countP fun x =>
      (x.2.side = e.side ∧ x.2.price = e.price) ∧ x.2.arrivalSeq < e.arrivalSeq) := by
  obtain ⟨front, q, hq⟩ := h.exists_queue hget
  have hqueue : b.queue e.side e.price = front :: q := by rw [queue, hq, Option.getD_some]
  have hmem : r ∈ b.queue e.side e.price := h.mem_of_get hget
  have hidx : (front :: q).idxOf? r = some ((b.queue e.side e.price).idxOf r) := by
    rw [hqueue] at hmem ⊢
    rw [List.idxOf_eq_getD_idxOf?]
    obtain ⟨i, hi⟩ := Option.isSome_iff_exists.mp (List.isSome_idxOf?.mpr hmem)
    rw [hi, Option.getD_some]
  have hcount : (b.queue e.side e.price).countP (fun x => b.arrival x < b.arrival r)
      = ((b.queue e.side e.price).filterMap (b.orders[·]?)).countP
          fun v => v.arrivalSeq < e.arrivalSeq := by
    rw [List.countP_filterMap]
    refine List.countP_congr fun x hx => ?_
    obtain ⟨e', hget', -⟩ := (h.mem_queue _ _ _).mp hx
    simp [arrival_of_get hget, arrival_of_get hget', hget']
  rw [L3Book.queuePosition, hget]
  simp only [Option.bind_eq_bind, Option.bind_some, hq, hidx]
  rw [FinMap.idxOf_eq_countP (hs.pairwise _ _) hmem, hcount,
    FinMap.countP_filterMap_get _ (h.nodup _ _) (h.mem_queue _ _)]

/-! ## Runs -/

/-- No message of the feed adds a live reference. -/
def FreshFeed : L3Book → List Message → Prop
  | _, [] => True
  | b, m :: msgs => m.AddsFresh b.stockLocate (· ∈ b.orders) ∧ FreshFeed (b.apply m).2 msgs

/-- The number of orders the feed inserts. -/
def insertCount : L3Book → List Message → Nat
  | _, [] => 0
  | b, m :: msgs => (b.inserts m).toNat + insertCount (b.apply m).2 msgs

theorem freshFeed_append {b : L3Book} {msgs msgs' : List Message} :
    b.FreshFeed (msgs ++ msgs') ↔ b.FreshFeed msgs ∧ (b.run msgs).FreshFeed msgs' := by
  induction msgs generalizing b with
  | nil => simp [FreshFeed]
  | cons m msgs ih => simp [FreshFeed, ih, and_assoc]

theorem WellQueued.run {b : L3Book} (h : b.WellQueued) {msgs : List Message}
    (hfeed : b.FreshFeed msgs) : (b.run msgs).WellQueued := by
  induction msgs generalizing b with
  | nil => exact h
  | cons m msgs ih => exact ih ((h.step hfeed.1).wellQueued h) hfeed.2

theorem Sorted.run {b : L3Book} (hs : b.Sorted) (h : b.WellQueued) {msgs : List Message}
    (hfeed : b.FreshFeed msgs) (hwrap : b.arrivalSeq + b.insertCount msgs < 2 ^ 64) :
    (b.run msgs).Sorted := by
  induction msgs generalizing b with
  | nil => exact hs
  | cons m msgs ih =>
      have hstep := h.step hfeed.1
      rw [insertCount] at hwrap
      rw [run_cons]
      refine ih (hstep.sorted h hs (by omega)) (hstep.wellQueued h) hfeed.2 ?_
      rw [hstep.arrivalSeq (by omega)]
      omega

/-- On a feed that adds no live reference and inserts fewer than `2 ^ 64` orders, errors
included: every live order stands once in the queue of its level and nowhere else, every
queued order is live at its level, no listed queue is empty, queues are in arrival
order, queue positions count the orders that arrived before, and the arrival number of
an order does not change while it is live. -/
theorem queues_consistent (locate : StockLocate) (msgs : List Message)
    (hfeed : (new locate).FreshFeed msgs) (hwrap : (new locate).insertCount msgs < 2 ^ 64) :
    (∀ (r : OrderReference) (e : L3OrderEntry), ((new locate).run msgs).orders[r]? = some e →
      (((new locate).run msgs).queue e.side e.price).count r = 1 ∧
      (∀ side price, r ∈ ((new locate).run msgs).queue side price →
        e.side = side ∧ e.price = price) ∧
      ((new locate).run msgs).queuePosition r =
        some (((new locate).run msgs).orders.toList.countP fun x =>
          (x.2.side = e.side ∧ x.2.price = e.price) ∧ x.2.arrivalSeq < e.arrivalSeq)) ∧
    (∀ side price r, r ∈ ((new locate).run msgs).queue side price →
      ∃ e : L3OrderEntry, ((new locate).run msgs).orders[r]? = some e ∧
        e.side = side ∧ e.price = price) ∧
    (∀ (side : Side) (price : Price4), (((new locate).run msgs).levels side)[price]? ≠ some []) ∧
    (∀ side price, (((new locate).run msgs).queue side price).Pairwise fun r r' =>
      ((new locate).run msgs).arrival r < ((new locate).run msgs).arrival r') ∧
    (∀ before m, before ++ [m] <+: msgs → ∀ (r : OrderReference) (e e' : L3OrderEntry),
      ((new locate).run before).orders[r]? = some e →
      ((new locate).run (before ++ [m])).orders[r]? = some e' →
      (∀ u : OrderReplace, m = .orderReplace u →
        ¬ (u.originalOrderRef = r ∧ u.newOrderRef = r)) →
      e'.arrivalSeq = e.arrivalSeq) := by
  have h := (wellQueued_new locate).run hfeed
  have hs := (sorted_new locate).run (wellQueued_new locate) hfeed
    (by simpa [new] using hwrap)
  refine ⟨fun r e hget => ⟨?_, fun side price hmem => ?_, hs.queuePosition h hget⟩,
    fun side price r => (h.mem_queue side price r).mp, h.nonempty, hs.pairwise, ?_⟩
  · exact List.count_eq_one_of_mem (h.nodup _ _) (h.mem_of_get hget)
  · obtain ⟨e', hget', hse⟩ := (h.mem_queue _ _ _).mp hmem
    rw [hget] at hget'
    cases hget'
    exact hse
  · rintro before m ⟨after, rfl⟩ r e e' hget hget' hself
    rw [List.append_assoc] at hfeed
    obtain ⟨hbefore, hfresh, -⟩ := freshFeed_append.mp hfeed
    rw [run_append] at hget'
    exact (((wellQueued_new locate).run hbefore).step hfresh).arrival_eq hget hget' hself

/-! ## The counter wraps -/

/-- A buy order for symbol 1. -/
def buyMsg (r : OrderReference) (price : Price4) : Message :=
  .addOrder { header := ⟨1, 0, 0⟩, orderRef := r, side := .buy, shares := 100,
              stock := Vector.replicate 8 ' '.toUInt8, price := price }

def deleteMsg (r : OrderReference) : Message :=
  .orderDelete { header := ⟨1, 0, 0⟩, orderRef := r }

/-- Order 1 rests at price 10 while order 2 comes and goes `n` times at price 20; then
order 3 joins order 1. -/
def churnFeed (n : Nat) : List Message :=
  buyMsg 1 10 :: ((List.replicate n [buyMsg 2 20, deleteMsg 2]).flatten ++ [buyMsg 3 10])

section Churn

variable {b : L3Book}

/-- An order that comes and goes leaves nothing but a bump of the counter. -/
theorem run_churn (hl : b.stockLocate = 1) (ho : b.orders[(2 : OrderReference)]? = none)
    (hb : b.bids[(20 : Price4)]? = none) :
    b.run [buyMsg 2 20, deleteMsg 2] = { b with arrivalSeq := (b.arrivalSeq + 1) % 2 ^ 64 } := by
  have hget : (b.insertOrder 2 .buy 100 20 none).orders[(2 : OrderReference)]? = some
      { price := 20, shares := 100, side := .buy, stockLocate := b.stockLocate, mpid := none,
        arrivalSeq := (b.arrivalSeq + 1) % 2 ^ 64 } := by
    rw [insertOrder_orders, FinMap.get_insert, if_pos rfl]
  have hadd : (b.apply (buyMsg 2 20)).2 = b.insertOrder 2 .buy 100 20 none := by
    simp [apply, buyMsg, hl]
  have hqueue : ((b.insertOrder 2 .buy 100 20 none).levels .buy)[(20 : Price4)]? = some [2] := by
    rw [levels_insertOrder, if_pos rfl, FinMap.get_insert, if_pos rfl, queue, levels, hb]
    rfl
  have hbids : ((b.insertOrder 2 .buy 100 20 none).levels .buy).erase 20 = b.bids := by
    rw [levels_insertOrder, if_pos rfl, FinMap.erase_insert_self]
    exact FinMap.erase_of_get_none hb
  have horders : (b.insertOrder 2 .buy 100 20 none).orders.erase 2 = b.orders := by
    rw [insertOrder_orders, FinMap.erase_insert_self, FinMap.erase_of_get_none ho]
  rw [run_cons, hadd]
  change (b.insertOrder 2 .buy 100 20 none).delete 2 = _
  rw [delete_of_some hget, remove, removeFromQueue, hqueue, horders]
  simp only [List.erase_cons_head, putQueue, List.isEmpty_nil, if_true, hbids]
  rfl

theorem run_churn_replicate (hl : b.stockLocate = 1)
    (ho : b.orders[(2 : OrderReference)]? = none) (hb : b.bids[(20 : Price4)]? = none)
    (ha : b.arrivalSeq < 2 ^ 64) (n : Nat) :
    b.run (List.replicate n [buyMsg 2 20, deleteMsg 2]).flatten
      = { b with arrivalSeq := (b.arrivalSeq + n) % 2 ^ 64 } := by
  induction n generalizing b with
  | zero =>
      rw [Nat.add_zero, Nat.mod_eq_of_lt ha]
      rfl
  | succ n ih =>
      rw [List.replicate_succ, List.flatten_cons, run_append, run_churn hl ho hb,
        ih (b := { b with arrivalSeq := (b.arrivalSeq + 1) % 2 ^ 64 }) hl ho hb
          (Nat.mod_lt _ (by decide))]
      simp only [Nat.mod_add_mod]
      rw [Nat.add_assoc, Nat.add_comm 1]

theorem freshFeed_churn_replicate (hl : b.stockLocate = 1)
    (ho : b.orders[(2 : OrderReference)]? = none) (hb : b.bids[(20 : Price4)]? = none) (n : Nat) :
    b.FreshFeed (List.replicate n [buyMsg 2 20, deleteMsg 2]).flatten := by
  induction n generalizing b with
  | zero => trivial
  | succ n ih =>
      rw [List.replicate_succ, List.flatten_cons, freshFeed_append, run_churn hl ho hb]
      refine ⟨⟨fun _ hmem => ?_, trivial, trivial⟩, ih hl ho hb⟩
      obtain ⟨e, he⟩ := FinMap.mem_iff_get.mp hmem
      change b.orders[(2 : OrderReference)]? = some e at he
      rw [ho] at he
      cases he

/-- The book in which order 1 rests. -/
def restingBook : L3Book :=
  (new 1).insertOrder 1 .buy 100 10 none

theorem run_churnFeed (n : Nat) :
    (new 1).run (churnFeed n) =
      { restingBook with arrivalSeq := (1 + n) % 2 ^ 64 }.insertOrder 3 .buy 100 10 none := by
  rw [churnFeed, run_cons, run_append]
  change ((restingBook.run _).run [buyMsg 3 10]) = _
  rw [run_churn_replicate rfl (by decide +kernel) (by decide +kernel) (by decide)]
  rfl

theorem freshFeed_churnFeed (n : Nat) : (new 1).FreshFeed (churnFeed n) := by
  refine ⟨fun _ => by decide +kernel, freshFeed_append.mpr ⟨?_, ?_⟩⟩
  · exact freshFeed_churn_replicate (b := restingBook) rfl (by decide +kernel)
      (by decide +kernel) n
  · change (restingBook.run _).FreshFeed [buyMsg 3 10]
    rw [run_churn_replicate rfl (by decide +kernel) (by decide +kernel) (by decide)]
    have hthree : (3 : OrderReference) ∉ restingBook.orders := by decide +kernel
    exact ⟨fun _ => hthree, trivial⟩

end Churn

theorem queues_consistent_churnFeed :
    (new 1).insertCount (churnFeed 2) = 4 ∧
    ((new 1).run (churnFeed 2)).queue .buy 10 = [1, 3] ∧
    (((new 1).run (churnFeed 2)).queue .buy 10).Pairwise fun r r' =>
      ((new 1).run (churnFeed 2)).arrival r < ((new 1).run (churnFeed 2)).arrival r' :=
  ⟨by decide +kernel, by decide +kernel,
    (queues_consistent 1 (churnFeed 2) (freshFeed_churnFeed 2) (by decide +kernel)).2.2.2.1 .buy 10⟩

/-- After `2 ^ 64` insertions the counter has wrapped: the orders 1 and 3 share a queue and
an arrival number. -/
theorem arrival_wraps :
    (new 1).FreshFeed (churnFeed (2 ^ 64 - 1)) ∧
    ((new 1).run (churnFeed (2 ^ 64 - 1))).queue .buy 10 = [1, 3] ∧
    ¬ (((new 1).run (churnFeed (2 ^ 64 - 1))).queue .buy 10).Pairwise fun r r' =>
      ((new 1).run (churnFeed (2 ^ 64 - 1))).arrival r
        < ((new 1).run (churnFeed (2 ^ 64 - 1))).arrival r' := by
  refine ⟨freshFeed_churnFeed _, ?_⟩
  rw [run_churnFeed]
  decide +kernel

end L3Book

end Itch
