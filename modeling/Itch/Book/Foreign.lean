import Itch.Book.Ops

/-!
# Messages of other symbols

A book is meant to be driven by the whole feed.  Only `A` and `F` compare the symbol of
the message with the symbol of the book.  The kinds that name an order by reference do
not, so a message of another symbol is a no-op only as long as its operation finds
nothing to do.  `Idle` says when that is: the order is not live, or the operation
writes back exactly what is there.
-/

namespace Itch

open Lib

/-- A message of another symbol asks for nothing but an order that it names. -/
theorem Message.op_of_foreign {locate : StockLocate} {m : Message}
    (h : m.header.stockLocate ≠ locate) {op : BookOp} (hop : m.op locate = some op) :
    ∃ r, op.looksUp = some r := by
  cases m with
  | addOrder m =>
      have hnone : (Message.addOrder m).op locate = none := if_pos h
      rw [hnone] at hop
      cases hop
  | addOrderWithMpid m =>
      have hnone : (Message.addOrderWithMpid m).op locate = none := if_pos h
      rw [hnone] at hop
      cases hop
  | _ => cases hop <;> exact ⟨_, rfl⟩

/-! ## L2 -/

namespace L2Book

/-- The execution finds no order, or takes no shares off an order that has some, at a level
that is not listed with a total of zero. -/
def IdleExecution (b : L2Book) (r : OrderReference) (n : UInt32) : Prop :=
  ∀ e ∈ b.orders[r]?, n = 0 ∧ 0 < e.shares ∧ (b.levels e.side)[e.price]? ≠ some 0

/-- The replace finds no order, or re-enters an order as it is, at a level whose total
covers it. -/
def IdleReplace (b : L2Book) (r r' : OrderReference) (n : UInt32) (price : Price4) : Prop :=
  ∀ e ∈ b.orders[r]?,
    (r' = r ∧ e = { price := price, shares := n, side := e.side, stockLocate := b.stockLocate }) ∧
    ∃ t, (b.levels e.side)[price]? = some t ∧ n.toNat ≤ t ∧ t < 2 ^ 64

/-- The operation leaves the book as it is. -/
def Idle (b : L2Book) : BookOp → Prop
  | .add _ _ _ _ _ => False
  | .execute r n => b.IdleExecution r n
  | .cancel r n => b.IdleExecution r n
  | .delete r => r ∉ b.orders
  | .replace r r' n price => b.IdleReplace r r' n price

section

variable {b : L2Book} {r r' : OrderReference} {e : OrderEntry} {n : UInt32} {price : Price4}
  {side : Side} {k : Nat} {o : FinMap OrderReference OrderEntry} {ls : FinMap Price4 Nat}

theorem setLevels_levels (b : L2Book) (side : Side) : b.setLevels side (b.levels side) = b := by
  cases side <;> rfl

/-- The index and the levels are compared independently. -/
theorem setLevels_eq_self_iff :
    { b with orders := o }.setLevels side ls = b ↔ o = b.orders ∧ ls = b.levels side := by
  constructor
  · intro h
    have hl := congrArg (fun x => L2Book.levels x side) h
    simp only [levels_setLevels, if_true] at hl
    exact ⟨by simpa using congrArg L2Book.orders h, hl⟩
  · rintro ⟨rfl, rfl⟩
    exact setLevels_levels b side

theorem reduce_eq_self_iff :
    { b with orders := o }.reduce side price k = b ↔
      o = b.orders ∧ reduceLevel (b.levels side) price k = b.levels side := by
  rw [reduce, levels_setOrders, setLevels_eq_self_iff]

theorem reduceLevel_zero_eq_self_iff : reduceLevel ls price 0 = ls ↔ ls[price]? ≠ some 0 := by
  constructor
  · intro h hget
    have hnone : (reduceLevel ls price 0)[price]? = none := by
      rw [get_reduceLevel, if_pos rfl, hget]
      rfl
    rw [h, hget] at hnone
    cases hnone
  · intro h
    refine Std.ExtTreeMap.ext_getElem? fun {p} => ?_
    rw [get_reduceLevel]
    split
    next hp =>
      subst hp
      cases hget : ls[price]? with
      | none => rfl
      | some t =>
          have ht : t ≠ 0 := fun ht => h (by rw [hget, ht])
          rw [Option.bind_some, Nat.sub_zero, if_neg ht]
    next => rfl

theorem execute_eq_self_iff : b.execute r n = (.ok (), b) ↔ b.IdleExecution r n := by
  unfold IdleExecution
  cases hget : b.orders[r]? with
  | none => exact iff_of_true (execute_of_none hget) fun e he => nomatch he
  | some e =>
      simp only [Option.mem_some_iff, forall_eq']
      rcases Word32.lt_or_eq_or_gt e.shares n with hlt | rfl | hlt
      · rw [execute_of_lt hget hlt]
        refine iff_of_false (fun h => nomatch congrArg Prod.fst h) ?_
        rintro ⟨rfl, -⟩
        exact absurd hlt UInt32.not_lt_zero
      · rw [execute_fully hget, Prod.mk.injEq, reduce_eq_self_iff]
        refine iff_of_false (fun h => FinMap.erase_ne_self (FinMap.mem_of_get hget) h.2.1) ?_
        rintro ⟨h0, hpos, -⟩
        rw [h0] at hpos
        exact UInt32.lt_irrefl _ hpos
      · rw [execute_partly hget hlt, Prod.mk.injEq, reduce_eq_self_iff, FinMap.insert_eq_self_iff,
          hget]
        have hentry : some e = some { e with shares := e.shares - n } ↔ n = 0 := by
          rw [Option.some.injEq, ← Word32.sub_eq_self_iff hlt]
          exact ⟨fun h => (congrArg OrderEntry.shares h).symm, fun h => by rw [h]⟩
        rw [hentry]
        constructor
        · rintro ⟨-, rfl, hlevel⟩
          exact ⟨rfl, hlt, reduceLevel_zero_eq_self_iff.mp hlevel⟩
        · rintro ⟨rfl, -, hne⟩
          exact ⟨rfl, rfl, reduceLevel_zero_eq_self_iff.mpr hne⟩

theorem delete_eq_self_iff : b.delete r = b ↔ r ∉ b.orders := by
  constructor
  · intro h hmem
    refine FinMap.erase_ne_self hmem ?_
    rw [← delete_orders, h]
  · exact fun h => delete_of_none (FinMap.get_of_not_mem h)

/-- Taking shares off a level and putting them back restores it if the level had them and
its total did not saturate. -/
theorem saturatingAdd_sub_eq_iff {t : Option Nat} (hk : k < 2 ^ 64) :
    some (saturatingAdd ((t.bind fun t => if t - k = 0 then none else some (t - k)).getD 0) k) = t
      ↔ ∃ t', t = some t' ∧ k ≤ t' ∧ t' < 2 ^ 64 := by
  cases t with
  | none => simp
  | some t =>
      have hlevel : ((some t).bind fun t => if t - k = 0 then none else some (t - k)).getD 0
          = t - k := by
        by_cases h : t - k = 0 <;> simp [h]
      rw [hlevel, saturatingAdd]
      simp only [Option.some.injEq, exists_eq_left']
      omega

theorem insert_reduceLevel {t : Nat} :
    (reduceLevel ls price k).insert price t = ls.insert price t := by
  refine Std.ExtTreeMap.ext_getElem? fun {p} => ?_
  rw [FinMap.get_insert, FinMap.get_insert]
  split
  next => rfl
  next hp => rw [get_reduceLevel, if_neg hp]

/-- A replace writes the index and the levels of one side. -/
theorem addOrder_delete (hget : b.orders[r]? = some e) :
    (b.delete r).addOrder r' e.side n price =
      { b with
        orders := ((b.orders.erase r).insert r'
          { price := price, shares := n, side := e.side, stockLocate := b.stockLocate }) }.setLevels
        e.side
        ((reduceLevel (b.levels e.side) e.price e.shares.toNat).insert price
          (saturatingAdd
            ((reduceLevel (b.levels e.side) e.price e.shares.toNat)[price]?.getD 0) n.toNat)) := by
  rw [delete_of_some hget]
  cases e.side <;> rfl

theorem insert_erase_eq_self_iff {e' : OrderEntry} (hget : b.orders[r]? = some e) :
    (b.orders.erase r).insert r' e' = b.orders ↔ r' = r ∧ e = e' := by
  constructor
  · intro h
    have hr := hget
    rw [← h, FinMap.get_insert, FinMap.get_erase, if_pos rfl] at hr
    split at hr
    next hr' => exact ⟨hr', (Option.some.inj hr).symm⟩
    next => cases hr
  · rintro ⟨rfl, rfl⟩
    rw [← FinMap.insert_eq_erase_insert, FinMap.insert_eq_self_iff, hget]

theorem replace_eq_self_iff :
    b.replace r r' n price = (.ok (), b) ↔ b.IdleReplace r r' n price := by
  unfold IdleReplace
  cases hget : b.orders[r]? with
  | none => exact iff_of_true (replace_of_none hget) fun e he => nomatch he
  | some e =>
      simp only [Option.mem_some_iff, forall_eq']
      rw [replace_of_some hget, Prod.mk.injEq, addOrder_delete hget, setLevels_eq_self_iff,
        insert_erase_eq_self_iff hget, and_iff_right rfl]
      refine and_congr_right fun ⟨_, he⟩ => ?_
      -- the order re-enters at its own price and with its own shares
      have hprice : e.price = price := congrArg OrderEntry.price he
      have hshares : e.shares = n := congrArg OrderEntry.shares he
      rw [hprice, hshares, insert_reduceLevel, FinMap.insert_eq_self_iff, get_reduceLevel,
        if_pos rfl, eq_comm, saturatingAdd_sub_eq_iff]
      exact n.toNat_lt.trans (by decide)

/-- An operation that looks up an order leaves the book alone exactly if it is idle. -/
theorem step_eq_self_iff {op : BookOp} (hop : op.looksUp = some r) :
    b.step op = (.ok (), b) ↔ b.Idle op := by
  cases op with
  | add => cases hop
  | execute | cancel => exact execute_eq_self_iff
  | delete r =>
      rw [step, Prod.mk.injEq, and_iff_right rfl]
      exact delete_eq_self_iff
  | replace => exact replace_eq_self_iff

end

end L2Book

/-! ## L3 -/

namespace L3Book

/-- The execution or cancel finds no order, or takes no shares off an order that has some. -/
def IdleExecution (b : L3Book) (r : OrderReference) (n : UInt32) : Prop :=
  ∀ e ∈ b.orders[r]?, n = 0 ∧ 0 < e.shares

/-- The operation leaves the book as it is.  A replace that finds its order never does, since
it bumps the arrival counter. -/
def Idle (b : L3Book) : BookOp → Prop
  | .add _ _ _ _ _ => False
  | .execute r n => b.IdleExecution r n
  | .cancel r n => b.IdleExecution r n
  | .delete r => r ∉ b.orders
  | .replace r _ _ _ => r ∉ b.orders

section

variable {b : L3Book} {r r' : OrderReference} {e : L3OrderEntry} {n : UInt32} {price : Price4}

theorem setOrders_eq_self_iff {o : FinMap OrderReference L3OrderEntry} :
    { b with orders := o } = b ↔ o = b.orders :=
  ⟨fun h => congrArg L3Book.orders h, fun h => by rw [h]⟩

/-- Taking shares off an order changes the book unless there are none to take. -/
theorem update_eq_self_iff (hget : b.orders[r]? = some e) (hlt : n < e.shares) :
    { b with orders := b.orders.insert r { e with shares := e.shares - n } } = b ↔ n = 0 := by
  rw [setOrders_eq_self_iff, FinMap.insert_eq_self_iff, hget, Option.some.injEq,
    ← Word32.sub_eq_self_iff hlt]
  exact ⟨fun h => (congrArg L3OrderEntry.shares h).symm, fun h => by rw [h]⟩

theorem remove_ne_self (hget : b.orders[r]? = some e) : b.remove r e ≠ b := by
  intro h
  exact FinMap.erase_ne_self (FinMap.mem_of_get hget) (congrArg L3Book.orders h)

theorem not_idleExecution_fully : ¬ (e.shares = 0 ∧ 0 < e.shares) := by
  rintro ⟨h0, hpos⟩
  rw [h0] at hpos
  exact UInt32.lt_irrefl _ hpos

/-- An execution that exhausts its order is no no-op, whatever the queue holds. -/
theorem execute_fully_ne_self (hget : b.orders[r]? = some e) :
    b.execute r e.shares ≠ (.ok (), b) := by
  intro h
  cases hq : b.queue e.side e.price with
  | nil =>
      rw [execute_no_queue hget hq, Prod.mk.injEq, setOrders_eq_self_iff] at h
      exact FinMap.erase_ne_self (FinMap.mem_of_get hget) h.2
  | cons front q =>
      have hlevel := levels_of_queue hq
      by_cases hf : front = r
      · subst hf
        rw [execute_front hget hlevel] at h
        exact remove_ne_self hget (congrArg Prod.snd h)
      · rw [execute_not_front hget hlevel hf] at h
        cases congrArg Prod.fst h

/-- A call that rejects too many shares, takes fewer than all off the order and never leaves
an order that it exhausts alone is a no-op exactly if there is nothing to take. -/
theorem eq_self_iff_of_cases {result : Except BookError Unit × L3Book}
    (hget : b.orders[r]? = some e) (hreject : e.shares < n → result.1 ≠ .ok ())
    (hfully : e.shares = n → result ≠ (.ok (), b))
    (hpartly : n < e.shares → result
      = (.ok (), { b with orders := b.orders.insert r { e with shares := e.shares - n } })) :
    result = (.ok (), b) ↔ n = 0 ∧ 0 < e.shares := by
  rcases Word32.lt_or_eq_or_gt e.shares n with hlt | rfl | hlt
  · refine iff_of_false (fun h => hreject hlt (congrArg Prod.fst h)) ?_
    rintro ⟨rfl, -⟩
    exact absurd hlt UInt32.not_lt_zero
  · exact iff_of_false (hfully rfl) not_idleExecution_fully
  · rw [hpartly hlt, Prod.mk.injEq, and_iff_right rfl, update_eq_self_iff hget hlt]
    exact ⟨fun h => ⟨h, h ▸ hlt⟩, And.left⟩

theorem execute_eq_self_iff : b.execute r n = (.ok (), b) ↔ b.IdleExecution r n := by
  unfold IdleExecution
  cases hget : b.orders[r]? with
  | none => exact iff_of_true (execute_of_none hget) fun e he => nomatch he
  | some e =>
      simp only [Option.mem_some_iff, forall_eq']
      refine eq_self_iff_of_cases hget (fun hlt => ?_) ?_ (execute_partly hget)
      · rw [execute_of_lt hget hlt]
        exact fun h => nomatch h
      · rintro rfl
        exact execute_fully_ne_self hget

theorem cancel_eq_self_iff : b.cancel r n = (.ok (), b) ↔ b.IdleExecution r n := by
  unfold IdleExecution
  cases hget : b.orders[r]? with
  | none => exact iff_of_true (cancel_of_none hget) fun e he => nomatch he
  | some e =>
      simp only [Option.mem_some_iff, forall_eq']
      refine eq_self_iff_of_cases hget (fun hlt => ?_) ?_ (cancel_partly hget)
      · rw [cancel_of_lt hget hlt]
        exact fun h => nomatch h
      · rintro rfl h
        rw [cancel_fully hget] at h
        exact remove_ne_self hget (congrArg Prod.snd h)

theorem delete_eq_self_iff : b.delete r = b ↔ r ∉ b.orders := by
  constructor
  · intro h hmem
    obtain ⟨e, hget⟩ := FinMap.mem_iff_get.mp hmem
    rw [delete_of_some hget] at h
    exact remove_ne_self hget h
  · exact fun h => delete_of_none (FinMap.get_of_not_mem h)

theorem replace_eq_self_iff : b.replace r r' n price = (.ok (), b) ↔ r ∉ b.orders := by
  constructor
  · intro h hmem
    obtain ⟨e, hget⟩ := FinMap.mem_iff_get.mp hmem
    rw [replace_of_some hget] at h
    have hseq := congrArg (fun x => x.2.arrivalSeq) h
    simp only [insertOrder_arrivalSeq, remove_arrivalSeq] at hseq
    omega
  · exact fun h => replace_of_none (FinMap.get_of_not_mem h)

theorem step_eq_self_iff {op : BookOp} (hop : op.looksUp = some r) :
    b.step op = (.ok (), b) ↔ b.Idle op := by
  cases op with
  | add => cases hop
  | execute => exact execute_eq_self_iff
  | cancel => exact cancel_eq_self_iff
  | delete r =>
      rw [step, Prod.mk.injEq, and_iff_right rfl]
      exact delete_eq_self_iff
  | replace => exact replace_eq_self_iff

end

end L3Book

/-! ## Messages -/

section Messages

variable {m : Message}

theorem L2Book.apply_foreign_iff {b : L2Book} (h : m.header.stockLocate ≠ b.stockLocate) :
    b.apply m = (.ok (), b) ↔ ∀ op ∈ m.op b.stockLocate, b.Idle op := by
  cases hop : m.op b.stockLocate with
  | none => exact iff_of_true (apply_of_no_op hop) fun op h => nomatch h
  | some op =>
      obtain ⟨r, hr⟩ := Message.op_of_foreign h hop
      rw [apply_of_op hop, step_eq_self_iff hr]
      simp only [Option.mem_some_iff, forall_eq']

theorem L3Book.apply_foreign_iff {b : L3Book} (h : m.header.stockLocate ≠ b.stockLocate) :
    b.apply m = (.ok (), b) ↔ ∀ op ∈ m.op b.stockLocate, b.Idle op := by
  cases hop : m.op b.stockLocate with
  | none => exact iff_of_true (apply_of_no_op hop) fun op h => nomatch h
  | some op =>
      obtain ⟨r, hr⟩ := Message.op_of_foreign h hop
      rw [apply_of_op hop, step_eq_self_iff hr]
      simp only [Option.mem_some_iff, forall_eq']

/-- In every state of either book, reachable or not, a message of another symbol is a no-op
exactly if its operation is idle there. -/
theorem foreign_message_noop_iff_idle (m : Message) :
    (∀ b : L2Book, m.header.stockLocate ≠ b.stockLocate →
      (b.apply m = (.ok (), b) ↔ ∀ op ∈ m.op b.stockLocate, b.Idle op)) ∧
    (∀ b : L3Book, m.header.stockLocate ≠ b.stockLocate →
      (b.apply m = (.ok (), b) ↔ ∀ op ∈ m.op b.stockLocate, b.Idle op)) :=
  ⟨fun _ h => L2Book.apply_foreign_iff h, fun _ h => L3Book.apply_foreign_iff h⟩

/-- Deletes order `r` under the symbol 2. -/
def foreignDelete (r : OrderReference) : Message :=
  .orderDelete { header := ⟨2, 0, 0⟩, orderRef := r }

/-- With order 1 open in the book of symbol 1, the delete of order 9 under symbol 2 is a
no-op. -/
theorem foreign_delete_of_unknown_order_noop :
    (foreignDelete 9).header.stockLocate ≠ ((L2Book.new 1).run [L3Book.buyMsg 1 10]).stockLocate ∧
    ((L2Book.new 1).run [L3Book.buyMsg 1 10]).apply (foreignDelete 9)
      = (.ok (), (L2Book.new 1).run [L3Book.buyMsg 1 10]) ∧
    ((L3Book.new 1).run [L3Book.buyMsg 1 10]).apply (foreignDelete 9)
      = (.ok (), (L3Book.new 1).run [L3Book.buyMsg 1 10]) := by
  have h2 : (9 : OrderReference) ∉ ((L2Book.new 1).run [L3Book.buyMsg 1 10]).orders := by
    decide +kernel
  have h3 : (9 : OrderReference) ∉ ((L3Book.new 1).run [L3Book.buyMsg 1 10]).orders := by
    decide +kernel
  refine ⟨by decide +kernel,
    ((foreign_message_noop_iff_idle (foreignDelete 9)).1 _ (by decide +kernel)).mpr ?_,
    ((foreign_message_noop_iff_idle (foreignDelete 9)).2 _ (by decide +kernel)).mpr ?_⟩
  · rintro op ⟨rfl⟩
    exact h2
  · rintro op ⟨rfl⟩
    exact h3

/-- The delete of order 1 under symbol 2 removes the order of symbol 1 from both books. -/
theorem foreign_delete_removes_order :
    (foreignDelete 1).header.stockLocate = 2 ∧
    (1 : OrderReference) ∈ ((L2Book.new 1).run [L3Book.buyMsg 1 10]).orders ∧
    (1 : OrderReference) ∉ ((L2Book.new 1).run [L3Book.buyMsg 1 10, foreignDelete 1]).orders ∧
    (1 : OrderReference) ∈ ((L3Book.new 1).run [L3Book.buyMsg 1 10]).orders ∧
    (1 : OrderReference) ∉ ((L3Book.new 1).run [L3Book.buyMsg 1 10, foreignDelete 1]).orders := by
  decide +kernel

end Messages

end Itch
