import Itch.Book.Foreign
import Itch.Book.Manager
import Itch.Lib.Run

/-!
# Routed, filtered and unfiltered books

A book of a symbol can be had in three ways: from the manager, from a standalone book fed
the whole feed, and from a standalone book fed the messages of the symbol only.  If every
order reference belongs to one symbol, the references of foreign messages are never live
in the book, so the last two are the same book.  The L2 book of the manager is the
filtered book by construction.  The L3 book of the manager sees fewer messages, since it
is skipped when the L2 book rejects one.  That makes no difference exactly as long as the
L3 book would leave those messages alone.
-/

namespace Itch

open Lib

/-- The order references that a message of a book-mutating kind carries. -/
def Message.orderRefs : Message → List OrderReference
  | .addOrder m => [m.orderRef]
  | .addOrderWithMpid m => [m.orderRef]
  | .orderExecuted m => [m.orderRef]
  | .orderExecutedWithPrice m => [m.orderRef]
  | .orderCancel m => [m.orderRef]
  | .orderDelete m => [m.orderRef]
  | .orderReplace m => [m.originalOrderRef, m.newOrderRef]
  | _ => []

/-- Every order reference appears in messages of one symbol only. -/
def OneLocatePerRef (msgs : List Message) : Prop :=
  ∀ m ∈ msgs, ∀ m' ∈ msgs, ∀ r ∈ m.orderRefs, r ∈ m'.orderRefs →
    m.header.stockLocate = m'.header.stockLocate

/-- The messages of a symbol. -/
def ofLocate (locate : StockLocate) (msgs : List Message) : List Message :=
  msgs.filter fun m => m.header.stockLocate = locate

theorem Message.looksUp_mem_orderRefs {locate : StockLocate} {m : Message} {op : BookOp}
    (hop : m.op locate = some op) {r : OrderReference} (hr : op.looksUp = some r) :
    r ∈ m.orderRefs := by
  cases m with
  | addOrder m | addOrderWithMpid m =>
      rw [Message.op] at hop
      split at hop
      next => cases hop
      next =>
        cases hop
        cases hr
  | orderExecuted | orderExecutedWithPrice | orderCancel | orderDelete =>
      cases hop
      cases hr
      exact List.mem_singleton_self _
  | orderReplace =>
      cases hop
      cases hr
      exact List.mem_cons_self
  | _ => cases hop

theorem Message.enters_mem_orderRefs {locate : StockLocate} {m : Message} {op : BookOp}
    (hop : m.op locate = some op) {r : OrderReference} (hr : op.enters = some r) :
    r ∈ m.orderRefs := by
  cases m with
  | addOrder m | addOrderWithMpid m =>
      rw [Message.op] at hop
      split at hop
      next => cases hop
      next =>
        cases hop
        cases hr
        exact List.mem_singleton_self _
  | orderExecuted | orderExecutedWithPrice | orderCancel | orderDelete =>
      cases hop
      cases hr
  | orderReplace =>
      cases hop
      cases hr
      exact List.mem_cons_of_mem _ (List.mem_singleton_self _)
  | _ => cases hop

/-! ## References of a book -/

namespace L2Book

variable {b : L2Book} {r x : OrderReference} {n : UInt32}

theorem mem_of_mem_execute (hx : x ∈ (b.execute r n).2.orders) : x ∈ b.orders := by
  cases hget : b.orders[r]? with
  | none => rwa [execute_of_none hget] at hx
  | some e =>
      rcases Word32.lt_or_eq_or_gt e.shares n with hlt | rfl | hlt
      · rwa [execute_of_lt hget hlt] at hx
      · rw [execute_fully hget, reduce_orders] at hx
        exact (FinMap.mem_erase_iff.mp hx).2
      · rw [execute_partly hget hlt, reduce_orders] at hx
        rcases FinMap.mem_insert_iff.mp hx with rfl | hx
        · exact FinMap.mem_of_get hget
        · exact hx

/-- A reference that is live after an operation was live before or is entered by it. -/
theorem mem_of_mem_step {op : BookOp} (hx : x ∈ (b.step op).2.orders) :
    x ∈ b.orders ∨ op.enters = some x := by
  cases op with
  | add r side n price mpid =>
      rw [step, addOrder_orders] at hx
      rcases FinMap.mem_insert_iff.mp hx with rfl | hx
      · exact .inr rfl
      · exact .inl hx
  | execute | cancel => exact .inl (mem_of_mem_execute hx)
  | delete r =>
      rw [step, delete_orders] at hx
      exact .inl (FinMap.mem_erase_iff.mp hx).2
  | replace r r' n price =>
      cases hget : b.orders[r]? with
      | none =>
          rw [step, replace_of_none hget] at hx
          exact .inl hx
      | some e =>
          rw [step, replace_of_some hget, addOrder_orders, delete_orders] at hx
          rcases FinMap.mem_insert_iff.mp hx with rfl | hx
          · exact .inr rfl
          · exact .inl (FinMap.mem_erase_iff.mp hx).2

theorem idle_of_not_mem {op : BookOp} (hop : op.looksUp = some r) (h : r ∉ b.orders) :
    b.Idle op := by
  cases op with
  | add => cases hop
  | delete => cases hop; exact h
  | execute | cancel | replace =>
      cases hop
      intro e he
      exact absurd (FinMap.mem_of_get he) h

end L2Book

namespace L3Book

variable {b : L3Book} {r x : OrderReference} {e : L3OrderEntry} {n : UInt32}

/-- What an execution that is not rejected does to the index, whatever the queues hold. -/
theorem execute_index (hget : b.orders[r]? = some e) (hle : n ≤ e.shares) :
    (b.execute r n).2.orders = b.orders.insert r { e with shares := e.shares - n } ∨
      (b.execute r n).2.orders = b.orders.erase r := by
  rcases Word32.lt_or_eq_or_gt e.shares n with hlt | rfl | hlt
  · exact absurd hlt (UInt32.not_lt.mpr hle)
  · cases hq : b.queue e.side e.price with
    | nil => exact .inr (by rw [execute_no_queue hget hq])
    | cons front q =>
        have hlevel := levels_of_queue hq
        by_cases hf : front = r
        · subst hf
          exact .inr (by rw [execute_front hget hlevel, remove_orders])
        · exact .inl (by rw [execute_not_front hget hlevel hf, UInt32.sub_self])
  · exact .inl (by rw [execute_partly hget hlt])

theorem cancel_index (hget : b.orders[r]? = some e) (hle : n ≤ e.shares) :
    (b.cancel r n).2.orders = b.orders.insert r { e with shares := e.shares - n } ∨
      (b.cancel r n).2.orders = b.orders.erase r := by
  rcases Word32.lt_or_eq_or_gt e.shares n with hlt | rfl | hlt
  · exact absurd hlt (UInt32.not_lt.mpr hle)
  · exact .inr (by rw [cancel_fully hget, remove_orders])
  · exact .inl (by rw [cancel_partly hget hlt])

/-- A live order that is rewritten or erased brings no new reference. -/
theorem mem_of_index {o : FinMap OrderReference L3OrderEntry} {e' : L3OrderEntry}
    (hget : b.orders[r]? = some e) (ho : o = b.orders.insert r e' ∨ o = b.orders.erase r)
    (hx : x ∈ o) : x ∈ b.orders := by
  rcases ho with rfl | rfl
  · rcases FinMap.mem_insert_iff.mp hx with rfl | hx
    · exact FinMap.mem_of_get hget
    · exact hx
  · exact (FinMap.mem_erase_iff.mp hx).2

/-- A reference that is live after an operation was live before or is entered by it. -/
theorem mem_of_mem_step {op : BookOp} (hx : x ∈ (b.step op).2.orders) :
    x ∈ b.orders ∨ op.enters = some x := by
  cases op with
  | add r side n price mpid =>
      rw [step, insertOrder_orders] at hx
      rcases FinMap.mem_insert_iff.mp hx with rfl | hx
      · exact .inr rfl
      · exact .inl hx
  | execute r n =>
      left
      cases hget : b.orders[r]? with
      | none => rwa [step, execute_of_none hget] at hx
      | some e =>
          by_cases hlt : e.shares < n
          · rwa [step, execute_of_lt hget hlt] at hx
          · exact mem_of_index hget (execute_index hget (UInt32.not_lt.mp hlt)) hx
  | cancel r n =>
      left
      cases hget : b.orders[r]? with
      | none => rwa [step, cancel_of_none hget] at hx
      | some e =>
          by_cases hlt : e.shares < n
          · rwa [step, cancel_of_lt hget hlt] at hx
          · exact mem_of_index hget (cancel_index hget (UInt32.not_lt.mp hlt)) hx
  | delete r =>
      left
      cases hget : b.orders[r]? with
      | none => rwa [step, delete_of_none hget] at hx
      | some e =>
          rw [step, delete_of_some hget, remove_orders] at hx
          exact (FinMap.mem_erase_iff.mp hx).2
  | replace r r' n price =>
      cases hget : b.orders[r]? with
      | none =>
          rw [step, replace_of_none hget] at hx
          exact .inl hx
      | some e =>
          rw [step, replace_of_some hget, insertOrder_orders, remove_orders] at hx
          rcases FinMap.mem_insert_iff.mp hx with rfl | hx
          · exact .inr rfl
          · exact .inl (FinMap.mem_erase_iff.mp hx).2

theorem idle_of_not_mem {op : BookOp} (hop : op.looksUp = some r) (h : r ∉ b.orders) :
    b.Idle op := by
  cases op with
  | add => cases hop
  | delete | replace =>
      cases hop
      exact h
  | execute | cancel =>
      cases hop
      intro e he
      exact absurd (FinMap.mem_of_get he) h

/-- Taking shares off an order changes the index. -/
theorem ne_of_index {b' : L3Book} (hget : b.orders[r]? = some e) (hle : n ≤ e.shares) (hn : n ≠ 0)
    (ho : b'.orders = b.orders.insert r { e with shares := e.shares - n } ∨
      b'.orders = b.orders.erase r) : b' ≠ b := by
  rintro rfl
  rcases ho with ho | ho
  · have hentry := FinMap.insert_eq_self_iff.mp ho.symm
    rw [hget, Option.some.injEq] at hentry
    have hshares : e.shares - n = e.shares := (congrArg L3OrderEntry.shares hentry).symm
    have hsub := UInt32.toNat_sub_of_le _ _ hle
    have hle' : n.toNat ≤ e.shares.toNat := hle
    rw [hshares] at hsub
    exact hn (UInt32.toNat_inj.mp (show n.toNat = 0 by omega))
  · exact FinMap.erase_ne_self (FinMap.mem_of_get hget) ho.symm

end L3Book

/-! ## Standalone books -/

section Standalone

variable {locate : StockLocate} {own : OrderReference → Prop} {m : Message}

/-- The references of the message are the symbol's own exactly if the message is. -/
def Message.Respects (locate : StockLocate) (own : OrderReference → Prop) (m : Message) : Prop :=
  ∀ r ∈ m.orderRefs, own r ↔ m.header.stockLocate = locate

/-- A foreign message looks up none of the symbol's own references. -/
theorem Message.Respects.looksUp_foreign (hm : m.Respects locate own)
    (hne : m.header.stockLocate ≠ locate) {op : BookOp} (hop : m.op locate = some op) :
    ∃ r, op.looksUp = some r ∧ ¬ own r := by
  obtain ⟨r, hr⟩ := Message.op_of_foreign hne hop
  refine ⟨r, hr, fun hown => hne ?_⟩
  exact (hm r (Message.looksUp_mem_orderRefs hop hr)).mp hown

/-- A book of the symbol that holds none but the symbol's own references. -/
structure L2Book.Owns (b : L2Book) (locate : StockLocate) (own : OrderReference → Prop) : Prop where
  pinned : b.stockLocate = locate
  own : ∀ r ∈ b.orders, own r

@[inherit_doc L2Book.Owns]
structure L3Book.Owns (b : L3Book) (locate : StockLocate) (own : OrderReference → Prop) : Prop where
  pinned : b.stockLocate = locate
  own : ∀ r ∈ b.orders, own r

theorem L2Book.owns_new : (L2Book.new locate).Owns locate own where
  pinned := rfl
  own r hr := by simp [L2Book.new] at hr

theorem L3Book.owns_new : (L3Book.new locate).Owns locate own where
  pinned := rfl
  own r hr := by simp [L3Book.new] at hr

/-- A foreign message leaves the book alone. -/
theorem L2Book.Owns.apply_foreign {b : L2Book} (h : b.Owns locate own)
    (hm : m.Respects locate own) (hne : m.header.stockLocate ≠ locate) :
    b.apply m = (.ok (), b) := by
  refine (apply_foreign_iff (by rwa [h.pinned])).mpr fun op hop => ?_
  obtain ⟨r, hr, hforeign⟩ := hm.looksUp_foreign hne (h.pinned ▸ hop)
  exact idle_of_not_mem hr fun hmem => hforeign (h.own r hmem)

theorem L3Book.Owns.apply_foreign {b : L3Book} (h : b.Owns locate own)
    (hm : m.Respects locate own) (hne : m.header.stockLocate ≠ locate) :
    b.apply m = (.ok (), b) := by
  refine (apply_foreign_iff (by rwa [h.pinned])).mpr fun op hop => ?_
  obtain ⟨r, hr, hforeign⟩ := hm.looksUp_foreign hne (h.pinned ▸ hop)
  exact idle_of_not_mem hr fun hmem => hforeign (h.own r hmem)

theorem L2Book.Owns.apply {b : L2Book} (h : b.Owns locate own) (hm : m.Respects locate own) :
    (b.apply m).2.Owns locate own := by
  by_cases hl : m.header.stockLocate = locate
  · refine ⟨by rw [apply_stockLocate, h.pinned], fun r hr => ?_⟩
    cases hop : m.op b.stockLocate with
    | none =>
        rw [apply_of_no_op hop] at hr
        exact h.own r hr
    | some op =>
        rw [apply_of_op hop] at hr
        rcases mem_of_mem_step hr with hr | hr
        · exact h.own r hr
        · exact (hm r (Message.enters_mem_orderRefs hop hr)).mpr hl
  · rw [h.apply_foreign hm hl]
    exact h

theorem L3Book.Owns.apply {b : L3Book} (h : b.Owns locate own) (hm : m.Respects locate own) :
    (b.apply m).2.Owns locate own := by
  by_cases hl : m.header.stockLocate = locate
  · refine ⟨by rw [apply_stockLocate, h.pinned], fun r hr => ?_⟩
    cases hop : m.op b.stockLocate with
    | none =>
        rw [apply_of_no_op hop] at hr
        exact h.own r hr
    | some op =>
        rw [apply_of_op hop] at hr
        rcases mem_of_mem_step hr with hr | hr
        · exact h.own r hr
        · exact (hm r (Message.enters_mem_orderRefs hop hr)).mpr hl
  · rw [h.apply_foreign hm hl]
    exact h

/-- A book fed the whole feed is the book fed the messages of its symbol. -/
theorem L2Book.Owns.run_ofLocate {b : L2Book} {msgs : List Message} (h : b.Owns locate own)
    (hm : ∀ m ∈ msgs, m.Respects locate own) : b.run msgs = b.run (ofLocate locate msgs) := by
  apply foldl_filter_of_skip (I := fun b => b.Owns locate own)
  · exact fun b m hmem hb => hb.apply (hm m hmem)
  · intro b m hmem hb hl
    rw [hb.apply_foreign (hm m hmem) (by simpa using hl)]
  · exact h

@[inherit_doc L2Book.Owns.run_ofLocate]
theorem L3Book.Owns.run_ofLocate {b : L3Book} {msgs : List Message} (h : b.Owns locate own)
    (hm : ∀ m ∈ msgs, m.Respects locate own) : b.run msgs = b.run (ofLocate locate msgs) := by
  apply foldl_filter_of_skip (I := fun b => b.Owns locate own)
  · exact fun b m hmem hb => hb.apply (hm m hmem)
  · intro b m hmem hb hl
    rw [hb.apply_foreign (hm m hmem) (by simpa using hl)]
  · exact h

/-- With one symbol per reference, the references of a symbol are those of its messages. -/
theorem OneLocatePerRef.respects {msgs : List Message} (h : OneLocatePerRef msgs)
    (locate : StockLocate) {m : Message} (hm : m ∈ msgs) :
    m.Respects locate fun r => ∃ m' ∈ ofLocate locate msgs, r ∈ m'.orderRefs := by
  intro r hr
  constructor
  · rintro ⟨m', hm', hr'⟩
    obtain ⟨hm', hl⟩ := List.mem_filter.mp hm'
    rw [h m hm m' hm' r hr hr']
    simpa using hl
  · intro hl
    exact ⟨m, List.mem_filter.mpr ⟨hm, by simpa using hl⟩, hr⟩

end Standalone

/-! ## Rejected messages -/

/-- An execution or cancel of more shares than the L2 book has left is one of more shares
than the L3 book has left. -/
def RejectedAlike (l2 : L2Book) (l3 : L3Book) : BookOp → Prop
  | .execute r n => ∀ e ∈ l2.orders[r]?, e.shares < n → ∀ e' ∈ l3.orders[r]?, e'.shares < n
  | .cancel r n => ∀ e ∈ l2.orders[r]?, e.shares < n → ∀ e' ∈ l3.orders[r]?, e'.shares < n
  | _ => True

section Rejected

variable {l2 : L2Book} {l3 : L3Book} {r : OrderReference} {n : UInt32}

theorem L2Book.execute_ne_ok_iff :
    (l2.execute r n).1 ≠ .ok () ↔ ∃ e, l2.orders[r]? = some e ∧ e.shares < n := by
  cases hget : l2.orders[r]? with
  | none => simp [execute_of_none hget]
  | some e =>
      rcases Word32.lt_or_eq_or_gt e.shares n with hlt | rfl | hlt
      · simp [execute_of_lt hget hlt, hlt]
      · simp [execute_fully hget]
      · simp [execute_partly hget hlt, UInt32.lt_asymm hlt]

/-- The L2 book rejects nothing but executions and cancels. -/
theorem L2Book.replace_fst {r' : OrderReference} {price : Price4} :
    (l2.replace r r' n price).1 = .ok () := by
  cases hget : l2.orders[r]? with
  | none => rw [replace_of_none hget]
  | some e => rw [replace_of_some hget]

/-- An execution of the L3 book that changes nothing, among those of a positive number of
shares, is one of more shares than the order has, if there is one. -/
theorem L3Book.execute_snd_eq_self_iff (hn : n ≠ 0) :
    (l3.execute r n).2 = l3 ↔ ∀ e ∈ l3.orders[r]?, e.shares < n := by
  cases hget : l3.orders[r]? with
  | none => simp [execute_of_none hget]
  | some e =>
      simp only [Option.mem_some_iff, forall_eq']
      by_cases hlt : e.shares < n
      · simp [execute_of_lt hget hlt, hlt]
      · have hle := UInt32.not_lt.mp hlt
        exact iff_of_false (ne_of_index hget hle hn (execute_index hget hle)) hlt

theorem L3Book.cancel_snd_eq_self_iff (hn : n ≠ 0) :
    (l3.cancel r n).2 = l3 ↔ ∀ e ∈ l3.orders[r]?, e.shares < n := by
  cases hget : l3.orders[r]? with
  | none => simp [cancel_of_none hget]
  | some e =>
      simp only [Option.mem_some_iff, forall_eq']
      by_cases hlt : e.shares < n
      · simp [cancel_of_lt hget hlt, hlt]
      · have hle := UInt32.not_lt.mp hlt
        exact iff_of_false (ne_of_index hget hle hn (cancel_index hget hle)) hlt

theorem forall_rejected_iff {P : Prop} (hP : n ≠ 0 → (P ↔ ∀ e ∈ l3.orders[r]?, e.shares < n)) :
    (∀ e ∈ l2.orders[r]?, e.shares < n → ∀ e' ∈ l3.orders[r]?, e'.shares < n) ↔
      ((l2.execute r n).1 ≠ .ok () → P) := by
  rw [L2Book.execute_ne_ok_iff]
  constructor
  · rintro h ⟨e, hget, hlt⟩
    have hn : n ≠ 0 := by
      rintro rfl
      exact UInt32.not_lt_zero hlt
    exact (hP hn).mpr (h e hget hlt)
  · intro h e hget hlt
    have hn : n ≠ 0 := by
      rintro rfl
      exact UInt32.not_lt_zero hlt
    exact (hP hn).mp (h ⟨e, hget, hlt⟩)

/-- Skipping the L3 book when the L2 book rejects an operation makes no difference exactly
if the operation is rejected alike. -/
theorem rejectedAlike_iff {op : BookOp} :
    RejectedAlike l2 l3 op ↔ ((l2.step op).1 ≠ .ok () → (l3.step op).2 = l3) := by
  cases op with
  | add => exact iff_of_true trivial fun h => absurd rfl h
  | execute r n => exact forall_rejected_iff L3Book.execute_snd_eq_self_iff
  | cancel r n => exact forall_rejected_iff L3Book.cancel_snd_eq_self_iff
  | delete => exact iff_of_true trivial fun h => absurd rfl h
  | replace => exact iff_of_true trivial fun h => absurd L2Book.replace_fst h

/-- Books with the same orders reject alike. -/
theorem SameOrders.rejectedAlike (h : SameOrders l3 l2) (op : BookOp) : RejectedAlike l2 l3 op := by
  have hrej : ∀ (r : OrderReference) (n : UInt32), ∀ e ∈ l2.orders[r]?, e.shares < n →
      ∀ e' ∈ l3.orders[r]?, e'.shares < n := by
    intro r n e hget hlt e' hget'
    cases (h.get_some hget').symm.trans hget
    exact hlt
  cases op with
  | execute r n | cancel r n => exact hrej r n
  | add | delete | replace => trivial

end Rejected

/-! ## The manager -/

namespace BookManager

/-- Every message of the symbol that the L2 book rejects is one that the L3 book rejects. -/
def SkipsAlike (locate : StockLocate) : BookManager → List Message → Prop
  | _, [] => True
  | mgr, m :: msgs =>
      (m.header.stockLocate = locate → ∀ op ∈ m.op locate,
        RejectedAlike (mgr.l2Book locate) (mgr.l3Book locate) op) ∧
      SkipsAlike locate (mgr.apply m).2 msgs

variable {mgr : BookManager} {locate : StockLocate} {own : OrderReference → Prop} {m : Message}
  {msgs : List Message}

/-- The L2 book of the manager is fed the messages of its symbol. -/
theorem l2Book_run (mgr : BookManager) (msgs : List Message) (locate : StockLocate) :
    (mgr.run msgs).l2Book locate = (mgr.l2Book locate).run (ofLocate locate msgs) := by
  induction msgs generalizing mgr with
  | nil => rfl
  | cons m msgs ih =>
      rw [run_cons, ih, l2Book_apply]
      split
      next hl => rw [ofLocate, ofLocate, List.filter_cons_of_pos (by simpa using hl), L2Book.run_cons]
      next hl => rw [ofLocate, ofLocate, List.filter_cons_of_neg (by simpa using hl)]

/-- The message leaves the L3 book of the manager as the standalone book would be exactly if
it is rejected alike. -/
theorem l3Book_apply_eq_iff (h2 : (mgr.l2Book locate).Owns locate own)
    (h3 : (mgr.l3Book locate).Owns locate own) (hm : m.Respects locate own) :
    (mgr.apply m).2.l3Book locate = ((mgr.l3Book locate).apply m).2 ↔
      (m.header.stockLocate = locate → ∀ op ∈ m.op locate,
        RejectedAlike (mgr.l2Book locate) (mgr.l3Book locate) op) := by
  rw [l3Book_apply]
  by_cases hl : m.header.stockLocate = locate
  · rw [imp_iff_right hl]
    cases hop : m.op locate with
    | none =>
        have hap3 : (mgr.l3Book locate).apply m = _ := L3Book.apply_of_no_op (by rwa [h3.pinned])
        simp [hap3]
    | some op =>
        have hap2 : (mgr.l2Book locate).apply m = _ := L2Book.apply_of_op (by rwa [h2.pinned])
        have hap3 : (mgr.l3Book locate).apply m = _ := L3Book.apply_of_op (by rwa [h3.pinned])
        simp only [Option.mem_some_iff, forall_eq', rejectedAlike_iff, hap2, hap3, hl, true_and]
        split
        next hok => simp [hok]
        next hne => simp [hne, eq_comm]
  · rw [if_neg fun h => hl h.1, h3.apply_foreign hm hl]
    exact iff_of_true rfl fun h => absurd h hl

/-- The books of the manager hold none but their own references as long as the L3 book is
the standalone one. -/
theorem l3Book_run_eq_iff {b : L3Book} (h2 : (mgr.l2Book locate).Owns locate own)
    (hb : mgr.l3Book locate = b) (h3 : b.Owns locate own)
    (hm : ∀ m ∈ msgs, m.Respects locate own) :
    (∀ before, before <+: msgs → (mgr.run before).l3Book locate = b.run before) ↔
      mgr.SkipsAlike locate msgs := by
  induction msgs generalizing mgr b with
  | nil =>
      refine iff_of_true (fun before hbefore => ?_) trivial
      rw [List.prefix_nil.mp hbefore]
      exact hb
  | cons m msgs ih =>
      obtain ⟨hhead, htail⟩ := List.forall_mem_cons.mp hm
      subst hb
      have h2' : ((mgr.apply m).2.l2Book locate).Owns locate own := by
        rw [l2Book_apply]
        split
        next => exact h2.apply hhead
        next => exact h2
      rw [SkipsAlike, ← l3Book_apply_eq_iff h2 h3 hhead]
      constructor
      · intro hall
        have hone := hall [m] (List.prefix_cons_iff.mpr (.inr ⟨[], rfl, List.nil_prefix⟩))
        refine ⟨hone, (ih h2' hone (h3.apply hhead) htail).mp fun before hbefore => ?_⟩
        exact hall (m :: before) (List.cons_prefix_cons.mpr ⟨rfl, hbefore⟩)
      · rintro ⟨hone, hrest⟩ before hbefore
        rcases List.prefix_cons_iff.mp hbefore with rfl | ⟨before', rfl, hbefore'⟩
        · rfl
        · exact (ih h2' hone (h3.apply hhead) htail).mpr hrest before' hbefore'

/-- Without a FIFO violation the two books of the symbol stay the same and reject alike. -/
theorem skipsAlike_of_noViolation (h2 : (mgr.l2Book locate).Owns locate own)
    (h3 : (mgr.l3Book locate).Owns locate own)
    (hsame : SameOrders (mgr.l3Book locate) (mgr.l2Book locate))
    (hm : ∀ m ∈ msgs, m.Respects locate own)
    (hfifo : ∀ x ∈ (mgr.l3Book locate).results msgs, NoViolation x) :
    mgr.SkipsAlike locate msgs := by
  induction msgs generalizing mgr with
  | nil => trivial
  | cons m msgs ih =>
      obtain ⟨hhead, htail⟩ := List.forall_mem_cons.mp hm
      rw [L3Book.results, List.forall_mem_cons] at hfifo
      have halike : m.header.stockLocate = locate → ∀ op ∈ m.op locate,
          RejectedAlike (mgr.l2Book locate) (mgr.l3Book locate) op :=
        fun _ op _ => hsame.rejectedAlike op
      have heq3 := (l3Book_apply_eq_iff h2 h3 hhead).mpr halike
      have heq2 : (mgr.apply m).2.l2Book locate = ((mgr.l2Book locate).apply m).2 := by
        rw [l2Book_apply]
        split
        next => rfl
        next hl => rw [h2.apply_foreign hhead hl]
      refine ⟨halike, ih ?_ ?_ ?_ htail ?_⟩
      · rw [heq2]
        exact h2.apply hhead
      · rw [heq3]
        exact h3.apply hhead
      · rw [heq2, heq3]
        exact (hsame.apply hfifo.1).2
      · rw [heq3]
        exact hfifo.2

/-- If every order reference appears in messages of one symbol only, then for every symbol
the L2 book of the manager is the standalone L2 book of the whole feed and of the filtered
feed, the standalone L3 books of the whole and of the filtered feed are the same, and the
L3 book of the manager is that book after every message exactly if every message of the
symbol that the L2 book rejects is one that the L3 book rejects; a feed on which the L3
book reports no FIFO violation is of that kind. -/
theorem routed_books_eq_standalone (msgs : List Message) (hrefs : OneLocatePerRef msgs)
    (locate : StockLocate) :
    ((new.run msgs).l2Book locate = (L2Book.new locate).run msgs ∧
      (new.run msgs).l2Book locate = (L2Book.new locate).run (ofLocate locate msgs)) ∧
    (L3Book.new locate).run msgs = (L3Book.new locate).run (ofLocate locate msgs) ∧
    ((∀ before, before <+: msgs →
        (new.run before).l3Book locate = (L3Book.new locate).run before) ↔
      new.SkipsAlike locate msgs) ∧
    ((∀ expected got, .error (.fifoViolation expected got) ∉ (L3Book.new locate).results msgs) →
      new.SkipsAlike locate msgs) := by
  have hm : ∀ m ∈ msgs, m.Respects locate _ := fun m hmem => hrefs.respects locate hmem
  have h2 : (new.l2Book locate).Owns locate
      fun r => ∃ m' ∈ ofLocate locate msgs, r ∈ m'.orderRefs := by
    rw [l2Book_new]
    exact L2Book.owns_new
  refine ⟨?_, L3Book.owns_new.run_ofLocate hm, ?_, fun hfifo => ?_⟩
  · rw [l2Book_run, l2Book_new, L2Book.owns_new.run_ofLocate hm]
    exact ⟨rfl, rfl⟩
  · exact l3Book_run_eq_iff h2 l3Book_new L3Book.owns_new hm
  · apply skipsAlike_of_noViolation h2 (by rw [l3Book_new]; exact L3Book.owns_new) _ hm
    · rw [l3Book_new]
      rintro x hx expected got rfl
      exact hfifo expected got hx
    · rw [l3Book_new, l2Book_new]
      exact SameOrders.new locate

/-- An order of symbol 1 and a delete of an order of symbol 2. -/
def mixedFeed : List Message :=
  [L3Book.buyMsg 1 10, foreignDelete 9]

theorem routed_books_eq_standalone_mixedFeed :
    ((new.run mixedFeed).l2Book 1).orders.toList.map Prod.fst = [1] ∧
    (new.run mixedFeed).l2Book 1 = (L2Book.new 1).run mixedFeed ∧
    (new.run mixedFeed).l3Book 1 = (L3Book.new 1).run mixedFeed := by
  have hrefs : OneLocatePerRef mixedFeed := by
    simp [OneLocatePerRef, mixedFeed, L3Book.buyMsg, foreignDelete, Message.orderRefs,
      Message.header]
  have hres : (L3Book.new 1).results mixedFeed = [.ok (), .ok ()] := by decide +kernel
  obtain ⟨hl2, -, hiff, hclean⟩ := routed_books_eq_standalone mixedFeed hrefs 1
  exact ⟨by decide +kernel, hl2.1,
    hiff.mpr (hclean fun _ _ => by rw [hres]; simp) _ (List.prefix_refl _)⟩

/-- Replaces order `r` of symbol 1 by `r'`. -/
def replaceMsg (r r' : OrderReference) (n : Shares) : Message :=
  .orderReplace { header := ⟨1, 0, 0⟩, originalOrderRef := r, newOrderRef := r', shares := n,
                  price := 10 }

/-- Order 2 is executed behind order 1 and stays in the L3 book only.  Order 3 is executed
down to 5 shares, and then order 2 is replaced onto it, which the L2 book does not see. -/
def skippedFeed : List Message :=
  [ L3Book.buyMsg 1 10, L3Book.buyMsg 2 10, executeMsg 2 100, L3Book.buyMsg 3 10,
    executeMsg 3 95, replaceMsg 2 3 100, executeMsg 3 50 ]

/-- The L2 book rejects the last execution, so the L3 book of the manager never sees it, and
keeps 100 shares of order 3 where the standalone book has 50. -/
theorem skipped_execution_separates_books :
    (∀ m ∈ skippedFeed, m.header.stockLocate = 1) ∧ OneLocatePerRef skippedFeed ∧
    (((new.run skippedFeed).l3Book 1).orders[(3 : OrderReference)]?).map L3OrderEntry.shares
      = some 100 ∧
    (((L3Book.new 1).run skippedFeed).orders[(3 : OrderReference)]?).map L3OrderEntry.shares
      = some 50 := by
  have hone : ∀ m ∈ skippedFeed, m.header.stockLocate = 1 := by decide +kernel
  refine ⟨hone, fun m hm m' hm' r _ _ => ?_, by decide +kernel, by decide +kernel⟩
  rw [hone m hm, hone m' hm']

end BookManager

end Itch
