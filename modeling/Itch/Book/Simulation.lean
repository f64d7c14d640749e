import Itch.Book.L2Totals
import Itch.Book.L3Queues

/-!
# The L3 book simulates the L2 book

Both books keep an index of the open orders.  `SameOrders` says that the L2 index is the
L3 index with attribution and arrival number forgotten.  Every pair of mutators keeps it,
as long as the L3 book reports no FIFO violation, and returns the same result.  The level
totals of the L2 book, of the summary of the L3 book and of its queues are then three ways
to add up the same orders.
-/

namespace Itch

open Lib

/-- The L2 entry of an L3 entry. -/
def L3OrderEntry.toL2 (e : L3OrderEntry) : OrderEntry where
  price := e.price
  shares := e.shares
  side := e.side
  stockLocate := e.stockLocate

/-- Two books of one symbol with the same open orders, all of that symbol. -/
structure SameOrders (l3 : L3Book) (l2 : L2Book) : Prop where
  stockLocate : l2.stockLocate = l3.stockLocate
  orders : l2.orders = l3.orders.map fun _ e => e.toL2
  pinned : ∀ (r : OrderReference) (e : L3OrderEntry),
    l3.orders[r]? = some e → e.stockLocate = l3.stockLocate

/-- The results a feed returns, message by message. -/
def L2Book.results : L2Book → List Message → List (Except BookError Unit)
  | _, [] => []
  | b, m :: msgs => (b.apply m).1 :: results (b.apply m).2 msgs

@[inherit_doc L2Book.results]
def L3Book.results : L3Book → List Message → List (Except BookError Unit)
  | _, [] => []
  | b, m :: msgs => (b.apply m).1 :: results (b.apply m).2 msgs

/-- The result is not a FIFO violation. -/
def NoViolation (x : Except BookError Unit) : Prop :=
  ∀ expected got, x ≠ .error (.fifoViolation expected got)

namespace SameOrders

theorem new (locate : StockLocate) : SameOrders (L3Book.new locate) (L2Book.new locate) where
  stockLocate := rfl
  orders := Std.ExtTreeMap.ext_getElem? fun {r} => by simp [L3Book.new, L2Book.new]
  pinned r e h := by simp [L3Book.new] at h

/-! ## Moves -/

variable {l3 : L3Book} {l2 : L2Book} {r : OrderReference} {e : L3OrderEntry}

theorem get_none (h : SameOrders l3 l2) (hget : l3.orders[r]? = none) : l2.orders[r]? = none := by
  rw [h.orders, FinMap.get_map, hget, Option.map_none]

theorem get_some (h : SameOrders l3 l2) (hget : l3.orders[r]? = some e) :
    l2.orders[r]? = some e.toL2 := by
  rw [h.orders, FinMap.get_map, hget, Option.map_some]

theorem mem_iff (h : SameOrders l3 l2) : r ∈ l2.orders ↔ r ∈ l3.orders := by
  rw [h.orders, Std.ExtTreeMap.mem_map]

theorem insert (h : SameOrders l3 l2) (side : Side) (n : UInt32) (price : Price4)
    (mpid : Option Mpid) :
    SameOrders (l3.insertOrder r side n price mpid) (l2.addOrder r side n price) where
  stockLocate := by simp [h.stockLocate]
  orders := by
    rw [L2Book.addOrder_orders, L3Book.insertOrder_orders, FinMap.map_insert, ← h.orders,
      h.stockLocate]
    rfl
  pinned x e' hx := by
    rw [L3Book.insertOrder_orders, FinMap.get_insert] at hx
    rw [L3Book.insertOrder_stockLocate]
    split at hx
    next => cases hx; rfl
    next => exact h.pinned x e' hx

theorem erase (h : SameOrders l3 l2) {side : Side} {price : Price4} {k : Nat} :
    SameOrders { l3 with orders := l3.orders.erase r }
      ({ l2 with orders := l2.orders.erase r }.reduce side price k) where
  stockLocate := by simp [h.stockLocate]
  orders := by rw [L2Book.reduce_orders, FinMap.map_erase, ← h.orders]
  pinned x e' hx := by
    rw [FinMap.get_erase] at hx
    split at hx
    next => cases hx
    next => exact h.pinned x e' hx

/-- The queues do not matter. -/
theorem of_orders (h : SameOrders l3 l2) {l3' : L3Book} (hl : l3'.stockLocate = l3.stockLocate)
    (ho : l3'.orders = l3.orders) : SameOrders l3' l2 where
  stockLocate := h.stockLocate.trans hl.symm
  orders := by rw [ho, h.orders]
  pinned x e' hx := by
    rw [ho] at hx
    rw [hl, h.pinned x e' hx]

theorem remove (h : SameOrders l3 l2) {k : Nat} :
    SameOrders (l3.remove r e)
      ({ l2 with orders := l2.orders.erase r }.reduce e.side e.price k) :=
  h.erase.of_orders L3Book.remove_stockLocate L3Book.remove_orders

theorem update (h : SameOrders l3 l2) (hget : l3.orders[r]? = some e) (n : UInt32) {k : Nat} :
    SameOrders { l3 with orders := l3.orders.insert r { e with shares := n } }
      ({ l2 with orders := l2.orders.insert r { e.toL2 with shares := n } }.reduce
        e.side e.price k) where
  stockLocate := by simp [h.stockLocate]
  orders := by
    rw [L2Book.reduce_orders, FinMap.map_insert, ← h.orders]
    rfl
  pinned x e' hx := by
    rw [FinMap.get_insert] at hx
    split at hx
    next => cases hx; exact h.pinned r e hget
    next => exact h.pinned x e' hx

/-! ## Mutators -/

theorem execute (h : SameOrders l3 l2) (r : OrderReference) (n : UInt32)
    (hfifo : NoViolation (l3.execute r n).1) :
    (l2.execute r n).1 = (l3.execute r n).1 ∧
      SameOrders (l3.execute r n).2 (l2.execute r n).2 := by
  cases hget : l3.orders[r]? with
  | none =>
      rw [L3Book.execute_of_none hget, L2Book.execute_of_none (h.get_none hget)]
      exact ⟨rfl, h⟩
  | some e =>
      have hget2 := h.get_some hget
      rcases Word32.lt_or_eq_or_gt e.shares n with hlt | rfl | hlt
      · rw [L3Book.execute_of_lt hget hlt, L2Book.execute_of_lt hget2 hlt]
        exact ⟨rfl, h⟩
      · have hl2 : l2.execute r e.shares = _ := L2Book.execute_fully hget2
        rw [hl2]
        cases hqueue : l3.queue e.side e.price with
        | nil =>
            rw [L3Book.execute_no_queue hget hqueue]
            exact ⟨rfl, h.erase⟩
        | cons front q =>
            have hlevel := L3Book.levels_of_queue hqueue
            by_cases hf : front = r
            · subst hf
              rw [L3Book.execute_front hget hlevel]
              exact ⟨rfl, h.remove⟩
            · rw [L3Book.execute_not_front hget hlevel hf] at hfifo
              exact absurd rfl (hfifo r front)
      · rw [L3Book.execute_partly hget hlt, L2Book.execute_partly hget2 hlt]
        exact ⟨rfl, h.update hget _⟩

/-- A cancel of the L3 book is an execution of the L2 book. -/
theorem cancel (h : SameOrders l3 l2) (r : OrderReference) (n : UInt32) :
    (l2.execute r n).1 = (l3.cancel r n).1 ∧ SameOrders (l3.cancel r n).2 (l2.execute r n).2 := by
  cases hget : l3.orders[r]? with
  | none =>
      rw [L3Book.cancel_of_none hget, L2Book.execute_of_none (h.get_none hget)]
      exact ⟨rfl, h⟩
  | some e =>
      have hget2 := h.get_some hget
      rcases Word32.lt_or_eq_or_gt e.shares n with hlt | rfl | hlt
      · rw [L3Book.cancel_of_lt hget hlt, L2Book.execute_of_lt hget2 hlt]
        exact ⟨rfl, h⟩
      · have hl2 : l2.execute r e.shares = _ := L2Book.execute_fully hget2
        rw [L3Book.cancel_fully hget, hl2]
        exact ⟨rfl, h.remove⟩
      · rw [L3Book.cancel_partly hget hlt, L2Book.execute_partly hget2 hlt]
        exact ⟨rfl, h.update hget _⟩

theorem delete (h : SameOrders l3 l2) (r : OrderReference) :
    SameOrders (l3.delete r) (l2.delete r) := by
  cases hget : l3.orders[r]? with
  | none => rwa [L3Book.delete_of_none hget, L2Book.delete_of_none (h.get_none hget)]
  | some e =>
      rw [L3Book.delete_of_some hget, L2Book.delete_of_some (h.get_some hget)]
      exact h.remove

theorem replace (h : SameOrders l3 l2) (r r' : OrderReference) (n : UInt32) (price : Price4) :
    (l2.replace r r' n price).1 = (l3.replace r r' n price).1 ∧
      SameOrders (l3.replace r r' n price).2 (l2.replace r r' n price).2 := by
  cases hget : l3.orders[r]? with
  | none =>
      rw [L3Book.replace_of_none hget, L2Book.replace_of_none (h.get_none hget)]
      exact ⟨rfl, h⟩
  | some e =>
      rw [L3Book.replace_of_some hget, L2Book.replace_of_some (h.get_some hget),
        ← L3Book.delete_of_some hget]
      exact ⟨rfl, (h.delete r).insert _ _ _ _⟩

/-- One message has the same result in both books and keeps their orders the same. -/
theorem apply (h : SameOrders l3 l2) {m : Message}
    (hfifo : NoViolation (l3.apply m).1) :
    (l2.apply m).1 = (l3.apply m).1 ∧ SameOrders (l3.apply m).2 (l2.apply m).2 := by
  cases m with
  | addOrder m =>
      by_cases hl : m.header.stockLocate = l3.stockLocate
      · simpa [L2Book.apply, L3Book.apply, h.stockLocate, hl] using h.insert _ _ _ _
      · simpa [L2Book.apply, L3Book.apply, h.stockLocate, hl] using h
  | addOrderWithMpid m =>
      by_cases hl : m.header.stockLocate = l3.stockLocate
      · simpa [L2Book.apply, L3Book.apply, h.stockLocate, hl] using h.insert _ _ _ _
      · simpa [L2Book.apply, L3Book.apply, h.stockLocate, hl] using h
  | orderExecuted m => exact h.execute _ _ hfifo
  | orderExecutedWithPrice m => exact h.execute _ _ hfifo
  | orderCancel m => exact h.cancel _ _
  | orderDelete m => exact ⟨rfl, h.delete _⟩
  | orderReplace m => exact h.replace _ _ _ _
  | _ => exact ⟨rfl, h⟩

end SameOrders

/-! ## Level totals -/

section Totals

variable {l3 : L3Book} {l2 : L2Book}

theorem L3Book.levelOrders_eq (side : Side) (price : Price4) :
    l3.levelOrders side price = (l3.queue side price).filterMap (l3.orders[·]?) := by
  rw [levelOrders, queue]
  cases (l3.levels side)[price]? <;> rfl

/-- The shares of a queue add up to the open shares at its level. -/
theorem SameOrders.sum_levelOrders (h : SameOrders l3 l2) (hq : l3.WellQueued) (side : Side)
    (price : Price4) :
    ((l3.levelOrders side price).map fun e => e.shares.toNat).sum
      = openShares l2.orders side price := by
  rw [L3Book.levelOrders_eq, FinMap.sum_filterMap_get _ (hq.nodup _ _) (hq.mem_queue _ _),
    openShares, h.orders, FinMap.weight_map]
  rfl

/-- Adding fresh orders one by one adds up their shares. -/
theorem L2Book.Exact.foldl_addOrder {visit : List (OrderReference × L3OrderEntry)} :
    ∀ {b : L2Book}, b.Exact → (visit.map Prod.fst).Nodup → (∀ x ∈ visit, x.1 ∉ b.orders) →
      b.orders.size + visit.length < 2 ^ 32 →
      (visit.foldl (fun b x => b.addOrder x.1 x.2.side x.2.shares x.2.price) b).Exact ∧
      ∀ side price,
        openShares (visit.foldl (fun b x => b.addOrder x.1 x.2.side x.2.shares x.2.price) b).orders
            side price
          = openShares b.orders side price +
            (visit.map fun x => x.2.toL2.sharesAt side price).sum := by
  induction visit with
  | nil =>
      intro b h _ _ _
      exact ⟨h, fun side price => rfl⟩
  | cons x visit ih =>
      intro b h hnodup hfresh hsize
      rw [List.map_cons, List.nodup_cons] at hnodup
      rw [List.length_cons] at hsize
      have hx : x.1 ∉ b.orders := hfresh x List.mem_cons_self
      have hstep := h.addOrder hx (h.not_addSaturates (by omega) x.2.side x.2.shares x.2.price)
      have hrest : ∀ y ∈ visit, y.1 ∉ (b.addOrder x.1 x.2.side x.2.shares x.2.price).orders := by
        intro y hy hmem
        rw [addOrder_orders, FinMap.mem_insert_iff] at hmem
        rcases hmem with hxy | hmem
        · exact hnodup.1 (List.mem_map.mpr ⟨y, hy, hxy.symm⟩)
        · exact hfresh y (List.mem_cons_of_mem _ hy) hmem
      have hsize' : (b.addOrder x.1 x.2.side x.2.shares x.2.price).orders.size + visit.length
          < 2 ^ 32 := by
        rw [addOrder_orders]
        have := Std.ExtTreeMap.size_insert_le (t := b.orders) (k := x.1)
          (v := { price := x.2.price, shares := x.2.shares, side := x.2.side,
                  stockLocate := b.stockLocate })
        omega
      obtain ⟨hexact, hsum⟩ := ih hstep hnodup.2 hrest hsize'
      refine ⟨hexact, fun side price => ?_⟩
      rw [List.foldl_cons, hsum, addOrder_orders, openShares, FinMap.weight_insert hx]
      simp only [List.map_cons, List.sum_cons, openShares]
      have : OrderEntry.sharesAt side price
          { price := x.2.price, shares := x.2.shares, side := x.2.side,
            stockLocate := b.stockLocate } = x.2.toL2.sharesAt side price := rfl
      omega

/-- For orders of its symbol, the summary adds one order after the other. -/
theorem L3Book.summaryL2_eq {visit : List (OrderReference × L3OrderEntry)}
    (hpin : ∀ x ∈ visit, x.2.stockLocate = l3.stockLocate) :
    l3.summaryL2 visit =
      visit.foldl (fun b x => b.addOrder x.1 x.2.side x.2.shares x.2.price)
        (L2Book.new l3.stockLocate) := by
  have hgen : ∀ b : L2Book, b.stockLocate = l3.stockLocate →
      visit.foldl (fun b x => if x.2.stockLocate ≠ l3.stockLocate then b
          else (b.apply (l3.summaryMsg x.1 x.2)).2) b
        = visit.foldl (fun b x => b.addOrder x.1 x.2.side x.2.shares x.2.price) b := by
    induction visit with
    | nil =>
        intro b _
        rfl
    | cons x visit ih =>
        intro b hb
        have hx := hpin x List.mem_cons_self
        have happly : (b.apply (l3.summaryMsg x.1 x.2)).2
            = b.addOrder x.1 x.2.side x.2.shares x.2.price := by
          simp [L2Book.apply, summaryMsg, hb]
        rw [List.foldl_cons, List.foldl_cons, if_neg (not_not_intro hx), happly]
        exact ih (fun y hy => hpin y (List.mem_cons_of_mem _ hy)) _ (by simpa using hb)
  exact hgen _ rfl

/-- The summary adds up the open orders, whatever the order of the visit. -/
theorem SameOrders.total_summaryL2 (h : SameOrders l3 l2) (hsize : l2.orders.size < 2 ^ 32)
    {visit : List (OrderReference × L3OrderEntry)} (hvisit : visit.Perm l3.orders.toList)
    (side : Side) (price : Price4) :
    (l3.summaryL2 visit).total side price = openShares l2.orders side price := by
  have hpin : ∀ x ∈ visit, x.2.stockLocate = l3.stockLocate := fun x hx =>
    h.pinned x.1 x.2 (FinMap.mem_entries.mp (hvisit.mem_iff.mp hx))
  have hnodup : (visit.map Prod.fst).Nodup := (hvisit.map Prod.fst).nodup_iff.mpr (by
    rw [List.nodup_iff_pairwise_ne, List.pairwise_map]
    refine l3.orders.distinct_keys_toList.imp fun hne heq => hne ?_
    rw [heq]
    exact Std.ReflCmp.compare_self)
  have hlen : (L2Book.new l3.stockLocate).orders.size + visit.length < 2 ^ 32 := by
    rw [h.orders, Std.ExtTreeMap.size_map] at hsize
    rw [hvisit.length_eq, Std.ExtTreeMap.length_toList]
    simpa [L2Book.new] using hsize
  obtain ⟨hexact, hsum⟩ := (L2Book.exact_new l3.stockLocate).foldl_addOrder hnodup
    (fun x _ => by simp [L2Book.new]) hlen
  rw [L3Book.summaryL2_eq hpin, hexact.total_eq, hsum, h.orders, openShares, openShares,
    FinMap.weight_map, ← FinMap.weight_eq_of_perm hvisit]
  simp [L2Book.new]

end Totals

/-! ## Runs -/

theorem L2Book.execute_result (b : L2Book) (r : OrderReference) (n : UInt32) :
    (b.execute r n).1 = .ok () ∨ ∃ order executed remaining,
      (b.execute r n).1 = .error (.overExecution order executed remaining) := by
  cases hget : b.orders[r]? with
  | none => exact .inl (by rw [execute_of_none hget])
  | some e =>
      rcases Word32.lt_or_eq_or_gt e.shares n with hlt | rfl | hlt
      · exact .inr ⟨r, n, e.shares, by rw [execute_of_lt hget hlt]⟩
      · exact .inl (by rw [execute_fully hget])
      · exact .inl (by rw [execute_partly hget hlt])

/-- The L2 book only ever reports over-executions. -/
theorem L2Book.apply_result (b : L2Book) (m : Message) :
    (b.apply m).1 = .ok () ∨ ∃ order executed remaining,
      (b.apply m).1 = .error (.overExecution order executed remaining) := by
  cases m with
  | addOrder m =>
      left
      by_cases hl : m.header.stockLocate = b.stockLocate <;> simp [apply, hl]
  | addOrderWithMpid m =>
      left
      by_cases hl : m.header.stockLocate = b.stockLocate <;> simp [apply, hl]
  | orderExecuted m => exact b.execute_result _ _
  | orderExecutedWithPrice m => exact b.execute_result _ _
  | orderCancel m => exact b.execute_result _ _
  | orderReplace m =>
      left
      cases hget : b.orders[m.originalOrderRef]? with
      | none => rw [apply, replace_of_none hget]
      | some e => rw [apply, replace_of_some hget]
  | _ => exact .inl rfl

theorem L2Book.results_mem {b : L2Book} {msgs : List Message} {x : Except BookError Unit}
    (hx : x ∈ b.results msgs) :
    x = .ok () ∨ ∃ order executed remaining, x = .error (.overExecution order executed remaining) := by
  induction msgs generalizing b with
  | nil => cases hx
  | cons m msgs ih =>
      rcases List.mem_cons.mp hx with rfl | hx
      · exact b.apply_result m
      · exact ih hx

theorem SameOrders.addsFresh {l3 : L3Book} {l2 : L2Book} (h : SameOrders l3 l2) {m : Message}
    (hfresh : m.AddsFresh l2.stockLocate (· ∈ l2.orders)) :
    m.AddsFresh l3.stockLocate (· ∈ l3.orders) := by
  have hlive : (fun r => r ∈ l2.orders) = fun r => r ∈ l3.orders :=
    funext fun r => propext h.mem_iff
  rwa [h.stockLocate, hlive] at hfresh

/-- Two books that run the same feed. -/
theorem SameOrders.run {l3 : L3Book} {l2 : L2Book} {msgs : List Message} (h : SameOrders l3 l2)
    (hq : l3.WellQueued) (hexact : l2.Exact) (hfeed : l2.CleanFeed msgs)
    (hfifo : ∀ x ∈ l3.results msgs, NoViolation x) :
    l2.results msgs = l3.results msgs ∧ SameOrders (l3.run msgs) (l2.run msgs) ∧
      (l3.run msgs).WellQueued ∧ (l2.run msgs).Exact := by
  induction msgs generalizing l3 l2 with
  | nil => exact ⟨rfl, h, hq, hexact⟩
  | cons m msgs ih =>
      obtain ⟨hsize, hfresh, hrest⟩ := hfeed
      rw [L3Book.results, List.forall_mem_cons] at hfifo
      obtain ⟨hres, hsame⟩ := h.apply hfifo.1
      have hq' := (hq.step (h.addsFresh hfresh)).wellQueued hq
      obtain ⟨hres', hrest'⟩ := ih hsame hq' (hexact.apply hsize hfresh).1 hrest hfifo.2
      exact ⟨by rw [L2Book.results, L3Book.results, hres, hres'], hrest'⟩

/-- On a clean feed, as long as the L3 book has reported no FIFO violation, both books
return the same results, hold the same orders, and agree on every level total, which is
also the total of the L3 summary and of the L3 queue. -/
theorem l3_simulates_l2 (locate : StockLocate) (msgs : List Message)
    (hfeed : (L2Book.new locate).CleanFeed msgs) (before : List Message) (hbefore : before <+: msgs)
    (hfifo : ∀ expected got,
      .error (.fifoViolation expected got) ∉ (L3Book.new locate).results before) :
    (L2Book.new locate).results before = (L3Book.new locate).results before ∧
    (∀ x ∈ (L2Book.new locate).results before, x = .ok () ∨ ∃ order executed remaining,
      x = .error (.overExecution order executed remaining)) ∧
    (∀ r : OrderReference,
      (((L2Book.new locate).run before).orders[r]?).map (fun e => (e.price, e.side, e.shares)) =
      (((L3Book.new locate).run before).orders[r]?).map (fun e => (e.price, e.side, e.shares))) ∧
    (∀ side price visit, visit.Perm ((L3Book.new locate).run before).orders.toList →
      ((L2Book.new locate).run before).total side price =
        (((L3Book.new locate).run before).summaryL2 visit).total side price ∧
      ((L2Book.new locate).run before).total side price =
        ((((L3Book.new locate).run before).levelOrders side price).map fun e =>
          e.shares.toNat).sum) := by
  obtain ⟨after, rfl⟩ := hbefore
  have hclean := (L2Book.cleanFeed_append.mp hfeed).1
  have hsize := (L2Book.cleanFeed_append.mp hfeed).2.size_lt
  have hviolation : ∀ x ∈ (L3Book.new locate).results before, NoViolation x := by
    rintro x hx expected got rfl
    exact hfifo expected got hx
  obtain ⟨hres, hsame, hq, hexact⟩ := (SameOrders.new locate).run (L3Book.wellQueued_new locate)
    (L2Book.exact_new locate) hclean hviolation
  refine ⟨hres, fun x hx => L2Book.results_mem hx, fun r => ?_, fun side price visit hvisit => ?_⟩
  · rw [hsame.orders, FinMap.get_map, Option.map_map]
    rfl
  · rw [hexact.total_eq, hsame.total_summaryL2 hsize hvisit, hsame.sum_levelOrders hq]
    exact ⟨rfl, rfl⟩

theorem l3_simulates_l2_sampleFeed :
    (L2Book.new 1).results L2Book.sampleFeed = (L3Book.new 1).results L2Book.sampleFeed ∧
    ((L2Book.new 1).run L2Book.sampleFeed).total .buy 100 = 60 ∧
    ((L2Book.new 1).run L2Book.sampleFeed).total .buy 100 =
      ((((L3Book.new 1).run L2Book.sampleFeed).levelOrders .buy 100).map fun e =>
        e.shares.toNat).sum := by
  have hres : (L3Book.new 1).results L2Book.sampleFeed =
      [.ok (), .ok (), .ok (), .error (.overExecution 2 80 50), .ok ()] := by decide +kernel
  have h := l3_simulates_l2 1 L2Book.sampleFeed (by decide +kernel) L2Book.sampleFeed
    (List.prefix_refl _) (fun _ _ => by rw [hres]; simp)
  exact ⟨h.1, by decide +kernel, (h.2.2.2 .buy 100 _ (List.Perm.refl _)).2⟩

end Itch
