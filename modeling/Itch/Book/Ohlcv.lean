import Itch.Lib.Word64
import Itch.Protocol.Messages

/-!
# Bars of the printed trades

The accumulator keeps one bar for each symbol: the first, highest, lowest and last price of
its printed trades, their shares and their number.  Three message kinds print a trade, one of
them only if it is marked so.  What a bar says is stated over the list of the trades that a
feed prints for the symbol.
-/

namespace Itch

open Lib

/-! ## The accumulator -/

structure OhlcvBar where
  stockLocate : StockLocate
  openPrice : Price4
  high : Price4
  low : Price4
  close : Price4
  volume : UInt64
  tradeCount : UInt64
deriving Repr, DecidableEq

structure OhlcvAccumulator where
  perSymbol : FinMap StockLocate OhlcvBar

/-- The bar after one more trade. -/
def OhlcvBar.update (bar : OhlcvBar) (price : Price4) (shares : UInt64) : OhlcvBar :=
  { bar with
    high := if price > bar.high then price else bar.high
    low := if price < bar.low then price else bar.low
    close := price
    volume := Word64.saturatingAdd bar.volume shares.toNat
    tradeCount := Word64.saturatingAdd bar.tradeCount 1 }

/-- The bar of the first trade. -/
def OhlcvBar.first (locate : StockLocate) (price : Price4) (shares : UInt64) : OhlcvBar where
  stockLocate := locate
  openPrice := price
  high := price
  low := price
  close := price
  volume := shares
  tradeCount := 1

namespace OhlcvAccumulator

def new : OhlcvAccumulator where
  perSymbol := ∅

def bar (acc : OhlcvAccumulator) (locate : StockLocate) : Option OhlcvBar :=
  acc.perSymbol[locate]?

def applyTrade (acc : OhlcvAccumulator) (locate : StockLocate) (price : Price4)
    (shares : UInt64) : OhlcvAccumulator where
  perSymbol := acc.perSymbol.insert locate <|
    match acc.perSymbol[locate]? with
    | some bar => bar.update price shares
    | none => OhlcvBar.first locate price shares

/-- Apply one message. -/
def apply (acc : OhlcvAccumulator) : Message → OhlcvAccumulator
  | .tradeNonCross p => acc.applyTrade p.header.stockLocate p.price p.shares.toUInt64
  | .crossTrade q => acc.applyTrade q.header.stockLocate q.crossPrice q.shares
  | .orderExecutedWithPrice c =>
      match c.printable with
      | .printable =>
          acc.applyTrade c.header.stockLocate c.executionPrice c.executedShares.toUInt64
      | .nonPrintable => acc
  -- the price of an `E` is in the book, and the same trade comes as a `P`
  | .orderExecuted _ => acc
  | .systemEvent _ | .stockDirectory _ | .stockTradingAction _ | .regShoRestriction _
  | .marketParticipantPosition _ | .mwcbDeclineLevel _ | .mwcbStatus _
  | .ipoQuotingPeriodUpdate _ | .addOrder _ | .addOrderWithMpid _ | .orderCancel _
  | .orderDelete _ | .orderReplace _ | .brokenTrade _ | .noii _
  | .retailPriceImprovement _ => acc

/-- Apply a feed. -/
def run (acc : OhlcvAccumulator) (msgs : List Message) : OhlcvAccumulator :=
  msgs.foldl apply acc

end OhlcvAccumulator

/-! ## Printed trades -/

/-- A trade of the public tape. -/
structure Print where
  stockLocate : StockLocate
  price : Price4
  shares : UInt64
deriving Repr, DecidableEq

/-- The trade a message prints. -/
def Message.print? : Message → Option Print
  | .tradeNonCross p => some ⟨p.header.stockLocate, p.price, p.shares.toUInt64⟩
  | .crossTrade q => some ⟨q.header.stockLocate, q.crossPrice, q.shares⟩
  | .orderExecutedWithPrice c =>
      if c.printable = .printable then
        some ⟨c.header.stockLocate, c.executionPrice, c.executedShares.toUInt64⟩
      else none
  | _ => none

/-- The trades a feed prints for a symbol, in order. -/
def prints (locate : StockLocate) (msgs : List Message) : List Print :=
  (msgs.filterMap Message.print?).filter (·.stockLocate = locate)

/-- A bar that says what it should of a list of trades.  Both counters stop at the largest
word. -/
structure OhlcvBar.Summarizes (bar : OhlcvBar) (locate : StockLocate) (trades : List Print) :
    Prop where
  stockLocate : bar.stockLocate = locate
  openPrice : trades.head?.map Print.price = some bar.openPrice
  close : trades.getLast?.map Print.price = some bar.close
  high : IsGreatest {x | x ∈ trades.map Print.price} bar.high
  low : IsLeast {x | x ∈ trades.map Print.price} bar.low
  volume : bar.volume.toNat = min (trades.map (·.shares.toNat)).sum (2 ^ 64 - 1)
  tradeCount : bar.tradeCount.toNat = min trades.length (2 ^ 64 - 1)

theorem isGreatest_concat {prices : List Price4} {high price : Price4}
    (h : IsGreatest {x | x ∈ prices} high) :
    IsGreatest {x | x ∈ prices ++ [price]} (if price > high then price else high) := by
  split
  next hgt =>
    refine ⟨List.mem_append_right _ (List.mem_singleton_self _), fun x hx => ?_⟩
    rcases List.mem_append.mp hx with hx | hx
    · exact UInt32.le_trans (h.2 hx) (UInt32.le_of_lt hgt)
    · exact UInt32.le_of_eq (List.mem_singleton.mp hx)
  next hle =>
    refine ⟨List.mem_append_left _ h.1, fun x hx => ?_⟩
    rcases List.mem_append.mp hx with hx | hx
    · exact h.2 hx
    · rw [List.mem_singleton.mp hx]
      exact UInt32.not_lt.mp hle

theorem isLeast_concat {prices : List Price4} {low price : Price4}
    (h : IsLeast {x | x ∈ prices} low) :
    IsLeast {x | x ∈ prices ++ [price]} (if price < low then price else low) := by
  split
  next hlt =>
    refine ⟨List.mem_append_right _ (List.mem_singleton_self _), fun x hx => ?_⟩
    rcases List.mem_append.mp hx with hx | hx
    · exact UInt32.le_trans (UInt32.le_of_lt hlt) (h.2 hx)
    · exact UInt32.le_of_eq (List.mem_singleton.mp hx).symm
  next hle =>
    refine ⟨List.mem_append_left _ h.1, fun x hx => ?_⟩
    rcases List.mem_append.mp hx with hx | hx
    · exact h.2 hx
    · rw [List.mem_singleton.mp hx]
      exact UInt32.not_lt.mp hle

namespace OhlcvBar.Summarizes

variable {bar bar' : OhlcvBar} {locate : StockLocate} {trades : List Print}

theorem ne_nil (h : bar.Summarizes locate trades) : trades ≠ [] := by
  rintro rfl
  cases h.openPrice

/-- The trades determine the bar. -/
theorem unique (h : bar.Summarizes locate trades) (h' : bar'.Summarizes locate trades) :
    bar = bar' := by
  have hopen := Option.some.inj (h.openPrice.symm.trans h'.openPrice)
  have hclose := Option.some.inj (h.close.symm.trans h'.close)
  have hhigh := UInt32.le_antisymm (h'.high.2 h.high.1) (h.high.2 h'.high.1)
  have hlow := UInt32.le_antisymm (h.low.2 h'.low.1) (h'.low.2 h.low.1)
  have hvolume := UInt64.toNat_inj.mp (h.volume.trans h'.volume.symm)
  have hcount := UInt64.toNat_inj.mp (h.tradeCount.trans h'.tradeCount.symm)
  cases bar
  cases bar'
  cases h.stockLocate
  cases h'.stockLocate
  simp only at *
  subst_vars
  rfl

theorem first (p : Print) :
    (OhlcvBar.first p.stockLocate p.price p.shares).Summarizes p.stockLocate [p] where
  stockLocate := rfl
  openPrice := rfl
  close := rfl
  high := ⟨List.mem_singleton_self _, fun x hx => UInt32.le_of_eq (List.mem_singleton.mp hx)⟩
  low := ⟨List.mem_singleton_self _, fun x hx => UInt32.le_of_eq (List.mem_singleton.mp hx).symm⟩
  volume := by
    have hlt := p.shares.toNat_lt
    simp [OhlcvBar.first]
    omega
  tradeCount := rfl

theorem update (h : bar.Summarizes locate trades) (p : Print) :
    (bar.update p.price p.shares).Summarizes locate (trades ++ [p]) where
  stockLocate := h.stockLocate
  openPrice := by
    rw [List.head?_append_of_ne_nil _ h.ne_nil]
    exact h.openPrice
  close := by simp [OhlcvBar.update]
  high := by
    rw [List.map_append]
    exact isGreatest_concat h.high
  low := by
    rw [List.map_append]
    exact isLeast_concat h.low
  volume := by
    simp only [OhlcvBar.update, Word64.toNat_saturatingAdd, h.volume, List.map_append,
      List.sum_append, List.map_singleton, List.sum_singleton]
    omega
  tradeCount := by
    simp only [OhlcvBar.update, Word64.toNat_saturatingAdd, h.tradeCount, List.length_append,
      List.length_singleton]
    omega

end OhlcvBar.Summarizes

/-! ## The bars of a feed -/

namespace OhlcvAccumulator

variable {acc : OhlcvAccumulator} {locate : StockLocate} {msgs msgs' : List Message} {m : Message}

/-- A message changes the accumulator by the trade it prints. -/
theorem apply_eq : acc.apply m =
    match m.print? with
    | some p => acc.applyTrade p.stockLocate p.price p.shares
    | none => acc := by
  cases m with
  | orderExecutedWithPrice c =>
      rw [apply, Message.print?]
      cases c.printable <;> rfl
  | _ => rfl

theorem bar_applyTrade {price : Price4} {shares : UInt64} {other : StockLocate} :
    (acc.applyTrade locate price shares).bar other =
      if locate = other then
        match acc.bar locate with
        | some bar => some (bar.update price shares)
        | none => some (OhlcvBar.first locate price shares)
      else acc.bar other := by
  rw [bar, applyTrade, FinMap.get_insert, bar, bar]
  cases acc.perSymbol[locate]? <;> rfl

/-- Every bar says what it should of the trades printed so far. -/
def Tracks (acc : OhlcvAccumulator) (msgs : List Message) : Prop :=
  ∀ locate, match acc.bar locate with
    | some bar => bar.Summarizes locate (prints locate msgs)
    | none => prints locate msgs = []

theorem prints_concat : prints locate (msgs ++ [m]) =
    prints locate msgs ++ m.print?.toList.filter (·.stockLocate = locate) := by
  cases hprint : m.print? <;> simp [prints, hprint]

theorem Tracks.apply (h : acc.Tracks msgs) (m : Message) : (acc.apply m).Tracks (msgs ++ [m]) := by
  intro locate
  rw [apply_eq, prints_concat]
  cases m.print? with
  | none =>
      rw [Option.toList_none, List.filter_nil, List.append_nil]
      exact h locate
  | some p =>
      have hlocate := h locate
      rw [bar_applyTrade]
      by_cases heq : p.stockLocate = locate
      · subst heq
        rw [if_pos rfl]
        have hnew : (some p).toList.filter (·.stockLocate = p.stockLocate) = [p] := by simp
        rw [hnew]
        cases hbar : acc.bar p.stockLocate with
        | some bar =>
            rw [hbar] at hlocate
            exact hlocate.update p
        | none =>
            rw [hbar] at hlocate
            rw [hlocate]
            exact .first p
      · rw [if_neg heq]
        have hnew : (some p).toList.filter (·.stockLocate = locate) = [] := by simp [heq]
        rw [hnew, List.append_nil]
        exact hlocate

theorem run_tracks (msgs : List Message) : (new.run msgs).Tracks msgs := by
  induction msgs using List.reverseRecOn with
  | nil =>
      intro locate
      have hbar : (new.run []).bar locate = none := Std.ExtTreeMap.getElem?_empty
      rw [hbar]
      rfl
  | append_singleton msgs m ih =>
      rw [run, List.foldl_concat]
      exact ih.apply m

theorem Tracks.bar_eq_none_iff (h : acc.Tracks msgs) :
    acc.bar locate = none ↔ prints locate msgs = [] := by
  have hlocate := h locate
  cases hbar : acc.bar locate with
  | none =>
      rw [hbar] at hlocate
      exact iff_of_true rfl hlocate
  | some bar =>
      rw [hbar] at hlocate
      exact iff_of_false nofun hlocate.ne_nil

theorem Tracks.summarizes (h : acc.Tracks msgs) {bar : OhlcvBar} (hbar : acc.bar locate = some bar) :
    bar.Summarizes locate (prints locate msgs) := by
  have hlocate := h locate
  rw [hbar] at hlocate
  exact hlocate

/-- The bars depend on the printed trades alone. -/
theorem Tracks.bar_eq {acc' : OhlcvAccumulator} (h : acc.Tracks msgs) (h' : acc'.Tracks msgs')
    (hprints : prints locate msgs' = prints locate msgs) : acc'.bar locate = acc.bar locate := by
  cases hbar : acc.bar locate with
  | none =>
      rw [h'.bar_eq_none_iff, hprints]
      exact h.bar_eq_none_iff.mp hbar
  | some bar =>
      have hsum := h.summarizes hbar
      cases hbar' : acc'.bar locate with
      | none => exact absurd (hprints ▸ h'.bar_eq_none_iff.mp hbar') hsum.ne_nil
      | some bar' =>
          have hsum' := h'.summarizes hbar'
          rw [hprints] at hsum'
          rw [hsum'.unique hsum]

/-- A feed leaves a bar for the symbols it prints trades of, and each bar sums up the trades of
its symbol. -/
theorem bar_summarizes (msgs : List Message) (locate : StockLocate) :
    ((∃ bar, (new.run msgs).bar locate = some bar) ↔ prints locate msgs ≠ []) ∧
    (∀ bar, (new.run msgs).bar locate = some bar →
      bar.Summarizes locate (prints locate msgs)) ∧
    ∀ msgs', prints locate msgs' = prints locate msgs →
      (new.run msgs').bar locate = (new.run msgs).bar locate := by
  have htracks := run_tracks msgs
  refine ⟨?_, fun bar hbar => htracks.summarizes hbar, fun msgs' hprints => ?_⟩
  · rw [← Option.ne_none_iff_exists', Ne, Ne, htracks.bar_eq_none_iff]
  · exact htracks.bar_eq (run_tracks msgs') hprints

theorem prints_replicate {p : Print} (h : m.print? = some p) (n : Nat) :
    prints p.stockLocate (List.replicate n m) = List.replicate n p := by
  rw [prints, List.filterMap_replicate_of_some h]
  exact List.filter_replicate_of_pos (decide_eq_true rfl)

/-- A counter cannot hold so many trades. -/
theorem exists_bar_tradeCount_ne (h : 2 ^ 64 ≤ (prints locate msgs).length) :
    ∃ bar, (new.run msgs).bar locate = some bar ∧
      bar.tradeCount.toNat ≠ (prints locate msgs).length := by
  have hne : prints locate msgs ≠ [] := List.ne_nil_of_length_pos (by omega)
  obtain ⟨bar, hbar⟩ := Option.ne_none_iff_exists'.mp
    fun hnone => hne ((run_tracks msgs).bar_eq_none_iff.mp hnone)
  have hlt := bar.tradeCount.toNat_lt
  exact ⟨bar, hbar, by omega⟩

/-- The same trade `2 ^ 64` times. -/
theorem tradeCount_saturates : ∃ msgs bar, (new.run msgs).bar 1 = some bar ∧
    bar.tradeCount.toNat ≠ (prints 1 msgs).length := by
  let trade : CrossTrade :=
    { header := ⟨1, 0, 0⟩, shares := 1, stock := Vector.replicate 8 0, crossPrice := 10000,
      matchNumber := 1, crossType := .opening }
  have hprint : (Message.crossTrade trade).print? = some ⟨1, 10000, 1⟩ := rfl
  have hlength : (prints 1 (List.replicate (2 ^ 64) (Message.crossTrade trade))).length = 2 ^ 64 :=
    (congrArg List.length (prints_replicate hprint (2 ^ 64))).trans List.length_replicate
  exact ⟨_, exists_bar_tradeCount_ne hlength.ge⟩

end OhlcvAccumulator

end Itch
