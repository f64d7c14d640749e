import Mathlib.Tactic

/-!
# Closed-set ASCII enums

Every closed-set field of an ITCH 5.0 message is one ASCII byte.  The `enum_alpha!`
macro declares the variants with their bytes and derives both directions from the
one table, so here an enum is an instance of `AlphaCoded`: its name, its variants and
the byte of each.  The two laws the compiler enforces on the Rust side, that the
variants are all of the type and that no two share a discriminant, are fields of the
class.  `fromByte` is then defined once for all of them.
-/

namespace Itch

/-- Codec-layer errors. -/
inductive ProtocolError where
  /-- A byte that no variant of the enum `field` has. -/
  | invalidEnumCode (field : String) (code : UInt8)
  /-- The decode buffer is shorter than the body. -/
  | truncated (need got : Nat)
  /-- The encode buffer is shorter than the body. -/
  | bufferTooSmall (need got : Nat)
  /-- The tag is none of the 20 message kinds. -/
  | unknownMessageType (tag : UInt8)
deriving Repr, DecidableEq

/-- One-byte ASCII codec contract of a closed-set enum. -/
class AlphaCoded (α : Type) where
  /-- The name carried by `invalidEnumCode`. -/
  field : String
  /-- The variants, in declaration order. -/
  variants : List α
  /-- The discriminant of a variant. -/
  toByte : α → UInt8
  /-- Every value is a declared variant. -/
  mem_variants : ∀ v, v ∈ variants
  /-- Discriminants are distinct. -/
  toByte_injective : Function.Injective toByte

namespace AlphaCoded

variable {α : Type} [AlphaCoded α]

/-- Decode an on-wire ASCII byte to a variant. -/
def fromByte (b : UInt8) : Except ProtocolError α :=
  match (variants : List α).find? (fun v => toByte v == b) with
  | some v => .ok v
  | none => .error (.invalidEnumCode (field α) b)

@[simp] theorem fromByte_toByte (v : α) : fromByte (toByte v) = .ok v := by
  unfold fromByte
  cases hf : (variants : List α).find? (fun w => toByte w == toByte v) with
  | none =>
      have hv := List.find?_eq_none.mp hf v (mem_variants v)
      simp at hv
  | some w =>
      have hw := List.find?_some hf
      simp only [beq_iff_eq] at hw
      rw [toByte_injective hw]

theorem toByte_of_fromByte {b : UInt8} {v : α} (h : fromByte b = .ok v) : toByte v = b := by
  unfold fromByte at h
  cases hf : (variants : List α).find? (fun w => toByte w == b) with
  | none => rw [hf] at h; cases h
  | some w =>
      rw [hf] at h
      cases h
      simpa using List.find?_some hf

end AlphaCoded

/-! ## System event -/

/-- `S` System Event lifecycle marker. -/
inductive EventCode where
  | startOfMessages | startOfSystemHours | startOfMarketHours
  | endOfMarketHours | endOfSystemHours | endOfMessages
deriving Repr, DecidableEq

instance : AlphaCoded EventCode where
  field := "EventCode"
  variants := [.startOfMessages, .startOfSystemHours, .startOfMarketHours,
    .endOfMarketHours, .endOfSystemHours, .endOfMessages]
  toByte
    | .startOfMessages => 'O'.toUInt8
    | .startOfSystemHours => 'S'.toUInt8
    | .startOfMarketHours => 'Q'.toUInt8
    | .endOfMarketHours => 'M'.toUInt8
    | .endOfSystemHours => 'E'.toUInt8
    | .endOfMessages => 'C'.toUInt8
  mem_variants v := by cases v <;> decide
  toByte_injective v w h := by
    cases v <;> cases w <;> first | rfl | exact absurd h (by decide)

/-! ## Stock directory -/

/-- Listing market category. -/
inductive MarketCategory where
  | nasdaqGlobalSelect | nasdaqGlobalMarket | nasdaqCapitalMarket | nyseMkt | nyse
  | nyseArca | batsZ | iex | unavailable
deriving Repr, DecidableEq

instance : AlphaCoded MarketCategory where
  field := "MarketCategory"
  variants := [.nasdaqGlobalSelect, .nasdaqGlobalMarket, .nasdaqCapitalMarket, .nyseMkt,
    .nyse, .nyseArca, .batsZ, .iex, .unavailable]
  toByte
    | .nasdaqGlobalSelect => 'Q'.toUInt8
    | .nasdaqGlobalMarket => 'G'.toUInt8
    | .nasdaqCapitalMarket => 'S'.toUInt8
    | .nyseMkt => 'A'.toUInt8
    | .nyse => 'N'.toUInt8
    | .nyseArca => 'P'.toUInt8
    | .batsZ => 'Z'.toUInt8
    | .iex => 'V'.toUInt8
    | .unavailable => ' '.toUInt8
  mem_variants v := by cases v <;> decide
  toByte_injective v w h := by
    cases v <;> cases w <;> first | rfl | exact absurd h (by decide)

/-- Financial-status / listing-rule compliance code. -/
inductive FinancialStatus where
  | deficient | delinquent | bankrupt | suspended | deficientAndBankrupt
  | deficientAndDelinquent | delinquentAndBankrupt | deficientDelinquentBankrupt
  | creationsRedemptionsSuspended | normal | unavailable
deriving Repr, DecidableEq

instance : AlphaCoded FinancialStatus where
  field := "FinancialStatus"
  variants := [.deficient, .delinquent, .bankrupt, .suspended, .deficientAndBankrupt,
    .deficientAndDelinquent, .delinquentAndBankrupt, .deficientDelinquentBankrupt,
    .creationsRedemptionsSuspended, .normal, .unavailable]
  toByte
    | .deficient => 'D'.toUInt8
    | .delinquent => 'E'.toUInt8
    | .bankrupt => 'Q'.toUInt8
    | .suspended => 'S'.toUInt8
    | .deficientAndBankrupt => 'G'.toUInt8
    | .deficientAndDelinquent => 'H'.toUInt8
    | .delinquentAndBankrupt => 'J'.toUInt8
    | .deficientDelinquentBankrupt => 'K'.toUInt8
    | .creationsRedemptionsSuspended => 'C'.toUInt8
    | .normal => 'N'.toUInt8
    | .unavailable => ' '.toUInt8
  mem_variants v := by cases v <;> decide
  toByte_injective v w h := by
    cases v <;> cases w <;> first | rfl | exact absurd h (by decide)

/-- Live symbol or NASDAQ test symbol. -/
inductive Authenticity where
  | live | test
deriving Repr, DecidableEq

instance : AlphaCoded Authenticity where
  field := "Authenticity"
  variants := [.live, .test]
  toByte
    | .live => 'P'.toUInt8
    | .test => 'T'.toUInt8
  mem_variants v := by cases v <;> decide
  toByte_injective v w h := by
    cases v <;> cases w <;> first | rfl | exact absurd h (by decide)

/-- Three-state Yes / No / Unavailable. -/
inductive YesNo where
  | yes | no | unavailable
deriving Repr, DecidableEq

instance : AlphaCoded YesNo where
  field := "YesNo"
  variants := [.yes, .no, .unavailable]
  toByte
    | .yes => 'Y'.toUInt8
    | .no => 'N'.toUInt8
    | .unavailable => ' '.toUInt8
  mem_variants v := by cases v <;> decide
  toByte_injective v w h := by
    cases v <;> cases w <;> first | rfl | exact absurd h (by decide)

/-- Limit Up / Limit Down tier. -/
inductive LuldTier where
  | tier1 | tier2 | unavailable
deriving Repr, DecidableEq

instance : AlphaCoded LuldTier where
  field := "LuldTier"
  variants := [.tier1, .tier2, .unavailable]
  toByte
    | .tier1 => '1'.toUInt8
    | .tier2 => '2'.toUInt8
    | .unavailable => ' '.toUInt8
  mem_variants v := by cases v <;> decide
  toByte_injective v w h := by
    cases v <;> cases w <;> first | rfl | exact absurd h (by decide)

/-! ## Trading action, Reg SHO, market participants -/

/-- Per-symbol trading state. -/
inductive TradingState where
  | halted | paused | quotationOnly | trading
deriving Repr, DecidableEq

instance : AlphaCoded TradingState where
  field := "TradingState"
  variants := [.halted, .paused, .quotationOnly, .trading]
  toByte
    | .halted => 'H'.toUInt8
    | .paused => 'P'.toUInt8
    | .quotationOnly => 'Q'.toUInt8
    | .trading => 'T'.toUInt8
  mem_variants v := by cases v <;> decide
  toByte_injective v w h := by
    cases v <;> cases w <;> first | rfl | exact absurd h (by decide)

/-- Reg SHO short-sale price-test action. -/
inductive RegShoAction where
  | noPriceTest | inEffectIntradayDrop | inEffect
deriving Repr, DecidableEq

instance : AlphaCoded RegShoAction where
  field := "RegShoAction"
  variants := [.noPriceTest, .inEffectIntradayDrop, .inEffect]
  toByte
    | .noPriceTest => '0'.toUInt8
    | .inEffectIntradayDrop => '1'.toUInt8
    | .inEffect => '2'.toUInt8
  mem_variants v := by cases v <;> decide
  toByte_injective v w h := by
    cases v <;> cases w <;> first | rfl | exact absurd h (by decide)

/-- Market-maker quoting mode. -/
inductive MarketMakerMode where
  | normal | passive | syndicate | preSyndicate | penalty
deriving Repr, DecidableEq

instance : AlphaCoded MarketMakerMode where
  field := "MarketMakerMode"
  variants := [.normal, .passive, .syndicate, .preSyndicate, .penalty]
  toByte
    | .normal => 'N'.toUInt8
    | .passive => 'P'.toUInt8
    | .syndicate => 'S'.toUInt8
    | .preSyndicate => 'R'.toUInt8
    | .penalty => 'L'.toUInt8
  mem_variants v := by cases v <;> decide
  toByte_injective v w h := by
    cases v <;> cases w <;> first | rfl | exact absurd h (by decide)

/-- Market-participant lifecycle state. -/
inductive MarketParticipantState where
  | active | excusedOrWithdrawn | withdrawn | suspended | deleted
deriving Repr, DecidableEq

instance : AlphaCoded MarketParticipantState where
  field := "MarketParticipantState"
  variants := [.active, .excusedOrWithdrawn, .withdrawn, .suspended, .deleted]
  toByte
    | .active => 'A'.toUInt8
    | .excusedOrWithdrawn => 'E'.toUInt8
    | .withdrawn => 'W'.toUInt8
    | .suspended => 'S'.toUInt8
    | .deleted => 'D'.toUInt8
  mem_variants v := by cases v <;> decide
  toByte_injective v w h := by
    cases v <;> cases w <;> first | rfl | exact absurd h (by decide)

/-! ## Circuit breaker and IPO -/

/-- Market-Wide Circuit Breaker level breached. -/
inductive BreachedLevel where
  | level1 | level2 | level3
deriving Repr, DecidableEq

instance : AlphaCoded BreachedLevel where
  field := "BreachedLevel"
  variants := [.level1, .level2, .level3]
  toByte
    | .level1 => '1'.toUInt8
    | .level2 => '2'.toUInt8
    | .level3 => '3'.toUInt8
  mem_variants v := by cases v <;> decide
  toByte_injective v w h := by
    cases v <;> cases w <;> first | rfl | exact absurd h (by decide)

/-- IPO release qualifier. -/
inductive IpoReleaseQualifier where
  | anticipated | cancelled
deriving Repr, DecidableEq

instance : AlphaCoded IpoReleaseQualifier where
  field := "IpoReleaseQualifier"
  variants := [.anticipated, .cancelled]
  toByte
    | .anticipated => 'A'.toUInt8
    | .cancelled => 'C'.toUInt8
  mem_variants v := by cases v <;> decide
  toByte_injective v w h := by
    cases v <;> cases w <;> first | rfl | exact absurd h (by decide)

/-! ## Orders, crosses and imbalances -/

/-- Buy / sell side. -/
inductive Side where
  | buy | sell
deriving Repr, DecidableEq

instance : AlphaCoded Side where
  field := "Side"
  variants := [.buy, .sell]
  toByte
    | .buy => 'B'.toUInt8
    | .sell => 'S'.toUInt8
  mem_variants v := by cases v <;> decide
  toByte_injective v w h := by
    cases v <;> cases w <;> first | rfl | exact absurd h (by decide)

/-- Whether the execution should appear on the consolidated tape. -/
inductive Printable where
  | nonPrintable | printable
deriving Repr, DecidableEq

instance : AlphaCoded Printable where
  field := "Printable"
  variants := [.nonPrintable, .printable]
  toByte
    | .nonPrintable => 'N'.toUInt8
    | .printable => 'Y'.toUInt8
  mem_variants v := by cases v <;> decide
  toByte_injective v w h := by
    cases v <;> cases w <;> first | rfl | exact absurd h (by decide)

/-- NASDAQ cross type. -/
inductive CrossType where
  | opening | closing | halted | intraday
deriving Repr, DecidableEq

instance : AlphaCoded CrossType where
  field := "CrossType"
  variants := [.opening, .closing, .halted, .intraday]
  toByte
    | .opening => 'O'.toUInt8
    | .closing => 'C'.toUInt8
    | .halted => 'H'.toUInt8
    | .intraday => 'I'.toUInt8
  mem_variants v := by cases v <;> decide
  toByte_injective v w h := by
    cases v <;> cases w <;> first | rfl | exact absurd h (by decide)

/-- Direction of the order imbalance reported by NOII. -/
inductive ImbalanceDirection where
  | buy | sell | noImbalance | insufficientToCalc
deriving Repr, DecidableEq

instance : AlphaCoded ImbalanceDirection where
  field := "ImbalanceDirection"
  variants := [.buy, .sell, .noImbalance, .insufficientToCalc]
  toByte
    | .buy => 'B'.toUInt8
    | .sell => 'S'.toUInt8
    | .noImbalance => 'N'.toUInt8
    | .insufficientToCalc => 'O'.toUInt8
  mem_variants v := by cases v <;> decide
  toByte_injective v w h := by
    cases v <;> cases w <;> first | rfl | exact absurd h (by decide)

/-- NOII price-variation indicator. -/
inductive PriceVariation where
  | lessThan1Percent | pct1To2 | pct2To3 | pct3To4 | pct4To5 | pct5To6 | pct6To7
  | pct7To8 | pct8To9 | pct9To10 | pct10To20 | pct20To30 | pct30OrGreater
  | cannotBeCalculated
deriving Repr, DecidableEq

instance : AlphaCoded PriceVariation where
  field := "PriceVariation"
  variants := [.lessThan1Percent, .pct1To2, .pct2To3, .pct3To4, .pct4To5, .pct5To6,
    .pct6To7, .pct7To8, .pct8To9, .pct9To10, .pct10To20, .pct20To30, .pct30OrGreater,
    .cannotBeCalculated]
  toByte
    | .lessThan1Percent => 'L'.toUInt8
    | .pct1To2 => '1'.toUInt8
    | .pct2To3 => '2'.toUInt8
    | .pct3To4 => '3'.toUInt8
    | .pct4To5 => '4'.toUInt8
    | .pct5To6 => '5'.toUInt8
    | .pct6To7 => '6'.toUInt8
    | .pct7To8 => '7'.toUInt8
    | .pct8To9 => '8'.toUInt8
    | .pct9To10 => '9'.toUInt8
    | .pct10To20 => 'A'.toUInt8
    | .pct20To30 => 'B'.toUInt8
    | .pct30OrGreater => 'C'.toUInt8
    | .cannotBeCalculated => ' '.toUInt8
  mem_variants v := by cases v <;> decide
  toByte_injective v w h := by
    cases v <;> cases w <;> first | rfl | exact absurd h (by decide)

/-- RPII interest-side flag. -/
inductive RpiInterestFlag where
  | buySide | sellSide | bothSides | none
deriving Repr, DecidableEq

instance : AlphaCoded RpiInterestFlag where
  field := "RpiInterestFlag"
  variants := [.buySide, .sellSide, .bothSides, .none]
  toByte
    | .buySide => 'B'.toUInt8
    | .sellSide => 'S'.toUInt8
    | .bothSides => 'A'.toUInt8
    | .none => 'N'.toUInt8
  mem_variants v := by cases v <;> decide
  toByte_injective v w h := by
    cases v <;> cases w <;> first | rfl | exact absurd h (by decide)

end Itch
