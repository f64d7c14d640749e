import Itch.Protocol.Enums

/-!
# ITCH 5.0 messages

The 20 message kinds, each with the common header first, and the top-level `Message`.
The `#[repr(transparent)]` newtypes of the wire are their machine integers; a
`[u8; n]` field is a `Vector UInt8 n`.  A `Timestamp` is the full `u64` it is stored
in: `from_u64` does not check that the value fits the 48 bits of the wire.
-/

namespace Itch

/-- A byte buffer. -/
abbrev Bytes := List UInt8

/-! ## Primitives -/

/-- Daily-assigned per-symbol array index. -/
abbrev StockLocate := UInt16

/-- Opaque NASDAQ-internal id. -/
abbrev TrackingNumber := UInt16

/-- Day-unique identifier of a resting order. -/
abbrev OrderReference := UInt64

/-- Day-unique identifier of an execution. -/
abbrev MatchNumber := UInt64

/-- Quantity in shares. -/
abbrev Shares := UInt32

/-- Nanoseconds since midnight Eastern Time. -/
abbrev Timestamp := UInt64

/-- Fixed-point price with 4 decimal places. -/
abbrev Price4 := UInt32

/-- Fixed-point price with 8 decimal places. -/
abbrev Price8 := UInt64

/-- 8-byte ASCII ticker symbol. -/
abbrev Stock := Vector UInt8 8

/-- 4-byte ASCII broker code. -/
abbrev Mpid := Vector UInt8 4

/-- 10-byte header at the start of every message body. -/
structure Header where
  stockLocate : StockLocate
  trackingNumber : TrackingNumber
  timestamp : Timestamp
deriving Repr, DecidableEq

/-! ## Administrative messages -/

/-- `S` System Event. -/
structure SystemEvent where
  header : Header
  eventCode : EventCode
deriving Repr, DecidableEq

/-- `R` Stock Directory. -/
structure StockDirectory where
  header : Header
  stock : Stock
  marketCategory : MarketCategory
  financialStatus : FinancialStatus
  roundLotSize : Shares
  roundLotsOnly : YesNo
  issueClassification : UInt8
  issueSubtype : Vector UInt8 2
  authenticity : Authenticity
  shortSaleThreshold : YesNo
  ipoFlag : YesNo
  luldReferencePriceTier : LuldTier
  etpFlag : YesNo
  etpLeverageFactor : UInt32
  inverseIndicator : YesNo
deriving Repr, DecidableEq

/-- `H` Stock Trading Action. -/
structure StockTradingAction where
  header : Header
  stock : Stock
  tradingState : TradingState
  reserved : UInt8
  reason : Vector UInt8 4
deriving Repr, DecidableEq

/-- `Y` Reg SHO Short-Sale Price-Test Restriction. -/
structure RegShoRestriction where
  header : Header
  stock : Stock
  regShoAction : RegShoAction
deriving Repr, DecidableEq

/-- `L` Market Participant Position. -/
structure MarketParticipantPosition where
  header : Header
  mpid : Mpid
  stock : Stock
  primaryMarketMaker : YesNo
  marketMakerMode : MarketMakerMode
  marketParticipantState : MarketParticipantState
deriving Repr, DecidableEq

/-- `V` MWCB Decline Level. -/
structure MwcbDeclineLevel where
  header : Header
  level1 : Price8
  level2 : Price8
  level3 : Price8
deriving Repr, DecidableEq

/-- `W` MWCB Status. -/
structure MwcbStatus where
  header : Header
  breachedLevel : BreachedLevel
deriving Repr, DecidableEq

/-- `K` IPO Quoting Period Update. -/
structure IpoQuotingPeriodUpdate where
  header : Header
  stock : Stock
  ipoQuotationReleaseTime : UInt32
  ipoQuotationReleaseQualifier : IpoReleaseQualifier
  ipoPrice : Price4
deriving Repr, DecidableEq

/-! ## Order messages -/

/-- `A` Add Order, no MPID. -/
structure AddOrder where
  header : Header
  orderRef : OrderReference
  side : Side
  shares : Shares
  stock : Stock
  price : Price4
deriving Repr, DecidableEq

/-- `F` Add Order, with MPID. -/
structure AddOrderWithMpid where
  header : Header
  orderRef : OrderReference
  side : Side
  shares : Shares
  stock : Stock
  price : Price4
  attribution : Mpid
deriving Repr, DecidableEq

/-- `E` Order Executed. -/
structure OrderExecuted where
  header : Header
  orderRef : OrderReference
  executedShares : Shares
  matchNumber : MatchNumber
deriving Repr, DecidableEq

/-- `C` Order Executed With Price. -/
structure OrderExecutedWithPrice where
  header : Header
  orderRef : OrderReference
  executedShares : Shares
  matchNumber : MatchNumber
  printable : Printable
  executionPrice : Price4
deriving Repr, DecidableEq

/-- `X` Order Cancel. -/
structure OrderCancel where
  header : Header
  orderRef : OrderReference
  cancelledShares : Shares
deriving Repr, DecidableEq

/-- `D` Order Delete. -/
structure OrderDelete where
  header : Header
  orderRef : OrderReference
deriving Repr, DecidableEq

/-- `U` Order Replace. -/
structure OrderReplace where
  header : Header
  originalOrderRef : OrderReference
  newOrderRef : OrderReference
  shares : Shares
  price : Price4
deriving Repr, DecidableEq

/-! ## Trades and auctions -/

/-- `P` Trade (Non-Cross). -/
structure TradeNonCross where
  header : Header
  orderRef : OrderReference
  side : Side
  shares : Shares
  stock : Stock
  price : Price4
  matchNumber : MatchNumber
deriving Repr, DecidableEq

/-- `Q` Cross Trade. -/
structure CrossTrade where
  header : Header
  shares : UInt64
  stock : Stock
  crossPrice : Price4
  matchNumber : MatchNumber
  crossType : CrossType
deriving Repr, DecidableEq

/-- `B` Broken Trade. -/
structure BrokenTrade where
  header : Header
  matchNumber : MatchNumber
deriving Repr, DecidableEq

/-- `I` Net Order Imbalance Indicator. -/
structure Noii where
  header : Header
  pairedShares : UInt64
  imbalanceShares : UInt64
  imbalanceDirection : ImbalanceDirection
  stock : Stock
  farPrice : Price4
  nearPrice : Price4
  currentReferencePrice : Price4
  crossType : CrossType
  priceVariation : PriceVariation
deriving Repr, DecidableEq

/-- `N` Retail Price Improvement Indicator. -/
structure RetailPriceImprovement where
  header : Header
  stock : Stock
  interestFlag : RpiInterestFlag
deriving Repr, DecidableEq

/-! ## The message enum -/

/-- One constructor per message kind. -/
inductive Message where
  | systemEvent (m : SystemEvent)
  | stockDirectory (m : StockDirectory)
  | stockTradingAction (m : StockTradingAction)
  | regShoRestriction (m : RegShoRestriction)
  | marketParticipantPosition (m : MarketParticipantPosition)
  | mwcbDeclineLevel (m : MwcbDeclineLevel)
  | mwcbStatus (m : MwcbStatus)
  | ipoQuotingPeriodUpdate (m : IpoQuotingPeriodUpdate)
  | addOrder (m : AddOrder)
  | addOrderWithMpid (m : AddOrderWithMpid)
  | orderExecuted (m : OrderExecuted)
  | orderExecutedWithPrice (m : OrderExecutedWithPrice)
  | orderCancel (m : OrderCancel)
  | orderDelete (m : OrderDelete)
  | orderReplace (m : OrderReplace)
  | tradeNonCross (m : TradeNonCross)
  | crossTrade (m : CrossTrade)
  | brokenTrade (m : BrokenTrade)
  | noii (m : Noii)
  | retailPriceImprovement (m : RetailPriceImprovement)
deriving Repr, DecidableEq

namespace Message

/-- One-byte ASCII tag identifying the message kind on the wire. -/
def tag : Message → UInt8
  | systemEvent _ => 'S'.toUInt8
  | stockDirectory _ => 'R'.toUInt8
  | stockTradingAction _ => 'H'.toUInt8
  | regShoRestriction _ => 'Y'.toUInt8
  | marketParticipantPosition _ => 'L'.toUInt8
  | mwcbDeclineLevel _ => 'V'.toUInt8
  | mwcbStatus _ => 'W'.toUInt8
  | ipoQuotingPeriodUpdate _ => 'K'.toUInt8
  | addOrder _ => 'A'.toUInt8
  | addOrderWithMpid _ => 'F'.toUInt8
  | orderExecuted _ => 'E'.toUInt8
  | orderExecutedWithPrice _ => 'C'.toUInt8
  | orderCancel _ => 'X'.toUInt8
  | orderDelete _ => 'D'.toUInt8
  | orderReplace _ => 'U'.toUInt8
  | tradeNonCross _ => 'P'.toUInt8
  | crossTrade _ => 'Q'.toUInt8
  | brokenTrade _ => 'B'.toUInt8
  | noii _ => 'I'.toUInt8
  | retailPriceImprovement _ => 'N'.toUInt8

/-- The common header. -/
def header : Message → Header
  | systemEvent m => m.header
  | stockDirectory m => m.header
  | stockTradingAction m => m.header
  | regShoRestriction m => m.header
  | marketParticipantPosition m => m.header
  | mwcbDeclineLevel m => m.header
  | mwcbStatus m => m.header
  | ipoQuotingPeriodUpdate m => m.header
  | addOrder m => m.header
  | addOrderWithMpid m => m.header
  | orderExecuted m => m.header
  | orderExecutedWithPrice m => m.header
  | orderCancel m => m.header
  | orderDelete m => m.header
  | orderReplace m => m.header
  | tradeNonCross m => m.header
  | crossTrade m => m.header
  | brokenTrade m => m.header
  | noii m => m.header
  | retailPriceImprovement m => m.header

/-- The timestamp fits the six bytes it has on the wire. -/
def FitsWire (m : Message) : Prop :=
  m.header.timestamp.toNat < 2 ^ 48

instance (m : Message) : Decidable m.FitsWire :=
  inferInstanceAs (Decidable (_ < _))

end Message

end Itch
