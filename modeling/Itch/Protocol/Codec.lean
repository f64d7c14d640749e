import Itch.Lib.BigEndian
import Itch.Lib.Buffer
import Itch.Protocol.Messages

/-!
# Big-endian message codec

`Encode` writes and `Decode` reads the message body, everything after the one-byte
tag.  `Message.encode` and `Message.decode` add and consume the tag.  A mutable slice
is passed in and returned.  Offsets are constants far below `usize::MAX`, so the
overflow branch of the `checked_add` in `slice_n` and `slice_n_mut` is never taken
and has no counterpart here.
-/

namespace Itch

open Lib

/-! ## Byte helpers -/

/-- Refuse to decode from a buffer shorter than `n`. -/
def need (buf : Bytes) (n : Nat) : Except ProtocolError Unit :=
  if buf.length < n then .error (.truncated n buf.length) else .ok ()

/-- Borrow `[off, off + n)` of `buf`. -/
def sliceN (buf : Bytes) (off n : Nat) : Except ProtocolError Bytes :=
  match getRange buf off n with
  | some s => .ok s
  | none => .error (.truncated (off + n) buf.length)

/-- Mutably borrow `[off, off + n)` of `buf`. -/
def sliceNMut (buf : Bytes) (off n : Nat) : Except ProtocolError Bytes :=
  match getRange buf off n with
  | some s => .ok s
  | none => .error (.bufferTooSmall (off + n) buf.length)

def readU8 (buf : Bytes) (off : Nat) : Except ProtocolError UInt8 := do
  let s ← sliceN buf off 1
  return UInt8.ofNat (ofBE s)

def readU16 (buf : Bytes) (off : Nat) : Except ProtocolError UInt16 := do
  let s ← sliceN buf off 2
  return UInt16.ofNat (ofBE s)

def readU32 (buf : Bytes) (off : Nat) : Except ProtocolError UInt32 := do
  let s ← sliceN buf off 4
  return UInt32.ofNat (ofBE s)

def readU64 (buf : Bytes) (off : Nat) : Except ProtocolError UInt64 := do
  let s ← sliceN buf off 8
  return UInt64.ofNat (ofBE s)

/-- Six bytes, widened by two high zero bytes. -/
def readU48 (buf : Bytes) (off : Nat) : Except ProtocolError UInt64 := do
  let s ← sliceN buf off 6
  return UInt64.ofNat (ofBE (0 :: 0 :: s))

def readBytesN (n : Nat) (buf : Bytes) (off : Nat) : Except ProtocolError (Vector UInt8 n) := do
  let s ← sliceN buf off n
  return Vector.ofFn fun i => s.getD i 0

/-- Overwrite the bytes from `off` on with `src`. -/
def writeBytes (buf : Bytes) (off : Nat) (src : Bytes) : Except ProtocolError Bytes :=
  match setRange buf off src with
  | some buf => .ok buf
  | none => .error (.bufferTooSmall (off + src.length) buf.length)

@[simp] def writeU8 (buf : Bytes) (off : Nat) (v : UInt8) : Except ProtocolError Bytes :=
  writeBytes buf off [v]

@[simp] def writeU16 (buf : Bytes) (off : Nat) (v : UInt16) : Except ProtocolError Bytes :=
  writeBytes buf off (toBE 2 v.toNat)

@[simp] def writeU32 (buf : Bytes) (off : Nat) (v : UInt32) : Except ProtocolError Bytes :=
  writeBytes buf off (toBE 4 v.toNat)

@[simp] def writeU64 (buf : Bytes) (off : Nat) (v : UInt64) : Except ProtocolError Bytes :=
  writeBytes buf off (toBE 8 v.toNat)

/-- The low six bytes of `v`. -/
@[simp] def writeU48 (buf : Bytes) (off : Nat) (v : UInt64) : Except ProtocolError Bytes :=
  writeBytes buf off ((toBE 8 v.toNat).drop 2)

namespace Header

/-- Decode a header from the start of `buf`. -/
def decodeAt (buf : Bytes) : Except ProtocolError Header := do
  return {
    stockLocate := ← readU16 buf 0
    trackingNumber := ← readU16 buf 2
    timestamp := ← readU48 buf 4 }

/-- Encode a header at the start of `buf`. -/
def encodeAt (h : Header) (buf : Bytes) : Except ProtocolError Bytes := do
  let buf ← writeU16 buf 0 h.stockLocate
  let buf ← writeU16 buf 2 h.trackingNumber
  writeU48 buf 4 h.timestamp

end Header

/-! ## Per-message codecs -/

/-- Encode a value into the message body. -/
class Encode (α : Type) where
  /-- Body size in bytes. -/
  bodyLen : Nat
  /-- Write the body into `buf`. -/
  encodeBody : α → Bytes → Except ProtocolError Bytes

/-- Decode the message body. -/
class Decode (α : Type) where
  /-- Read a body from `buf`. -/
  decodeBody : Bytes → Except ProtocolError α

open AlphaCoded (toByte fromByte)

instance : Encode SystemEvent where
  bodyLen := 11
  encodeBody m buf := do
    let _ ← sliceNMut buf 0 11
    let buf ← m.header.encodeAt buf
    writeU8 buf 10 (toByte m.eventCode)

instance : Decode SystemEvent where
  decodeBody buf := do
    need buf 11
    return {
      header := ← Header.decodeAt buf
      eventCode := ← fromByte (← readU8 buf 10) }

instance : Encode StockDirectory where
  bodyLen := 38
  encodeBody m buf := do
    let _ ← sliceNMut buf 0 38
    let buf ← m.header.encodeAt buf
    let buf ← writeBytes buf 10 m.stock.toList
    let buf ← writeU8 buf 18 (toByte m.marketCategory)
    let buf ← writeU8 buf 19 (toByte m.financialStatus)
    let buf ← writeU32 buf 20 m.roundLotSize
    let buf ← writeU8 buf 24 (toByte m.roundLotsOnly)
    let buf ← writeU8 buf 25 m.issueClassification
    let buf ← writeBytes buf 26 m.issueSubtype.toList
    let buf ← writeU8 buf 28 (toByte m.authenticity)
    let buf ← writeU8 buf 29 (toByte m.shortSaleThreshold)
    let buf ← writeU8 buf 30 (toByte m.ipoFlag)
    let buf ← writeU8 buf 31 (toByte m.luldReferencePriceTier)
    let buf ← writeU8 buf 32 (toByte m.etpFlag)
    let buf ← writeU32 buf 33 m.etpLeverageFactor
    writeU8 buf 37 (toByte m.inverseIndicator)

instance : Decode StockDirectory where
  decodeBody buf := do
    need buf 38
    return {
      header := ← Header.decodeAt buf
      stock := ← readBytesN 8 buf 10
      marketCategory := ← fromByte (← readU8 buf 18)
      financialStatus := ← fromByte (← readU8 buf 19)
      roundLotSize := ← readU32 buf 20
      roundLotsOnly := ← fromByte (← readU8 buf 24)
      issueClassification := ← readU8 buf 25
      issueSubtype := ← readBytesN 2 buf 26
      authenticity := ← fromByte (← readU8 buf 28)
      shortSaleThreshold := ← fromByte (← readU8 buf 29)
      ipoFlag := ← fromByte (← readU8 buf 30)
      luldReferencePriceTier := ← fromByte (← readU8 buf 31)
      etpFlag := ← fromByte (← readU8 buf 32)
      etpLeverageFactor := ← readU32 buf 33
      inverseIndicator := ← fromByte (← readU8 buf 37) }

instance : Encode StockTradingAction where
  bodyLen := 24
  encodeBody m buf := do
    let _ ← sliceNMut buf 0 24
    let buf ← m.header.encodeAt buf
    let buf ← writeBytes buf 10 m.stock.toList
    let buf ← writeU8 buf 18 (toByte m.tradingState)
    let buf ← writeU8 buf 19 m.reserved
    writeBytes buf 20 m.reason.toList

instance : Decode StockTradingAction where
  decodeBody buf := do
    need buf 24
    return {
      header := ← Header.decodeAt buf
      stock := ← readBytesN 8 buf 10
      tradingState := ← fromByte (← readU8 buf 18)
      reserved := ← readU8 buf 19
      reason := ← readBytesN 4 buf 20 }

instance : Encode RegShoRestriction where
  bodyLen := 19
  encodeBody m buf := do
    let _ ← sliceNMut buf 0 19
    let buf ← m.header.encodeAt buf
    let buf ← writeBytes buf 10 m.stock.toList
    writeU8 buf 18 (toByte m.regShoAction)

instance : Decode RegShoRestriction where
  decodeBody buf := do
    need buf 19
    return {
      header := ← Header.decodeAt buf
      stock := ← readBytesN 8 buf 10
      regShoAction := ← fromByte (← readU8 buf 18) }

instance : Encode MarketParticipantPosition where
  bodyLen := 25
  encodeBody m buf := do
    let _ ← sliceNMut buf 0 25
    let buf ← m.header.encodeAt buf
    let buf ← writeBytes buf 10 m.mpid.toList
    let buf ← writeBytes buf 14 m.stock.toList
    let buf ← writeU8 buf 22 (toByte m.primaryMarketMaker)
    let buf ← writeU8 buf 23 (toByte m.marketMakerMode)
    writeU8 buf 24 (toByte m.marketParticipantState)

instance : Decode MarketParticipantPosition where
  decodeBody buf := do
    need buf 25
    return {
      header := ← Header.decodeAt buf
      mpid := ← readBytesN 4 buf 10
      stock := ← readBytesN 8 buf 14
      primaryMarketMaker := ← fromByte (← readU8 buf 22)
      marketMakerMode := ← fromByte (← readU8 buf 23)
      marketParticipantState := ← fromByte (← readU8 buf 24) }

instance : Encode MwcbDeclineLevel where
  bodyLen := 34
  encodeBody m buf := do
    let _ ← sliceNMut buf 0 34
    let buf ← m.header.encodeAt buf
    let buf ← writeU64 buf 10 m.level1
    let buf ← writeU64 buf 18 m.level2
    writeU64 buf 26 m.level3

instance : Decode MwcbDeclineLevel where
  decodeBody buf := do
    need buf 34
    return {
      header := ← Header.decodeAt buf
      level1 := ← readU64 buf 10
      level2 := ← readU64 buf 18
      level3 := ← readU64 buf 26 }

instance : Encode MwcbStatus where
  bodyLen := 11
  encodeBody m buf := do
    let _ ← sliceNMut buf 0 11
    let buf ← m.header.encodeAt buf
    writeU8 buf 10 (toByte m.breachedLevel)

instance : Decode MwcbStatus where
  decodeBody buf := do
    need buf 11
    return {
      header := ← Header.decodeAt buf
      breachedLevel := ← fromByte (← readU8 buf 10) }

instance : Encode IpoQuotingPeriodUpdate where
  bodyLen := 27
  encodeBody m buf := do
    let _ ← sliceNMut buf 0 27
    let buf ← m.header.encodeAt buf
    let buf ← writeBytes buf 10 m.stock.toList
    let buf ← writeU32 buf 18 m.ipoQuotationReleaseTime
    let buf ← writeU8 buf 22 (toByte m.ipoQuotationReleaseQualifier)
    writeU32 buf 23 m.ipoPrice

instance : Decode IpoQuotingPeriodUpdate where
  decodeBody buf := do
    need buf 27
    return {
      header := ← Header.decodeAt buf
      stock := ← readBytesN 8 buf 10
      ipoQuotationReleaseTime := ← readU32 buf 18
      ipoQuotationReleaseQualifier := ← fromByte (← readU8 buf 22)
      ipoPrice := ← readU32 buf 23 }

instance : Encode AddOrder where
  bodyLen := 35
  encodeBody m buf := do
    let _ ← sliceNMut buf 0 35
    let buf ← m.header.encodeAt buf
    let buf ← writeU64 buf 10 m.orderRef
    let buf ← writeU8 buf 18 (toByte m.side)
    let buf ← writeU32 buf 19 m.shares
    let buf ← writeBytes buf 23 m.stock.toList
    writeU32 buf 31 m.price

instance : Decode AddOrder where
  decodeBody buf := do
    need buf 35
    return {
      header := ← Header.decodeAt buf
      orderRef := ← readU64 buf 10
      side := ← fromByte (← readU8 buf 18)
      shares := ← readU32 buf 19
      stock := ← readBytesN 8 buf 23
      price := ← readU32 buf 31 }

instance : Encode AddOrderWithMpid where
  bodyLen := 39
  encodeBody m buf := do
    let _ ← sliceNMut buf 0 39
    let buf ← m.header.encodeAt buf
    let buf ← writeU64 buf 10 m.orderRef
    let buf ← writeU8 buf 18 (toByte m.side)
    let buf ← writeU32 buf 19 m.shares
    let buf ← writeBytes buf 23 m.stock.toList
    let buf ← writeU32 buf 31 m.price
    writeBytes buf 35 m.attribution.toList

instance : Decode AddOrderWithMpid where
  decodeBody buf := do
    need buf 39
    return {
      header := ← Header.decodeAt buf
      orderRef := ← readU64 buf 10
      side := ← fromByte (← readU8 buf 18)
      shares := ← readU32 buf 19
      stock := ← readBytesN 8 buf 23
      price := ← readU32 buf 31
      attribution := ← readBytesN 4 buf 35 }

instance : Encode OrderExecuted where
  bodyLen := 30
  encodeBody m buf := do
    let _ ← sliceNMut buf 0 30
    let buf ← m.header.encodeAt buf
    let buf ← writeU64 buf 10 m.orderRef
    let buf ← writeU32 buf 18 m.executedShares
    writeU64 buf 22 m.matchNumber

instance : Decode OrderExecuted where
  decodeBody buf := do
    need buf 30
    return {
      header := ← Header.decodeAt buf
      orderRef := ← readU64 buf 10
      executedShares := ← readU32 buf 18
      matchNumber := ← readU64 buf 22 }

instance : Encode OrderExecutedWithPrice where
  bodyLen := 35
  encodeBody m buf := do
    let _ ← sliceNMut buf 0 35
    let buf ← m.header.encodeAt buf
    let buf ← writeU64 buf 10 m.orderRef
    let buf ← writeU32 buf 18 m.executedShares
    let buf ← writeU64 buf 22 m.matchNumber
    let buf ← writeU8 buf 30 (toByte m.printable)
    writeU32 buf 31 m.executionPrice

instance : Decode OrderExecutedWithPrice where
  decodeBody buf := do
    need buf 35
    return {
      header := ← Header.decodeAt buf
      orderRef := ← readU64 buf 10
      executedShares := ← readU32 buf 18
      matchNumber := ← readU64 buf 22
      printable := ← fromByte (← readU8 buf 30)
      executionPrice := ← readU32 buf 31 }

instance : Encode OrderCancel where
  bodyLen := 22
  encodeBody m buf := do
    let _ ← sliceNMut buf 0 22
    let buf ← m.header.encodeAt buf
    let buf ← writeU64 buf 10 m.orderRef
    writeU32 buf 18 m.cancelledShares

instance : Decode OrderCancel where
  decodeBody buf := do
    need buf 22
    return {
      header := ← Header.decodeAt buf
      orderRef := ← readU64 buf 10
      cancelledShares := ← readU32 buf 18 }

instance : Encode OrderDelete where
  bodyLen := 18
  encodeBody m buf := do
    let _ ← sliceNMut buf 0 18
    let buf ← m.header.encodeAt buf
    writeU64 buf 10 m.orderRef

instance : Decode OrderDelete where
  decodeBody buf := do
    need buf 18
    return {
      header := ← Header.decodeAt buf
      orderRef := ← readU64 buf 10 }

instance : Encode OrderReplace where
  bodyLen := 34
  encodeBody m buf := do
    let _ ← sliceNMut buf 0 34
    let buf ← m.header.encodeAt buf
    let buf ← writeU64 buf 10 m.originalOrderRef
    let buf ← writeU64 buf 18 m.newOrderRef
    let buf ← writeU32 buf 26 m.shares
    writeU32 buf 30 m.price

instance : Decode OrderReplace where
  decodeBody buf := do
    need buf 34
    return {
      header := ← Header.decodeAt buf
      originalOrderRef := ← readU64 buf 10
      newOrderRef := ← readU64 buf 18
      shares := ← readU32 buf 26
      price := ← readU32 buf 30 }

instance : Encode TradeNonCross where
  bodyLen := 43
  encodeBody m buf := do
    let _ ← sliceNMut buf 0 43
    let buf ← m.header.encodeAt buf
    let buf ← writeU64 buf 10 m.orderRef
    let buf ← writeU8 buf 18 (toByte m.side)
    let buf ← writeU32 buf 19 m.shares
    let buf ← writeBytes buf 23 m.stock.toList
    let buf ← writeU32 buf 31 m.price
    writeU64 buf 35 m.matchNumber

instance : Decode TradeNonCross where
  decodeBody buf := do
    need buf 43
    return {
      header := ← Header.decodeAt buf
      orderRef := ← readU64 buf 10
      side := ← fromByte (← readU8 buf 18)
      shares := ← readU32 buf 19
      stock := ← readBytesN 8 buf 23
      price := ← readU32 buf 31
      matchNumber := ← readU64 buf 35 }

instance : Encode CrossTrade where
  bodyLen := 39
  encodeBody m buf := do
    let _ ← sliceNMut buf 0 39
    let buf ← m.header.encodeAt buf
    let buf ← writeU64 buf 10 m.shares
    let buf ← writeBytes buf 18 m.stock.toList
    let buf ← writeU32 buf 26 m.crossPrice
    let buf ← writeU64 buf 30 m.matchNumber
    writeU8 buf 38 (toByte m.crossType)

instance : Decode CrossTrade where
  decodeBody buf := do
    need buf 39
    return {
      header := ← Header.decodeAt buf
      shares := ← readU64 buf 10
      stock := ← readBytesN 8 buf 18
      crossPrice := ← readU32 buf 26
      matchNumber := ← readU64 buf 30
      crossType := ← fromByte (← readU8 buf 38) }

instance : Encode BrokenTrade where
  bodyLen := 18
  encodeBody m buf := do
    let _ ← sliceNMut buf 0 18
    let buf ← m.header.encodeAt buf
    writeU64 buf 10 m.matchNumber

instance : Decode BrokenTrade where
  decodeBody buf := do
    need buf 18
    return {
      header := ← Header.decodeAt buf
      matchNumber := ← readU64 buf 10 }

instance : Encode Noii where
  bodyLen := 49
  encodeBody m buf := do
    let _ ← sliceNMut buf 0 49
    let buf ← m.header.encodeAt buf
    let buf ← writeU64 buf 10 m.pairedShares
    let buf ← writeU64 buf 18 m.imbalanceShares
    let buf ← writeU8 buf 26 (toByte m.imbalanceDirection)
    let buf ← writeBytes buf 27 m.stock.toList
    let buf ← writeU32 buf 35 m.farPrice
    let buf ← writeU32 buf 39 m.nearPrice
    let buf ← writeU32 buf 43 m.currentReferencePrice
    let buf ← writeU8 buf 47 (toByte m.crossType)
    writeU8 buf 48 (toByte m.priceVariation)

instance : Decode Noii where
  decodeBody buf := do
    need buf 49
    return {
      header := ← Header.decodeAt buf
      pairedShares := ← readU64 buf 10
      imbalanceShares := ← readU64 buf 18
      imbalanceDirection := ← fromByte (← readU8 buf 26)
      stock := ← readBytesN 8 buf 27
      farPrice := ← readU32 buf 35
      nearPrice := ← readU32 buf 39
      currentReferencePrice := ← readU32 buf 43
      crossType := ← fromByte (← readU8 buf 47)
      priceVariation := ← fromByte (← readU8 buf 48) }

instance : Encode RetailPriceImprovement where
  bodyLen := 19
  encodeBody m buf := do
    let _ ← sliceNMut buf 0 19
    let buf ← m.header.encodeAt buf
    let buf ← writeBytes buf 10 m.stock.toList
    writeU8 buf 18 (toByte m.interestFlag)

instance : Decode RetailPriceImprovement where
  decodeBody buf := do
    need buf 19
    return {
      header := ← Header.decodeAt buf
      stock := ← readBytesN 8 buf 10
      interestFlag := ← fromByte (← readU8 buf 18) }

/-! ## Message codec -/

namespace Message

open Encode (encodeBody)
open Decode (decodeBody)

/-- Body size in bytes. -/
def bodyLen : Message → Nat
  | systemEvent _ => Encode.bodyLen SystemEvent
  | stockDirectory _ => Encode.bodyLen StockDirectory
  | stockTradingAction _ => Encode.bodyLen StockTradingAction
  | regShoRestriction _ => Encode.bodyLen RegShoRestriction
  | marketParticipantPosition _ => Encode.bodyLen MarketParticipantPosition
  | mwcbDeclineLevel _ => Encode.bodyLen MwcbDeclineLevel
  | mwcbStatus _ => Encode.bodyLen MwcbStatus
  | ipoQuotingPeriodUpdate _ => Encode.bodyLen IpoQuotingPeriodUpdate
  | addOrder _ => Encode.bodyLen AddOrder
  | addOrderWithMpid _ => Encode.bodyLen AddOrderWithMpid
  | orderExecuted _ => Encode.bodyLen OrderExecuted
  | orderExecutedWithPrice _ => Encode.bodyLen OrderExecutedWithPrice
  | orderCancel _ => Encode.bodyLen OrderCancel
  | orderDelete _ => Encode.bodyLen OrderDelete
  | orderReplace _ => Encode.bodyLen OrderReplace
  | tradeNonCross _ => Encode.bodyLen TradeNonCross
  | crossTrade _ => Encode.bodyLen CrossTrade
  | brokenTrade _ => Encode.bodyLen BrokenTrade
  | noii _ => Encode.bodyLen Noii
  | retailPriceImprovement _ => Encode.bodyLen RetailPriceImprovement

/-- Total wire size in bytes. -/
def encodedLen (m : Message) : Nat :=
  1 + m.bodyLen

/-- The dispatch of `encode` to the codec of the kind. -/
def encodeKind (body : Bytes) : Message → Except ProtocolError Bytes
  | systemEvent m => encodeBody m body
  | stockDirectory m => encodeBody m body
  | stockTradingAction m => encodeBody m body
  | regShoRestriction m => encodeBody m body
  | marketParticipantPosition m => encodeBody m body
  | mwcbDeclineLevel m => encodeBody m body
  | mwcbStatus m => encodeBody m body
  | ipoQuotingPeriodUpdate m => encodeBody m body
  | addOrder m => encodeBody m body
  | addOrderWithMpid m => encodeBody m body
  | orderExecuted m => encodeBody m body
  | orderExecutedWithPrice m => encodeBody m body
  | orderCancel m => encodeBody m body
  | orderDelete m => encodeBody m body
  | orderReplace m => encodeBody m body
  | tradeNonCross m => encodeBody m body
  | crossTrade m => encodeBody m body
  | brokenTrade m => encodeBody m body
  | noii m => encodeBody m body
  | retailPriceImprovement m => encodeBody m body

/-- Encode into `buf`, tag first.  Returns the number of bytes written and the
buffer. -/
def encode (m : Message) (buf : Bytes) : Except ProtocolError (Nat × Bytes) := do
  let total := m.encodedLen
  let out ← sliceNMut buf 0 total
  let body ← m.encodeKind (out.drop 1)
  return (total, m.tag :: body ++ buf.drop total)

/-- The dispatch of `decode` on the tag. -/
def decodeKind (tag : UInt8) (body : Bytes) : Except ProtocolError Message :=
  match Char.ofUInt8 tag with
  | 'S' => systemEvent <$> decodeBody body
  | 'R' => stockDirectory <$> decodeBody body
  | 'H' => stockTradingAction <$> decodeBody body
  | 'Y' => regShoRestriction <$> decodeBody body
  | 'L' => marketParticipantPosition <$> decodeBody body
  | 'V' => mwcbDeclineLevel <$> decodeBody body
  | 'W' => mwcbStatus <$> decodeBody body
  | 'K' => ipoQuotingPeriodUpdate <$> decodeBody body
  | 'A' => addOrder <$> decodeBody body
  | 'F' => addOrderWithMpid <$> decodeBody body
  | 'E' => orderExecuted <$> decodeBody body
  | 'C' => orderExecutedWithPrice <$> decodeBody body
  | 'X' => orderCancel <$> decodeBody body
  | 'D' => orderDelete <$> decodeBody body
  | 'U' => orderReplace <$> decodeBody body
  | 'P' => tradeNonCross <$> decodeBody body
  | 'Q' => crossTrade <$> decodeBody body
  | 'B' => brokenTrade <$> decodeBody body
  | 'I' => noii <$> decodeBody body
  | 'N' => retailPriceImprovement <$> decodeBody body
  | _ => .error (.unknownMessageType tag)

/-- Decode the message at the start of `buf`. -/
def decode : Bytes → Except ProtocolError Message
  | [] => .error (.truncated 1 0)
  | tag :: body => decodeKind tag body

end Message

end Itch
