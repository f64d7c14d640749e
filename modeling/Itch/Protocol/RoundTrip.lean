import Itch.Lib.Except
import Itch.Protocol.Codec

/-!
# The message codec is an exact inverse

Each kind has a wire image, the concatenation of its fields.  `LawfulBody` says that
`encode_body` writes exactly the image and that `decode_body` accepts exactly the
buffers that start with an image.  The laws of one kind follow from the specification of the
byte helpers, so an instance only lays out the fields.  The two directions of the
message codec are then read off the image.
-/

namespace Itch

open Lib
open AlphaCoded (toByte fromByte fromByte_toByte toByte_of_fromByte)

/-! ## Byte helpers -/

@[simp] theorem fromByte_eq_ok {α : Type} [AlphaCoded α] {b : UInt8} {v : α} :
    fromByte b = .ok v ↔ b = toByte v :=
  ⟨fun h => (toByte_of_fromByte h).symm, fun h => h ▸ fromByte_toByte v⟩

@[simp] theorem need_eq_ok {buf : Bytes} {n : Nat} {u : Unit} :
    need buf n = .ok u ↔ n ≤ buf.length := by
  unfold need
  split
  next h => simpa using h
  next h => simpa using h

theorem sliceN_eq_ok {buf s : Bytes} {off n : Nat} (hn : 0 < n) :
    sliceN buf off n = .ok s ↔ HasAt buf off s ∧ s.length = n := by
  unfold sliceN
  rw [← getRange_eq_some hn]
  cases getRange buf off n with
  | none => simp
  | some x => simp

/-- A reader that inverts `enc` on slices of the right width returns the value whose
encoding stands at the offset. -/
theorem sliceN_bind_eq_ok {α : Type} {buf : Bytes} {off n : Nat} {dec : Bytes → α} {v : α}
    (enc : α → Bytes) (hn : 0 < n) (henc : (enc v).length = n)
    (hdec : ∀ s : Bytes, s.length = n → (dec s = v ↔ s = enc v)) :
    (sliceN buf off n >>= fun s => pure (dec s)) = .ok v ↔ HasAt buf off (enc v) := by
  simp only [bind_eq_ok, sliceN_eq_ok hn, pure_eq_ok, Except.ok.injEq]
  constructor
  · rintro ⟨s, ⟨hs, hlen⟩, hv⟩
    rwa [← (hdec s hlen).mp hv]
  · intro h
    exact ⟨enc v, ⟨h, henc⟩, (hdec _ henc).mpr rfl⟩

@[simp] theorem readU8_eq_ok {buf : Bytes} {off : Nat} {v : UInt8} :
    readU8 buf off = .ok v ↔ HasAt buf off [v] := by
  refine sliceN_bind_eq_ok (fun v => [v]) Nat.one_pos rfl fun s hs => ?_
  obtain ⟨b, rfl⟩ := List.length_eq_one_iff.mp hs
  simp [ofBE_cons]

@[simp] theorem readU16_eq_ok {buf : Bytes} {off : Nat} {v : UInt16} :
    readU16 buf off = .ok v ↔ HasAt buf off (toBE 2 v.toNat) :=
  sliceN_bind_eq_ok (fun v : UInt16 => toBE 2 v.toNat) (by decide) (toBE_length 2 _)
    fun _ => u16_ofBE_iff

@[simp] theorem readU32_eq_ok {buf : Bytes} {off : Nat} {v : UInt32} :
    readU32 buf off = .ok v ↔ HasAt buf off (toBE 4 v.toNat) :=
  sliceN_bind_eq_ok (fun v : UInt32 => toBE 4 v.toNat) (by decide) (toBE_length 4 _)
    fun _ => u32_ofBE_iff

@[simp] theorem readU64_eq_ok {buf : Bytes} {off : Nat} {v : UInt64} :
    readU64 buf off = .ok v ↔ HasAt buf off (toBE 8 v.toNat) :=
  sliceN_bind_eq_ok (fun v : UInt64 => toBE 8 v.toNat) (by decide) (toBE_length 8 _)
    fun _ => u64_ofBE_iff

/-- Only values of 48 bits are ever read. -/
@[simp] theorem readU48_eq_ok {buf : Bytes} {off : Nat} {v : UInt64} :
    readU48 buf off = .ok v ↔ v.toNat < 2 ^ 48 ∧ HasAt buf off (toBE 6 v.toNat) := by
  simp only [readU48, bind_eq_ok, sliceN_eq_ok (show 0 < 6 by decide), pure_eq_ok,
    Except.ok.injEq, ofBE_zero_cons]
  constructor
  · rintro ⟨s, ⟨hs, hlen⟩, rfl⟩
    have hlt : ofBE s < 2 ^ 48 := ofBE_lt_of_length hlen
    rw [UInt64.toNat_ofNat_of_lt' (hlt.trans (by decide)), toBE_ofBE_of_length hlen]
    exact ⟨hlt, hs⟩
  · rintro ⟨hlt, hs⟩
    refine ⟨_, ⟨hs, toBE_length 6 _⟩, ?_⟩
    rw [ofBE_toBE_of_lt hlt, UInt64.ofNat_toNat]

@[simp] theorem readBytesN_eq_ok {n : Nat} [NeZero n] {buf : Bytes} {off : Nat}
    {v : Vector UInt8 n} : readBytesN n buf off = .ok v ↔ HasAt buf off v.toList :=
  sliceN_bind_eq_ok Vector.toList (NeZero.pos n) v.length_toList fun _ => ofFn_getD_eq_iff

theorem sliceNMut_zero {buf : Bytes} {n : Nat} (h : n ≤ buf.length) :
    sliceNMut buf 0 n = .ok (buf.take n) := by
  unfold sliceNMut
  rw [getRange_zero h]

/-- A write that continues the finished part of a buffer of at least `n` bytes. -/
theorem writeBytes_drop {fin buf src : Bytes} {n off : Nat} (hn : n ≤ buf.length)
    (h : fin.length = off) (hsrc : off + src.length ≤ n) :
    writeBytes (fin ++ buf.drop off) off src
      = .ok (fin ++ src ++ buf.drop (off + src.length)) := by
  have hrest : src.length ≤ (buf.drop off).length := by
    rw [List.length_drop]
    omega
  unfold writeBytes
  rw [setRange_append h hrest, List.drop_drop]

/-! ## Wire images -/

namespace Header

/-- The ten bytes of a header. -/
def wire (h : Header) : Bytes :=
  toBE 2 h.stockLocate.toNat ++ toBE 2 h.trackingNumber.toNat ++ toBE 6 h.timestamp.toNat

@[simp] theorem wire_length (h : Header) : h.wire.length = 10 := by
  simp [wire]

/-- The header the wire carries: the timestamp cut to 48 bits. -/
def onWire (h : Header) : Header :=
  { h with timestamp := UInt64.ofNat (h.timestamp.toNat % 2 ^ 48) }

theorem onWire_timestamp_lt (h : Header) : h.onWire.timestamp.toNat < 2 ^ 48 := by
  rw [onWire, UInt64.toNat_ofNat', Nat.mod_mod_of_dvd' (by decide)]
  exact Nat.mod_lt _ (by decide)

@[simp] theorem wire_onWire (h : Header) : h.onWire.wire = h.wire := by
  have hcut : (UInt64.ofNat (h.timestamp.toNat % 2 ^ 48)).toNat = h.timestamp.toNat % 2 ^ 48 :=
    UInt64.toNat_ofNat_of_lt' ((Nat.mod_lt _ (by decide)).trans (by decide))
  have hsix : toBE 6 (h.timestamp.toNat % 2 ^ 48) = toBE 6 h.timestamp.toNat := by
    rw [show 2 ^ 48 = 256 ^ 6 by decide, ← ofBE_toBE, toBE_ofBE_of_length (toBE_length 6 _)]
  simp only [wire, onWire, hcut, hsix]

theorem encodeAt_eq {h : Header} {buf : Bytes} {n : Nat} (hn : n ≤ buf.length) (hl : 10 ≤ n) :
    h.encodeAt buf = .ok (h.wire ++ buf.drop 10) := by
  have hts : (toBE 8 h.timestamp.toNat).drop 2 = toBE 6 h.timestamp.toNat := drop_toBE 6 2 _
  have h0 := writeBytes_drop hn (List.length_nil (α := UInt8))
    (show 0 + (toBE 2 h.stockLocate.toNat).length ≤ n by rw [toBE_length]; omega)
  have h2 := writeBytes_drop hn (toBE_length 2 h.stockLocate.toNat)
    (show 2 + (toBE 2 h.trackingNumber.toNat).length ≤ n by rw [toBE_length]; omega)
  have h4 := writeBytes_drop hn
    (show (toBE 2 h.stockLocate.toNat ++ toBE 2 h.trackingNumber.toNat).length = 4 by simp)
    (show 4 + (toBE 6 h.timestamp.toNat).length ≤ n by rw [toBE_length]; omega)
  simp only [List.nil_append, List.drop_zero, toBE_length, Nat.reduceAdd] at h0 h2 h4
  simp only [encodeAt, writeU16, writeU48, hts, h0, h2, h4, ok_bind, wire]

@[simp] theorem decodeAt_eq_ok {buf : Bytes} {h : Header} :
    decodeAt buf = .ok h ↔ h.timestamp.toNat < 2 ^ 48 ∧ HasAt buf 0 h.wire := by
  cases h
  simp [decodeAt, wire, hasAt_append, and_assoc, and_comm, and_left_comm, -List.append_assoc]

end Header

section

open Encode (bodyLen encodeBody)
open Decode (decodeBody)

/-- A kind whose codec writes and accepts exactly the wire images of its values. -/
class LawfulBody (α : Type) [Encode α] [Decode α] where
  /-- The common header. -/
  header : α → Header
  /-- The fields one after the other. -/
  wire : α → Bytes
  /-- An image fills the body. -/
  wire_length (m : α) : (wire m).length = bodyLen α := by
    intro m
    simp [bodyLen]
  /-- A buffer that is long enough receives the image and keeps what follows. -/
  encodeBody_eq {m : α} {buf : Bytes} (h : bodyLen α ≤ buf.length) :
      encodeBody m buf = .ok (wire m ++ buf.drop (bodyLen α)) := by
    intro m buf h
    dsimp only [bodyLen] at h
    simp [encodeBody, bodyLen, sliceNMut_zero h, Header.encodeAt_eq h, writeBytes_drop h,
      -List.append_assoc]
  /-- A body is accepted when it starts with the image of a value whose timestamp fits. -/
  decodeBody_eq_ok {m : α} {buf : Bytes} :
      decodeBody buf = .ok m ↔
        bodyLen α ≤ buf.length ∧ (header m).timestamp.toNat < 2 ^ 48 ∧ HasAt buf 0 (wire m) := by
    intro m buf
    cases m
    simp [decodeBody, bodyLen, and_assoc, -List.append_assoc]

open LawfulBody (wire)

instance : LawfulBody SystemEvent where
  header := SystemEvent.header
  wire m := m.header.wire ++ [toByte m.eventCode]

instance : LawfulBody StockDirectory where
  header := StockDirectory.header
  wire m := m.header.wire ++ m.stock.toList ++ [toByte m.marketCategory]
    ++ [toByte m.financialStatus] ++ toBE 4 m.roundLotSize.toNat ++ [toByte m.roundLotsOnly]
    ++ [m.issueClassification] ++ m.issueSubtype.toList ++ [toByte m.authenticity]
    ++ [toByte m.shortSaleThreshold] ++ [toByte m.ipoFlag] ++ [toByte m.luldReferencePriceTier]
    ++ [toByte m.etpFlag] ++ toBE 4 m.etpLeverageFactor.toNat ++ [toByte m.inverseIndicator]

instance : LawfulBody StockTradingAction where
  header := StockTradingAction.header
  wire m := m.header.wire ++ m.stock.toList ++ [toByte m.tradingState] ++ [m.reserved]
    ++ m.reason.toList

instance : LawfulBody RegShoRestriction where
  header := RegShoRestriction.header
  wire m := m.header.wire ++ m.stock.toList ++ [toByte m.regShoAction]

instance : LawfulBody MarketParticipantPosition where
  header := MarketParticipantPosition.header
  wire m := m.header.wire ++ m.mpid.toList ++ m.stock.toList ++ [toByte m.primaryMarketMaker]
    ++ [toByte m.marketMakerMode] ++ [toByte m.marketParticipantState]

instance : LawfulBody MwcbDeclineLevel where
  header := MwcbDeclineLevel.header
  wire m := m.header.wire ++ toBE 8 m.level1.toNat ++ toBE 8 m.level2.toNat
    ++ toBE 8 m.level3.toNat

instance : LawfulBody MwcbStatus where
  header := MwcbStatus.header
  wire m := m.header.wire ++ [toByte m.breachedLevel]

instance : LawfulBody IpoQuotingPeriodUpdate where
  header := IpoQuotingPeriodUpdate.header
  wire m := m.header.wire ++ m.stock.toList ++ toBE 4 m.ipoQuotationReleaseTime.toNat
    ++ [toByte m.ipoQuotationReleaseQualifier] ++ toBE 4 m.ipoPrice.toNat

instance : LawfulBody AddOrder where
  header := AddOrder.header
  wire m := m.header.wire ++ toBE 8 m.orderRef.toNat ++ [toByte m.side] ++ toBE 4 m.shares.toNat
    ++ m.stock.toList ++ toBE 4 m.price.toNat

instance : LawfulBody AddOrderWithMpid where
  header := AddOrderWithMpid.header
  wire m := m.header.wire ++ toBE 8 m.orderRef.toNat ++ [toByte m.side] ++ toBE 4 m.shares.toNat
    ++ m.stock.toList ++ toBE 4 m.price.toNat ++ m.attribution.toList

instance : LawfulBody OrderExecuted where
  header := OrderExecuted.header
  wire m := m.header.wire ++ toBE 8 m.orderRef.toNat ++ toBE 4 m.executedShares.toNat
    ++ toBE 8 m.matchNumber.toNat

instance : LawfulBody OrderExecutedWithPrice where
  header := OrderExecutedWithPrice.header
  wire m := m.header.wire ++ toBE 8 m.orderRef.toNat ++ toBE 4 m.executedShares.toNat
    ++ toBE 8 m.matchNumber.toNat ++ [toByte m.printable] ++ toBE 4 m.executionPrice.toNat

instance : LawfulBody OrderCancel where
  header := OrderCancel.header
  wire m := m.header.wire ++ toBE 8 m.orderRef.toNat ++ toBE 4 m.cancelledShares.toNat

instance : LawfulBody OrderDelete where
  header := OrderDelete.header
  wire m := m.header.wire ++ toBE 8 m.orderRef.toNat

instance : LawfulBody OrderReplace where
  header := OrderReplace.header
  wire m := m.header.wire ++ toBE 8 m.originalOrderRef.toNat ++ toBE 8 m.newOrderRef.toNat
    ++ toBE 4 m.shares.toNat ++ toBE 4 m.price.toNat

instance : LawfulBody TradeNonCross where
  header := TradeNonCross.header
  wire m := m.header.wire ++ toBE 8 m.orderRef.toNat ++ [toByte m.side] ++ toBE 4 m.shares.toNat
    ++ m.stock.toList ++ toBE 4 m.price.toNat ++ toBE 8 m.matchNumber.toNat

instance : LawfulBody CrossTrade where
  header := CrossTrade.header
  wire m := m.header.wire ++ toBE 8 m.shares.toNat ++ m.stock.toList
    ++ toBE 4 m.crossPrice.toNat ++ toBE 8 m.matchNumber.toNat ++ [toByte m.crossType]

instance : LawfulBody BrokenTrade where
  header := BrokenTrade.header
  wire m := m.header.wire ++ toBE 8 m.matchNumber.toNat

instance : LawfulBody Noii where
  header := Noii.header
  wire m := m.header.wire ++ toBE 8 m.pairedShares.toNat ++ toBE 8 m.imbalanceShares.toNat
    ++ [toByte m.imbalanceDirection] ++ m.stock.toList ++ toBE 4 m.farPrice.toNat
    ++ toBE 4 m.nearPrice.toNat ++ toBE 4 m.currentReferencePrice.toNat ++ [toByte m.crossType]
    ++ [toByte m.priceVariation]

instance : LawfulBody RetailPriceImprovement where
  header := RetailPriceImprovement.header
  wire m := m.header.wire ++ m.stock.toList ++ [toByte m.interestFlag]

/-- A body is accepted when it starts with the image of a value whose timestamp fits. -/
theorem decodeBody_eq_ok_iff_prefix {α : Type} [Encode α] [Decode α] [LawfulBody α] {m : α}
    {buf : Bytes} :
    decodeBody buf = .ok m ↔
      (LawfulBody.header m).timestamp.toNat < 2 ^ 48 ∧ wire m <+: buf := by
  rw [LawfulBody.decodeBody_eq_ok, hasAt_zero]
  constructor
  · exact And.right
  · rintro ⟨ht, hw⟩
    exact ⟨LawfulBody.wire_length m ▸ hw.length_le, ht, hw⟩

end

/-! ## Messages -/

namespace Message

open LawfulBody (wire)

/-- The wire image of the body. -/
def wireBody : Message → Bytes
  | systemEvent m => wire m
  | stockDirectory m => wire m
  | stockTradingAction m => wire m
  | regShoRestriction m => wire m
  | marketParticipantPosition m => wire m
  | mwcbDeclineLevel m => wire m
  | mwcbStatus m => wire m
  | ipoQuotingPeriodUpdate m => wire m
  | addOrder m => wire m
  | addOrderWithMpid m => wire m
  | orderExecuted m => wire m
  | orderExecutedWithPrice m => wire m
  | orderCancel m => wire m
  | orderDelete m => wire m
  | orderReplace m => wire m
  | tradeNonCross m => wire m
  | crossTrade m => wire m
  | brokenTrade m => wire m
  | noii m => wire m
  | retailPriceImprovement m => wire m

/-- The wire image, tag first. -/
def wireImage (m : Message) : Bytes :=
  m.tag :: m.wireBody

theorem wireBody_length (m : Message) : m.wireBody.length = m.bodyLen := by
  cases m <;> exact LawfulBody.wire_length _

@[simp] theorem wireImage_length (m : Message) : m.wireImage.length = m.encodedLen := by
  rw [wireImage, List.length_cons, wireBody_length, encodedLen, Nat.add_comm]

/-- The largest message is the 50 bytes of a NOII. -/
theorem encodedLen_le (m : Message) : m.encodedLen ≤ 50 := by
  cases m <;> exact Nat.le_of_ble_eq_true rfl

theorem encodeKind_eq {m : Message} {body : Bytes} (h : m.bodyLen ≤ body.length) :
    m.encodeKind body = .ok (m.wireBody ++ body.drop m.bodyLen) := by
  cases m <;> exact LawfulBody.encodeBody_eq h

/-- Encoding into a buffer that is long enough writes the image at its start. -/
theorem encode_eq {m : Message} {buf : Bytes} (h : m.encodedLen ≤ buf.length) :
    m.encode buf = .ok (m.encodedLen, m.wireImage ++ buf.drop m.encodedLen) := by
  have hbody : ((buf.take m.encodedLen).drop 1).length = m.bodyLen := by
    rw [List.length_drop, List.length_take, Nat.min_eq_left h, encodedLen]
    omega
  have hkind := encodeKind_eq hbody.ge
  rw [← hbody, List.drop_length, List.append_nil] at hkind
  simp only [encode, sliceNMut_zero h, hkind, ok_bind, pure_eq_ok, wireImage]

/-- Encoding into a fresh buffer of the length of the message gives the image. -/
theorem encode_fresh (m : Message) :
    m.encode (List.replicate m.encodedLen 0) = .ok (m.encodedLen, m.wireImage) := by
  rw [encode_eq (by simp), List.drop_of_length_le (by simp), List.append_nil]

theorem eq_toUInt8_of_ofUInt8 {b : UInt8} {c : Char} (h : Char.ofUInt8 b = c) :
    b = c.toUInt8 := by
  subst h
  exact (UInt8.toUInt8_toUInt32 b).symm

/-- The dispatch on the tag finds the codec of the kind. -/
theorem decodeKind_eq_ok {tag : UInt8} {body : Bytes} {m : Message} :
    decodeKind tag body = .ok m ↔ tag = m.tag ∧ m.FitsWire ∧ m.wireBody <+: body := by
  constructor
  · intro h
    unfold decodeKind at h
    split at h
    case h_21 => cases h
    all_goals
      obtain ⟨a, ha, rfl⟩ := map_eq_ok.mp h
      exact ⟨eq_toUInt8_of_ofUInt8 ‹_›, decodeBody_eq_ok_iff_prefix.mp ha⟩
  · rintro ⟨rfl, hfit, hw⟩
    cases m <;> exact map_eq_ok.mpr ⟨_, decodeBody_eq_ok_iff_prefix.mpr ⟨hfit, hw⟩, rfl⟩

/-- Decoding accepts exactly the buffers that start with the image of a message. -/
theorem decode_eq_ok {buf : Bytes} {m : Message} :
    decode buf = .ok m ↔ m.FitsWire ∧ m.wireImage <+: buf := by
  cases buf with
  | nil => simp [decode, wireImage]
  | cons tag body =>
      rw [decode, decodeKind_eq_ok, wireImage, List.cons_prefix_cons]
      tauto

/-- The message the wire carries. -/
def onWire : Message → Message
  | systemEvent m => systemEvent { m with header := m.header.onWire }
  | stockDirectory m => stockDirectory { m with header := m.header.onWire }
  | stockTradingAction m => stockTradingAction { m with header := m.header.onWire }
  | regShoRestriction m => regShoRestriction { m with header := m.header.onWire }
  | marketParticipantPosition m => marketParticipantPosition { m with header := m.header.onWire }
  | mwcbDeclineLevel m => mwcbDeclineLevel { m with header := m.header.onWire }
  | mwcbStatus m => mwcbStatus { m with header := m.header.onWire }
  | ipoQuotingPeriodUpdate m => ipoQuotingPeriodUpdate { m with header := m.header.onWire }
  | addOrder m => addOrder { m with header := m.header.onWire }
  | addOrderWithMpid m => addOrderWithMpid { m with header := m.header.onWire }
  | orderExecuted m => orderExecuted { m with header := m.header.onWire }
  | orderExecutedWithPrice m => orderExecutedWithPrice { m with header := m.header.onWire }
  | orderCancel m => orderCancel { m with header := m.header.onWire }
  | orderDelete m => orderDelete { m with header := m.header.onWire }
  | orderReplace m => orderReplace { m with header := m.header.onWire }
  | tradeNonCross m => tradeNonCross { m with header := m.header.onWire }
  | crossTrade m => crossTrade { m with header := m.header.onWire }
  | brokenTrade m => brokenTrade { m with header := m.header.onWire }
  | noii m => noii { m with header := m.header.onWire }
  | retailPriceImprovement m => retailPriceImprovement { m with header := m.header.onWire }

theorem fitsWire_onWire (m : Message) : m.onWire.FitsWire := by
  cases m <;> exact Header.onWire_timestamp_lt _

theorem wireImage_onWire (m : Message) : m.onWire.wireImage = m.wireImage := by
  cases m <;> simp only [onWire, wireImage, wireBody, tag, wire, Header.wire_onWire]

/-- Every encoded message decodes, to what the wire carries of it. -/
theorem decode_wireImage (m : Message) : decode m.wireImage = .ok m.onWire :=
  decode_eq_ok.mpr ⟨fitsWire_onWire m, by rw [wireImage_onWire]⟩

theorem onWire_of_fitsWire {m : Message} (h : m.FitsWire) : m.onWire = m :=
  Except.ok.inj ((decode_wireImage m).symm.trans (decode_eq_ok.mpr ⟨h, List.prefix_rfl⟩))

/-- The codec is an exact inverse in both directions: what was encoded decodes to the
message whatever follows it, and encoding what was decoded reproduces the bytes that
were consumed. -/
theorem codec_exact_inverse :
    (∀ (m : Message) (buf trailing : Bytes), m.FitsWire → m.encodedLen ≤ buf.length →
      ∃ out, m.encode buf = .ok (m.encodedLen, out) ∧
        out.drop m.encodedLen = buf.drop m.encodedLen ∧
        decode (out.take m.encodedLen ++ trailing) = .ok m) ∧
    (∀ (b : Bytes) (m : Message) (buf : Bytes), decode b = .ok m → m.encodedLen ≤ buf.length →
      ∃ out, m.encode buf = .ok (m.encodedLen, out) ∧
        m.encodedLen ≤ b.length ∧ out.take m.encodedLen = b.take m.encodedLen) := by
  constructor
  · intro m buf trailing hfit hlen
    refine ⟨_, encode_eq hlen, ?_, ?_⟩
    · rw [← wireImage_length, List.drop_left]
    · rw [← wireImage_length, List.take_left]
      exact decode_eq_ok.mpr ⟨hfit, List.prefix_append _ _⟩
  · intro b m buf hdec hlen
    obtain ⟨_, rest, rfl⟩ := decode_eq_ok.mp hdec
    refine ⟨_, encode_eq hlen, ?_, ?_⟩
    · rw [← wireImage_length, List.length_append]
      omega
    · rw [← wireImage_length, List.take_left, List.take_left]

/-- A delete of order `0x0102` at the last nanosecond the wire can carry. -/
def sampleDelete : Message :=
  .orderDelete { header := ⟨7, 13, 0xffffffffffff⟩, orderRef := 0x0102 }

theorem codec_exact_inverse_sampleDelete :
    (∃ out, sampleDelete.encode (List.replicate 20 0xee) = .ok (19, out) ∧
      out.drop 19 = [0xee] ∧ decode (out.take 19 ++ [1, 2, 3]) = .ok sampleDelete) ∧
    (∃ out, sampleDelete.encode (List.replicate 19 0) = .ok (19, out) ∧
      19 ≤ (sampleDelete.wireImage ++ [9]).length ∧
      out.take 19 = (sampleDelete.wireImage ++ [9]).take 19) :=
  ⟨codec_exact_inverse.1 sampleDelete _ [1, 2, 3] (by decide) (by decide),
    codec_exact_inverse.2 _ sampleDelete _ (decode_eq_ok.mpr ⟨by decide, ⟨[9], rfl⟩⟩)
      (by decide)⟩

end Message

end Itch
