import Itch.Protocol.RoundTrip

/-!
# What the codec rejects

A buffer that is not accepted is empty, has a tag that is none of the twenty, is too short
for its kind, or holds a byte outside the set of a closed-set field.  Every `decode_body`
checks the length before it looks at a field, and looks at the fields in the order of the
layout, so the four cases exclude each other and an error of the last one names the first
field that is wrong.
-/

namespace Itch

open Lib
open AlphaCoded (toByte fromByte)

/-! ## Closed-set fields -/

/-- A closed-set field of a body: its offset, the name of its set and the bytes in the set. -/
structure ClosedField where
  off : Nat
  field : String
  codes : List UInt8
deriving Repr, DecidableEq

namespace ClosedField

/-- A field of an enum type. -/
def of (α : Type) [AlphaCoded α] (off : Nat) : ClosedField where
  off := off
  field := AlphaCoded.field α
  codes := (AlphaCoded.variants : List α).map toByte

/-- The byte of the field. -/
def code (f : ClosedField) (body : Bytes) : UInt8 :=
  body.getD f.off 0

/-- The byte of the field is in its set. -/
def Holds (f : ClosedField) (body : Bytes) : Prop :=
  f.code body ∈ f.codes

instance (f : ClosedField) (body : Bytes) : Decidable (f.Holds body) :=
  inferInstanceAs (Decidable (_ ∈ _))

/-- The error for the first field that does not hold. -/
def check (body : Bytes) : List ClosedField → Option ProtocolError
  | [] => none
  | f :: fields =>
      if f.Holds body then check body fields
      else some (.invalidEnumCode f.field (f.code body))

theorem check_eq_none {body : Bytes} {fields : List ClosedField} :
    check body fields = none ↔ ∀ f ∈ fields, f.Holds body := by
  induction fields with
  | nil => simp [check]
  | cons f fields ih =>
      rw [check, List.forall_mem_cons]
      by_cases hf : f.Holds body
      · rw [if_pos hf, ih, and_iff_right hf]
      · rw [if_neg hf]
        exact iff_of_false (Option.some_ne_none _) fun h => hf h.1

theorem check_eq_some {body : Bytes} {fields : List ClosedField} {e : ProtocolError}
    (h : check body fields = some e) :
    ∃ f ∈ fields, ¬ f.Holds body ∧ e = .invalidEnumCode f.field (f.code body) := by
  induction fields with
  | nil => cases h
  | cons f fields ih =>
      rw [check] at h
      split at h
      next =>
        obtain ⟨g, hg, hbad⟩ := ih h
        exact ⟨g, List.mem_cons_of_mem f hg, hbad⟩
      next hbad =>
        cases h
        exact ⟨f, List.mem_cons_self, hbad, rfl⟩

end ClosedField

/-- A block that fails exactly on the first field that does not hold. -/
def Checks {α : Type} (body : Bytes) (fields : List ClosedField)
    (r : Except ProtocolError α) : Prop :=
  match ClosedField.check body fields with
  | none => ∃ a, r = .ok a
  | some e => r = .error e

namespace Checks

variable {α β : Type} {body : Bytes} {fields : List ClosedField} {off : Nat}

theorem done {a : α} : Checks body [] (Except.ok a) :=
  ⟨a, rfl⟩

/-- A step that succeeds checks nothing. -/
theorem step {x : Except ProtocolError α} {g : α → Except ProtocolError β} (hx : ∃ a, x = .ok a)
    (h : ∀ a, Checks body fields (g a)) : Checks body fields (x >>= g) := by
  obtain ⟨a, rfl⟩ := hx
  rw [ok_bind]
  exact h a

theorem map {r : Except ProtocolError α} (h : Checks body fields r) (g : α → β) :
    Checks body fields (g <$> r) := by
  unfold Checks at h ⊢
  split at h
  next =>
    obtain ⟨a, rfl⟩ := h
    exact ⟨g a, rfl⟩
  next =>
    subst h
    rfl

end Checks

theorem fromByte_of_not_mem {α : Type} [AlphaCoded α] {b : UInt8}
    (h : b ∉ (AlphaCoded.variants : List α).map toByte) :
    (fromByte b : Except ProtocolError α) = .error (.invalidEnumCode (AlphaCoded.field α) b) := by
  have hnone : (AlphaCoded.variants : List α).find? (fun v => toByte v == b) = none := by
    refine List.find?_eq_none.mpr fun v hv hb => h ?_
    exact List.mem_map.mpr ⟨v, hv, beq_iff_eq.mp hb⟩
  rw [fromByte, hnone]

/-! ## Reads in range -/

section Reads

variable {body : Bytes} {off n : Nat}

theorem exists_need (h : n ≤ body.length) : ∃ u, need body n = .ok u :=
  ⟨(), need_eq_ok.mpr h⟩

theorem sliceN_of_le (h : off + n ≤ body.length) :
    sliceN body off n = .ok ((body.drop off).take n) := by
  rw [sliceN, getRange, if_pos h]

theorem exists_readU16 (h : off + 2 ≤ body.length) : ∃ v, readU16 body off = .ok v :=
  ⟨_, by rw [readU16, sliceN_of_le h, ok_bind]; rfl⟩

theorem exists_readU32 (h : off + 4 ≤ body.length) : ∃ v, readU32 body off = .ok v :=
  ⟨_, by rw [readU32, sliceN_of_le h, ok_bind]; rfl⟩

theorem exists_readU64 (h : off + 8 ≤ body.length) : ∃ v, readU64 body off = .ok v :=
  ⟨_, by rw [readU64, sliceN_of_le h, ok_bind]; rfl⟩

theorem exists_readU48 (h : off + 6 ≤ body.length) : ∃ v, readU48 body off = .ok v :=
  ⟨_, by rw [readU48, sliceN_of_le h, ok_bind]; rfl⟩

theorem exists_readBytesN (h : off + n ≤ body.length) : ∃ v, readBytesN n body off = .ok v :=
  ⟨_, by rw [readBytesN, sliceN_of_le h, ok_bind]; rfl⟩

theorem readU8_of_lt (h : off < body.length) : readU8 body off = .ok (body.getD off 0) := by
  have hbyte : (body.drop off).take 1 = [body.getD off 0] := by
    rw [List.drop_eq_getElem_cons h, List.take_succ_cons, List.take_zero,
      List.getD_eq_getElem?_getD, List.getElem?_eq_getElem h, Option.getD_some]
  rw [readU8_eq_ok, hasAt_iff_eq_take rfl]
  exact hbyte

theorem exists_header (h : 10 ≤ body.length) : ∃ v, Header.decodeAt body = .ok v := by
  obtain ⟨locate, hlocate⟩ := exists_readU16 (show 0 + 2 ≤ body.length by omega)
  obtain ⟨tracking, htracking⟩ := exists_readU16 (show 2 + 2 ≤ body.length by omega)
  obtain ⟨timestamp, htimestamp⟩ := exists_readU48 (show 4 + 6 ≤ body.length by omega)
  exact ⟨_, by simp only [Header.decodeAt, hlocate, htracking, htimestamp, ok_bind]; rfl⟩

/-- The read of a closed-set field checks the field. -/
theorem Checks.closed {α β : Type} [AlphaCoded α] {fields : List ClosedField}
    {g : α → Except ProtocolError β} (h : off < body.length)
    (hg : ∀ v, Checks body fields (g v)) :
    Checks body (.of α off :: fields) (readU8 body off >>= fun b => fromByte b >>= g) := by
  rw [readU8_of_lt h, ok_bind]
  by_cases hmem : (ClosedField.of α off).Holds body
  · obtain ⟨v, -, hv⟩ := List.mem_map.mp hmem
    have hbyte : body.getD off 0 = toByte v := hv.symm
    have hcheck : ClosedField.check body (.of α off :: fields) = ClosedField.check body fields := by
      rw [ClosedField.check, if_pos hmem]
    rw [hbyte, AlphaCoded.fromByte_toByte, ok_bind]
    unfold Checks
    rw [hcheck]
    exact hg v
  · have hcheck : ClosedField.check body (.of α off :: fields) =
        some (.invalidEnumCode (AlphaCoded.field α) (body.getD off 0)) := by
      rw [ClosedField.check, if_neg hmem]
      rfl
    have hfail : (fromByte (body.getD off 0) : Except ProtocolError α) =
        .error (.invalidEnumCode (AlphaCoded.field α) (body.getD off 0)) :=
      fromByte_of_not_mem hmem
    rw [hfail]
    unfold Checks
    rw [hcheck]
    rfl

end Reads

/-! ## The closed-set fields of each kind -/

section Kinds

open Encode (bodyLen)
open Decode (decodeBody)

/-- A kind whose decoder rejects a body for its length first and then for its closed-set
fields, in the order of the layout. -/
class ClosedBody (α : Type) [Encode α] [Decode α] where
  /-- The closed-set fields. -/
  fields : List ClosedField
  /-- Too short a body is rejected before any field is read. -/
  decodeBody_short {body : Bytes} (h : body.length < bodyLen α) :
      decodeBody body = (.error (.truncated (bodyLen α) body.length) : Except ProtocolError α) := by
    intro body h
    dsimp only [bodyLen] at h ⊢
    simp only [decodeBody, need, if_pos h]
    rfl
  /-- Otherwise only the fields decide. -/
  decodeBody_checks {body : Bytes} (h : bodyLen α ≤ body.length) :
      Checks body fields (decodeBody body : Except ProtocolError α) := by
    intro body h
    dsimp only [bodyLen] at h
    refine .step (exists_need h) fun _ => .step (exists_header (by omega)) fun _ => ?_
    repeat' first
      | exact Checks.done
      | refine Checks.closed (by omega) fun _ => ?_
      | refine Checks.step (exists_readU32 (by omega)) fun _ => ?_
      | refine Checks.step (exists_readU64 (by omega)) fun _ => ?_
      | refine Checks.step (exists_readBytesN (by omega)) fun _ => ?_
      | refine Checks.step ⟨_, readU8_of_lt (by omega)⟩ fun _ => ?_

instance : ClosedBody SystemEvent where
  fields := [.of EventCode 10]

instance : ClosedBody StockDirectory where
  fields := [.of MarketCategory 18, .of FinancialStatus 19, .of YesNo 24, .of Authenticity 28,
    .of YesNo 29, .of YesNo 30, .of LuldTier 31, .of YesNo 32, .of YesNo 37]

instance : ClosedBody StockTradingAction where
  fields := [.of TradingState 18]

instance : ClosedBody RegShoRestriction where
  fields := [.of RegShoAction 18]

instance : ClosedBody MarketParticipantPosition where
  fields := [.of YesNo 22, .of MarketMakerMode 23, .of MarketParticipantState 24]

instance : ClosedBody MwcbDeclineLevel where
  fields := []

instance : ClosedBody MwcbStatus where
  fields := [.of BreachedLevel 10]

instance : ClosedBody IpoQuotingPeriodUpdate where
  fields := [.of IpoReleaseQualifier 22]

instance : ClosedBody AddOrder where
  fields := [.of Side 18]

instance : ClosedBody AddOrderWithMpid where
  fields := [.of Side 18]

instance : ClosedBody OrderExecuted where
  fields := []

instance : ClosedBody OrderExecutedWithPrice where
  fields := [.of Printable 30]

instance : ClosedBody OrderCancel where
  fields := []

instance : ClosedBody OrderDelete where
  fields := []

instance : ClosedBody OrderReplace where
  fields := []

instance : ClosedBody TradeNonCross where
  fields := [.of Side 18]

instance : ClosedBody CrossTrade where
  fields := [.of CrossType 38]

instance : ClosedBody BrokenTrade where
  fields := []

instance : ClosedBody Noii where
  fields := [.of ImbalanceDirection 26, .of CrossType 47, .of PriceVariation 48]

instance : ClosedBody RetailPriceImprovement where
  fields := [.of RpiInterestFlag 18]

end Kinds

/-! ## Messages -/

-- a kind is named by any message of it, so every kind has one
deriving instance Inhabited for EventCode, MarketCategory, FinancialStatus, YesNo, Authenticity,
  LuldTier, TradingState, RegShoAction, MarketMakerMode, MarketParticipantState, BreachedLevel,
  IpoReleaseQualifier, Side, Printable, CrossType, ImbalanceDirection, PriceVariation,
  RpiInterestFlag, Header, SystemEvent, StockDirectory, StockTradingAction, RegShoRestriction,
  MarketParticipantPosition, MwcbDeclineLevel, MwcbStatus, IpoQuotingPeriodUpdate, AddOrder,
  AddOrderWithMpid, OrderExecuted, OrderExecutedWithPrice, OrderCancel, OrderDelete,
  OrderReplace, TradeNonCross, CrossTrade, BrokenTrade, Noii, RetailPriceImprovement

namespace Message

open ClosedBody (fields)

/-- The closed-set fields of the kind of a message. -/
def closedFields : Message → List ClosedField
  | systemEvent _ => fields SystemEvent
  | stockDirectory _ => fields StockDirectory
  | stockTradingAction _ => fields StockTradingAction
  | regShoRestriction _ => fields RegShoRestriction
  | marketParticipantPosition _ => fields MarketParticipantPosition
  | mwcbDeclineLevel _ => fields MwcbDeclineLevel
  | mwcbStatus _ => fields MwcbStatus
  | ipoQuotingPeriodUpdate _ => fields IpoQuotingPeriodUpdate
  | addOrder _ => fields AddOrder
  | addOrderWithMpid _ => fields AddOrderWithMpid
  | orderExecuted _ => fields OrderExecuted
  | orderExecutedWithPrice _ => fields OrderExecutedWithPrice
  | orderCancel _ => fields OrderCancel
  | orderDelete _ => fields OrderDelete
  | orderReplace _ => fields OrderReplace
  | tradeNonCross _ => fields TradeNonCross
  | crossTrade _ => fields CrossTrade
  | brokenTrade _ => fields BrokenTrade
  | noii _ => fields Noii
  | retailPriceImprovement _ => fields RetailPriceImprovement

/-- What a body does to the decoder of its kind. -/
structure Judged (m : Message) (body : Bytes) (r : Except ProtocolError Message) : Prop where
  short : body.length < m.bodyLen → r = .error (.truncated m.bodyLen body.length)
  checks : m.bodyLen ≤ body.length → Checks body m.closedFields r

/-- The dispatch to a kind needs the tag of a message of that kind. -/
theorem decoder_not_asked {α : Type} [Inhabited α] {tag : UInt8} {c : Char} {kind : α → Message}
    {r : Except ProtocolError α} {e : ProtocolError} (hunknown : ∀ m : Message, m.tag ≠ tag)
    (htag : Char.ofUInt8 tag = c) (hkind : (kind default).tag = c.toUInt8) :
    kind <$> r = .error e :=
  absurd (hkind.trans (eq_toUInt8_of_ofUInt8 htag).symm) (hunknown _)

theorem decodeKind_of_unknown {tag : UInt8} (h : ∀ m : Message, m.tag ≠ tag) (body : Bytes) :
    decodeKind tag body = .error (.unknownMessageType tag) := by
  unfold decodeKind
  split
  case h_21 => rfl
  all_goals exact decoder_not_asked h ‹_› rfl

theorem judged (m : Message) (body : Bytes) : m.Judged body (decodeKind m.tag body) where
  short h := by cases m <;> exact congrArg (Functor.map _) (ClosedBody.decodeBody_short h)
  checks h := by cases m <;> exact (ClosedBody.decodeBody_checks h).map _

/-- The ways `decode` can end, each with its reason. -/
inductive Verdict (b : Bytes) : Except ProtocolError Message → Prop where
  | empty : b = [] → Verdict b (.error (.truncated 1 0))
  | unknown {tag : UInt8} : b.head? = some tag → (∀ m : Message, m.tag ≠ tag) →
      Verdict b (.error (.unknownMessageType tag))
  | short {m : Message} : b.head? = some m.tag → b.length < m.encodedLen →
      Verdict b (.error (.truncated m.bodyLen b.tail.length))
  | wrong {m : Message} {f : ClosedField} : b.head? = some m.tag → m.encodedLen ≤ b.length →
      f ∈ m.closedFields → ¬ f.Holds b.tail →
      Verdict b (.error (.invalidEnumCode f.field (f.code b.tail)))
  | accepted {msg : Message} : Verdict b (.ok msg)

theorem cons_tail_of_head? {b : Bytes} {tag : UInt8} (h : b.head? = some tag) :
    b = tag :: b.tail := by
  cases b with
  | nil => cases h
  | cons t body =>
      cases h
      rfl

/-- The body is too short exactly if the whole is. -/
theorem length_tail_lt_iff {b : Bytes} {m : Message} (hhead : b.head? = some m.tag) :
    b.tail.length < m.bodyLen ↔ b.length < m.encodedLen := by
  have hcount := congrArg List.length (cons_tail_of_head? hhead)
  rw [List.length_cons] at hcount
  rw [hcount, encodedLen]
  omega

theorem verdict (b : Bytes) : Verdict b (decode b) := by
  cases b with
  | nil => exact .empty rfl
  | cons tag body =>
      rw [decode]
      by_cases hknown : ∃ m : Message, m.tag = tag
      · obtain ⟨m, rfl⟩ := hknown
        have hjudged := m.judged body
        have hlen : body.length < m.bodyLen ↔ (m.tag :: body).length < m.encodedLen :=
          length_tail_lt_iff (b := m.tag :: body) rfl
        by_cases hshort : body.length < m.bodyLen
        · rw [hjudged.short hshort]
          exact .short rfl (hlen.mp hshort)
        · have hchecks := hjudged.checks (Nat.le_of_not_lt hshort)
          unfold Checks at hchecks
          split at hchecks
          next =>
            obtain ⟨msg, heq⟩ := hchecks
            rw [heq]
            exact .accepted
          next e hsome =>
            obtain ⟨f, hf, hbad, rfl⟩ := ClosedField.check_eq_some hsome
            rw [hchecks]
            exact .wrong rfl (Nat.le_of_not_lt (mt hlen.mpr hshort)) hf hbad
      · rw [not_exists] at hknown
        rw [decodeKind_of_unknown hknown]
        exact .unknown rfl hknown

theorem decode_short {b : Bytes} {m : Message} (hhead : b.head? = some m.tag)
    (hlen : b.length < m.encodedLen) : decode b = .error (.truncated m.bodyLen b.tail.length) := by
  have hshort := (m.judged b.tail).short ((length_tail_lt_iff hhead).mpr hlen)
  rw [← hshort, ← decode, ← cons_tail_of_head? hhead]

theorem decode_wrong {b : Bytes} {m : Message} (hhead : b.head? = some m.tag)
    (hlen : m.encodedLen ≤ b.length) (hbad : ∃ f ∈ m.closedFields, ¬ f.Holds b.tail) :
    ∃ field code, decode b = .error (.invalidEnumCode field code) := by
  obtain ⟨f, hf, hbad⟩ := hbad
  have henough := mt (length_tail_lt_iff hhead).mp (Nat.not_lt.mpr hlen)
  have hchecks := (m.judged b.tail).checks (Nat.le_of_not_lt henough)
  unfold Checks at hchecks
  rw [cons_tail_of_head? hhead, decode]
  split at hchecks
  next hnone => exact absurd (ClosedField.check_eq_none.mp hnone f hf) hbad
  next hsome =>
    obtain ⟨g, -, -, rfl⟩ := ClosedField.check_eq_some hsome
    exact ⟨_, _, hchecks⟩

/-- The bytes of a message. -/
theorem encode_fresh_iff {m : Message} {n : Nat} {out : Bytes} :
    m.encode (List.replicate m.encodedLen 0) = .ok (n, out) ↔
      n = m.encodedLen ∧ out = m.wireImage := by
  rw [encode_fresh, Except.ok.injEq, Prod.mk.injEq, eq_comm, @eq_comm _ m.wireImage]

/-- Decoding accepts exactly what begins with the encoding of a message, and rejects every
other input for the reason there is: an unknown tag, too few bytes for the kind, or a byte
outside the set of a closed-set field.  A proper part of an encoding has too few bytes. -/
theorem decode_classifies (b : Bytes) :
    ((∃ m, decode b = .ok m) ↔
      ∃ (m : Message) (n : Nat) (out : Bytes),
        m.encode (List.replicate m.encodedLen 0) = .ok (n, out) ∧ out <+: b) ∧
    ((∃ tag, decode b = .error (.unknownMessageType tag)) ↔
      ∃ tag, b.head? = some tag ∧ ∀ m : Message, m.tag ≠ tag) ∧
    ((∃ need got, decode b = .error (.truncated need got)) ↔
      b = [] ∨ ∃ m : Message, b.head? = some m.tag ∧ b.length < m.encodedLen) ∧
    ((∃ field code, decode b = .error (.invalidEnumCode field code)) ↔
      ∃ m : Message, b.head? = some m.tag ∧ m.encodedLen ≤ b.length ∧
        ∃ f ∈ m.closedFields, ¬ f.Holds b.tail) ∧
    (∀ (m : Message) (n : Nat) (out : Bytes),
      m.encode (List.replicate m.encodedLen 0) = .ok (n, out) → b <+: out → b ≠ out →
        ∃ need got, decode b = .error (.truncated need got)) := by
  have hverdict := verdict b
  refine ⟨⟨?_, ?_⟩, ⟨?_, ?_⟩, ⟨?_, ?_⟩, ⟨?_, ?_⟩, ?_⟩
  · rintro ⟨m, hm⟩
    exact ⟨m, _, _, m.encode_fresh, (decode_eq_ok.mp hm).2⟩
  · rintro ⟨m, n, out, henc, hpre⟩
    obtain ⟨-, rfl⟩ := encode_fresh_iff.mp henc
    exact ⟨_, decode_eq_ok.mpr ⟨m.fitsWire_onWire, by rwa [wireImage_onWire]⟩⟩
  · rintro ⟨tag, heq⟩
    rw [heq] at hverdict
    cases hverdict with
    | unknown hhead hunknown => exact ⟨tag, hhead, hunknown⟩
  · rintro ⟨tag, hhead, hunknown⟩
    rw [cons_tail_of_head? hhead, decode]
    exact ⟨tag, decodeKind_of_unknown hunknown _⟩
  · rintro ⟨need, got, heq⟩
    rw [heq] at hverdict
    cases hverdict with
    | empty hnil => exact .inl hnil
    | short hhead hlen => exact .inr ⟨_, hhead, hlen⟩
  · rintro (rfl | ⟨m, hhead, hlen⟩)
    · exact ⟨1, 0, rfl⟩
    · exact ⟨_, _, decode_short hhead hlen⟩
  · rintro ⟨field, code, heq⟩
    rw [heq] at hverdict
    cases hverdict with
    | wrong hhead hlen hf hbad => exact ⟨_, hhead, hlen, _, hf, hbad⟩
  · rintro ⟨m, hhead, hlen, hbad⟩
    exact decode_wrong hhead hlen hbad
  · rintro m n out henc hpre hne
    obtain ⟨-, rfl⟩ := encode_fresh_iff.mp henc
    cases b with
    | nil => exact ⟨1, 0, rfl⟩
    | cons tag body =>
        have hlt : (tag :: body).length < m.wireImage.length :=
          lt_of_le_of_ne hpre.length_le fun heq => hne (hpre.eq_of_length heq)
        rw [wireImage_length] at hlt
        have htag : tag = m.tag := (List.cons_prefix_cons.mp hpre).1
        exact ⟨_, _, decode_short (congrArg some htag) hlt⟩

/-- The first five bytes of a delete are too few. -/
theorem decode_classifies_partOfDelete :
    ∃ need got, decode (sampleDelete.wireImage.take 5) = .error (.truncated need got) :=
  (decode_classifies _).2.2.2.2 sampleDelete _ _ sampleDelete.encode_fresh (List.take_prefix _ _)
    (by decide)

end Message

end Itch
