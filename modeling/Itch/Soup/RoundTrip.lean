import Itch.Lib.TextCut
import Itch.Lib.Word64
import Itch.Soup.Framing

/-!
# Packets survive the wire

A text field is padded with spaces to its width and loses the spaces at both ends when it
is read.  So a field comes back if it is a string that fits its width and has no space at
either end, and a packet comes back if its fields do.  A field with a number is read exactly
if there are only digits between the spaces and the number fits its type.
-/

namespace Itch

open Lib

/-- A string that fits a field of the given width and has no space at either end. -/
structure FitsField (width : Nat) (text : Text) : Prop where
  utf8 : Text.IsUTF8 text
  length_le : text.length ≤ width
  trimmed : Text.Trimmed text

variable {width : Nat} {text : Text}

theorem FitsField.readAnum_padRight (h : FitsField width text) :
    readAnum (padRight text width) = text := by
  have htrim := Text.trimSpaces_pad h.trimmed 0 (width - text.length)
  rw [List.replicate_zero, List.nil_append] at htrim
  rw [readAnum, padRight, List.take_of_length_le h.length_le, htrim, h.utf8.lossy]

theorem padLeft_of_le (h : text.length ≤ width) :
    padLeft text width = List.replicate (width - text.length) 0x20 ++ text := by
  unfold padLeft
  split
  next hge =>
    have heq : text.length = width := le_antisymm h hge
    rw [heq, Nat.sub_self, List.drop_zero, List.replicate_zero, List.nil_append]
  next => rfl

theorem FitsField.readAnum_padLeft (h : FitsField width text) :
    readAnum (padLeft text width) = text := by
  have htrim := Text.trimSpaces_pad h.trimmed (width - text.length) 0
  rw [List.replicate_zero, List.append_nil] at htrim
  rw [readAnum, padLeft_of_le h.length_le, htrim, h.utf8.lossy]

namespace SoupPacket

/-- The text fields of the packet fit. -/
def FieldsFit : SoupPacket → Prop
  | loginRequest req =>
      FitsField 6 req.username ∧ FitsField 10 req.password ∧ FitsField 10 req.requestedSession
  | loginAccepted acc => FitsField 10 acc.session
  | _ => True

/-- The peer reads the packet as it is. -/
theorem FieldsFit.onWire {p : SoupPacket} (h : p.FieldsFit) : p.onWire = p := by
  cases p with
  | loginRequest req =>
      obtain ⟨huser, hpass, hsession⟩ := h
      rw [SoupPacket.onWire, huser.readAnum_padRight, hpass.readAnum_padRight,
        hsession.readAnum_padLeft]
  | loginAccepted acc =>
      have hsession : FitsField 10 acc.session := h
      rw [SoupPacket.onWire, hsession.readAnum_padLeft]
  | _ => rfl

end SoupPacket

namespace SoupCodec

/-- Encoding a packet that fits and whose text fields fit and decoding the bytes returns the
packet, consumes exactly its encoded length and leaves what follows; a longer packet is
refused and the buffer stays as it was. -/
theorem packet_round_trip (p : SoupPacket) (dst rest : Bytes) :
    (p.encodedLen ≤ maxMessageLen → p.FieldsFit →
      ∃ bytes, encode p dst = (.ok (), dst ++ bytes) ∧ bytes.length = p.encodedLen ∧
        decode new (bytes ++ rest) = (.ok (some p), new, rest)) ∧
    (maxMessageLen < p.encodedLen →
      encode p dst = (.error (.frameTooLarge p.encodedLen maxMessageLen), dst)) := by
  constructor
  · intro hfits hfields
    refine ⟨p.frame, ?_, p.length_frame, ?_⟩
    · exact encode_eq hfits dst
    · rw [decode_frame hfits, hfields.onWire]
  · intro hlong
    rw [encode, if_pos hlong]

/-- The login of `joé` with the password `pass word` for the largest sequence number. -/
def sampleLogin : SoupPacket :=
  .loginRequest { username := [0x6a, 0x6f, 0xc3, 0xa9],
                  password := [0x70, 0x61, 0x73, 0x73, 0x20, 0x77, 0x6f, 0x72, 0x64],
                  requestedSession := [], requestedSequence := 0xffffffffffffffff }

/-- A debug packet one byte over the limit. -/
def longDebug : SoupPacket :=
  .debug (List.replicate 1022 0)

theorem encodedLen_longDebug : longDebug.encodedLen = 1025 := by
  rw [SoupPacket.encodedLen, longDebug, SoupPacket.payloadLen, List.length_replicate]

theorem packet_round_trip_sampleLogin :
    (∃ bytes, encode sampleLogin [7] = (.ok (), [7] ++ bytes) ∧ bytes.length = 49 ∧
      decode new (bytes ++ [8]) = (.ok (some sampleLogin), new, [8])) ∧
    encode longDebug [7] =
      (.error (.frameTooLarge longDebug.encodedLen maxMessageLen), [7]) :=
  ⟨(packet_round_trip sampleLogin [7] [8]).1 (by decide)
    ⟨⟨⟨['j', 'o', 'é'], by decide⟩, by decide, by decide, by decide⟩,
      ⟨⟨['p', 'a', 's', 's', ' ', 'w', 'o', 'r', 'd'], by decide⟩, by decide, by decide, by decide⟩,
      ⟨[], rfl⟩, by decide, by decide, by decide⟩,
    (packet_round_trip longDebug [7] []).2 (by rw [encodedLen_longDebug]; decide)⟩

end SoupCodec

/-! ## Numbers -/

/-- A number is read off the digits between the spaces. -/
theorem decodeAsciiU64_eq_ok_iff {field : Bytes} {v : UInt64} :
    decodeAsciiU64 field = .ok v ↔ (∀ b ∈ Text.trimSpaces field, Decimal.isDigit b) ∧
      Decimal.value (Text.trimSpaces field) = v.toNat := by
  have hread (n : Nat) := Decimal.read_eq_ok_iff (n := n) (s := Text.trimSpaces field)
    (show 0 < 2 ^ 64 by decide)
  simp only [Decimal.foldl_push] at hread
  rw [decodeAsciiU64]
  split
  next hempty =>
    rw [List.isEmpty_iff.mp hempty, Except.ok.injEq, Word64.eq_iff]
    exact ⟨fun h => ⟨fun _ hb => absurd hb List.not_mem_nil, h⟩, fun h => h.2⟩
  next =>
    cases hresult : Decimal.read (2 ^ 64) 0 (Text.trimSpaces field) with
    | ok n =>
        obtain ⟨hdigits, hvalue, hlt⟩ := (hread n).mp hresult
        rw [Except.ok.injEq, Word64.eq_iff, Word64.toNat_ofNat hlt, hvalue, and_iff_right hdigits]
    | error b =>
        constructor
        · intro h
          cases h
        · rintro ⟨hdigits, hvalue⟩
          cases hresult.symm.trans ((hread v.toNat).mpr ⟨hdigits, hvalue, v.toNat_lt⟩)

/-- Fields with numbers are read and written exactly. -/
theorem ascii_numbers_exact :
    (∀ field : Bytes, ∃ n t k, field = List.replicate n 0x20 ++ (t ++ List.replicate k 0x20) ∧
      Text.Trimmed t ∧
      ((∃ v, decodeAsciiU64 field = .ok v) ↔
        t = [] ∨ (∀ b ∈ t, Decimal.isDigit b) ∧ Decimal.value t < 2 ^ 64) ∧
      ∀ v, decodeAsciiU64 field = .ok v → v.toNat = if t = [] then 0 else Decimal.value t) ∧
    ∀ v : UInt64, (encodeAsciiU64 v).length = 20 ∧
      (∃ n ds, encodeAsciiU64 v = List.replicate n 0x20 ++ ds ∧ ds ≠ [] ∧
        (∀ b ∈ ds, Decimal.isDigit b) ∧ Decimal.value ds = v.toNat ∧
        (ds.head? = some 0x30 → ds = [0x30])) ∧
      decodeAsciiU64 (encodeAsciiU64 v) = .ok v := by
  refine ⟨fun field => ?_, fun v => ?_⟩
  · obtain ⟨n, k, hfield⟩ := Text.exists_trimSpaces field
    refine ⟨n, Text.trimSpaces field, k, hfield, Text.trimmed_trimSpaces field, ⟨?_, ?_⟩, ?_⟩
    · rintro ⟨v, hv⟩
      obtain ⟨hdigits, hvalue⟩ := decodeAsciiU64_eq_ok_iff.mp hv
      exact .inr ⟨hdigits, hvalue ▸ v.toNat_lt⟩
    · rintro (hempty | ⟨hdigits, hlt⟩)
      · refine ⟨0, decodeAsciiU64_eq_ok_iff.mpr ?_⟩
        rw [hempty]
        exact ⟨nofun, rfl⟩
      · exact ⟨UInt64.ofNat (Decimal.value (Text.trimSpaces field)),
          decodeAsciiU64_eq_ok_iff.mpr ⟨hdigits, (Word64.toNat_ofNat hlt).symm⟩⟩
    · intro v hv
      rw [← (decodeAsciiU64_eq_ok_iff.mp hv).2]
      split
      next hempty => rw [hempty, Decimal.value_nil]
      next => rfl
  · have hwidth : v.toNat < 10 ^ 20 := v.toNat_lt.trans (by decide)
    exact ⟨length_encodeAsciiU64 v, ⟨_, Decimal.digits 20 v.toNat, rfl,
      Decimal.digits_ne_nil hwidth, Decimal.isDigit_of_mem_digits, Decimal.value_digits hwidth,
      Decimal.digits_of_head hwidth⟩, decodeAsciiU64_encodeAsciiU64 v⟩

end Itch
