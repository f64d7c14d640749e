import Itch.Lib.Read
import Itch.Protocol.Codec

/-!
# Replaying a capture

An iterator over the messages of a capture, read from any reader.  A Glimpse capture puts a
two-byte length in front of each message, a raw one holds the messages alone and takes their
lengths from a table.  The offset is a word that wraps, as in a release build.
-/

namespace Itch

open Lib

/-- Wire length of a message by its tag. -/
def messageTotalLen (tag : UInt8) : Option Nat :=
  match Char.ofUInt8 tag with
  | 'S' => some (1 + Encode.bodyLen SystemEvent)
  | 'R' => some (1 + Encode.bodyLen StockDirectory)
  | 'H' => some (1 + Encode.bodyLen StockTradingAction)
  | 'Y' => some (1 + Encode.bodyLen RegShoRestriction)
  | 'L' => some (1 + Encode.bodyLen MarketParticipantPosition)
  | 'V' => some (1 + Encode.bodyLen MwcbDeclineLevel)
  | 'W' => some (1 + Encode.bodyLen MwcbStatus)
  | 'K' => some (1 + Encode.bodyLen IpoQuotingPeriodUpdate)
  | 'A' => some (1 + Encode.bodyLen AddOrder)
  | 'F' => some (1 + Encode.bodyLen AddOrderWithMpid)
  | 'E' => some (1 + Encode.bodyLen OrderExecuted)
  | 'C' => some (1 + Encode.bodyLen OrderExecutedWithPrice)
  | 'X' => some (1 + Encode.bodyLen OrderCancel)
  | 'D' => some (1 + Encode.bodyLen OrderDelete)
  | 'U' => some (1 + Encode.bodyLen OrderReplace)
  | 'P' => some (1 + Encode.bodyLen TradeNonCross)
  | 'Q' => some (1 + Encode.bodyLen CrossTrade)
  | 'B' => some (1 + Encode.bodyLen BrokenTrade)
  | 'I' => some (1 + Encode.bodyLen Noii)
  | 'N' => some (1 + Encode.bodyLen RetailPriceImprovement)
  | _ => none

inductive CaptureFormat where
  /-- Each message after its length. -/
  | glimpse
  /-- The messages one after the other. -/
  | rawBodies
deriving Repr, DecidableEq

inductive ReplayError where
  | io (msg : String)
  | protocol (error : ProtocolError)
  | truncated (offset : UInt64) (msg : String)
  | frameTooLarge (offset : UInt64) (got max : Nat)
deriving Repr, DecidableEq

structure MessageIterator (R : Type) where
  reader : R
  format : CaptureFormat
  /-- Bytes consumed. -/
  offset : UInt64
  buf : Bytes
deriving Repr, DecidableEq

namespace MessageIterator

variable {R : Type} [Read String R]

def new (reader : R) (format : CaptureFormat) : MessageIterator R where
  reader := reader
  format := format
  offset := 0
  buf := List.replicate 1024 0

/-- The end of a read that got all of its bytes. -/
def filled (n : Nat) (it : MessageIterator R) :
    Except ReplayError (Option Bytes) × MessageIterator R :=
  (.ok (some (it.buf.take n)), { it with offset := it.offset + UInt64.ofNat n })

/-- The loop of `read_exact`.  Every turn but the last reads at least one byte, so `n` turns
are enough. -/
def readLoop (n : Nat) :
    Nat → Nat → MessageIterator R → Except ReplayError (Option Bytes) × MessageIterator R
  | 0, _, it => it.filled n
  | turns + 1, readTotal, it =>
      if readTotal < n then
        match Read.read it.reader (n - readTotal) with
        | (.error e, reader) => (.error (.io e), { it with reader := reader })
        | (.ok bytes, reader) =>
            let it := { it with reader := reader, buf := overwrite it.buf readTotal bytes }
            if bytes.length = 0 then
              if readTotal = 0 then (.ok none, it)
              else
                let off := it.offset + UInt64.ofNat readTotal
                (.error (.truncated off s!"expected {n - readTotal} bytes, got EOF"),
                  { it with offset := off })
            else readLoop n turns (readTotal + bytes.length) it
      else it.filled n

/-- Read exactly `n` bytes; `none` is the end of the input before the first of them. -/
def readExact (n : Nat) (it : MessageIterator R) :
    Except ReplayError (Option Bytes) × MessageIterator R :=
  let it :=
    if it.buf.length < n then
      { it with buf := it.buf ++ List.replicate (n - it.buf.length) 0 }
    else it
  readLoop n n 0 it

/-- Largest message that is read. -/
def maxMessageLen : Nat := 1024

/-- `Message::decode` with its error as a replay error. -/
def decodeMessage (frame : Bytes) : Except ReplayError Message :=
  match Message.decode frame with
  | .ok msg => .ok msg
  | .error e => .error (.protocol e)

def nextGlimpse (it : MessageIterator R) :
    Option (Except ReplayError Message) × MessageIterator R :=
  match it.readExact 2 with
  | (.error e, it) => (some (.error e), it)
  | (.ok none, it) => (none, it)
  | (.ok (some lenBytes), it) =>
      let len := ofBE lenBytes
      if len = 0 then (none, it)
      else if len > maxMessageLen then
        (some (.error (.frameTooLarge it.offset len maxMessageLen)), it)
      else
        match it.readExact len with
        | (.error e, it) => (some (.error e), it)
        | (.ok none, it) =>
            (some (.error (.truncated it.offset
              s!"expected {len} bytes after length prefix, got EOF")), it)
        | (.ok (some frame), it) => (some (decodeMessage frame), it)

/-- Two upper-case hexadecimal digits. -/
def hex (b : UInt8) : String :=
  String.ofList [(Nat.digitChar (b.toNat / 16)).toUpper, (Nat.digitChar (b.toNat % 16)).toUpper]

def nextRawBodies (it : MessageIterator R) :
    Option (Except ReplayError Message) × MessageIterator R :=
  match it.readExact 1 with
  | (.error e, it) => (some (.error e), it)
  | (.ok none, it) => (none, it)
  | (.ok (some tagSlice), it) =>
      let tag := tagSlice.headD 0
      match messageTotalLen tag with
      | none => (some (.error (.protocol (.unknownMessageType tag))), it)
      | some total =>
          if total > maxMessageLen then
            (some (.error (.frameTooLarge it.offset total maxMessageLen)), it)
          else
            let remaining := total - 1
            match it.readExact remaining with
            | (.error e, it) => (some (.error e), it)
            | (.ok none, it) =>
                (some (.error (.truncated it.offset
                  s!"expected {remaining} body bytes after tag 0x{hex tag}, got EOF")), it)
            | (.ok (some body), it) => (some (decodeMessage (tag :: body)), it)

def next (it : MessageIterator R) : Option (Except ReplayError Message) × MessageIterator R :=
  match it.format with
  | .glimpse => it.nextGlimpse
  | .rawBodies => it.nextRawBodies

end MessageIterator

end Itch
