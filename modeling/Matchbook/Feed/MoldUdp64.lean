import Matchbook.Feed.ItchParser

namespace Matchbook

/-! # MoldUDP64 framing

A packet is a header of 20 bytes and length-prefixed blocks. A packet without
blocks is a heartbeat, or ends the session if its count says so. -/

namespace Mold

open Itch (be16 be64)

def headerSize : Nat := 20

def endOfSession : UInt16 := 0xFFFF

structure Header where
  /-- The 10-byte field and a terminating NUL. -/
  session : List UInt8
  seq : UInt64
  count : UInt16
deriving DecidableEq, Repr

/-- What the callback is given: a number, and where the payload lies. -/
structure Block where
  seq : UInt64
  off : Nat
  len : Nat
deriving DecidableEq, Repr

def Block.payload (block : Block) (pkt : List UInt8) : List UInt8 :=
  (pkt.drop block.off).take block.len

def decodeBlocks (pkt : List UInt8) (seq : UInt64) : Nat → UInt16 → Nat → List Block × Bool
  | 0, _, _ => ([], true)
  | left + 1, i, off =>
    if off + 2 > pkt.length then ([], false)
    else
      let mlen := (be16 (pkt.drop off)).toNat
      let off := off + 2
      if off + mlen > pkt.length then ([], false)
      else
        let (blocks, complete) := decodeBlocks pkt seq left (i + 1) (off + mlen)
        (⟨seq + i.toUInt64, off, mlen⟩ :: blocks, complete)

structure Decoded where
  /-- Filled in unless the header is truncated. -/
  hdr : Option Header
  blocks : List Block
  result : Int
deriving DecidableEq, Repr

def decode (pkt : List UInt8) : Decoded :=
  if pkt.length < headerSize then ⟨none, [], -1⟩
  else
    let hdr : Header :=
      { session := pkt.take 10 ++ [0]
        seq := be64 (pkt.drop 10)
        count := be16 (pkt.drop 18) }
    if hdr.count = endOfSession then ⟨some hdr, [], 0⟩
    else
      let (blocks, complete) := decodeBlocks pkt hdr.seq hdr.count.toNat 0 headerSize
      ⟨some hdr, blocks, if complete then hdr.count.toNat else -1⟩

def put16 (v : UInt16) : List UInt8 := [(v >>> 8).toUInt8, v.toUInt8]

def put64 (v : UInt64) : List UInt8 :=
  [56, 48, 40, 32, 24, 16, 8, 0].map fun shift : UInt64 => (v >>> shift).toUInt8

def padSession (session : List UInt8) : List UInt8 :=
  (session.takeWhile (· ≠ 0) ++ List.replicate 10 ' '.toUInt8).take 10

def putBlocks (msgs : List (List UInt8)) : List UInt8 :=
  msgs.flatMap fun m => put16 (UInt16.ofNat m.length) ++ m

/-- The packet appended to `out`. -/
def encode (session : List UInt8) (seq : UInt64) (msgs : List (List UInt8)) : List UInt8 :=
  padSession session ++ put64 seq ++ put16 (UInt16.ofNat msgs.length) ++ putBlocks msgs

def encodeEnd (session : List UInt8) (seq : UInt64) : List UInt8 :=
  ((encode session seq []).set 18 0xFF).set 19 0xFF

/-! ## Sequence and gap accounting -/

structure SequenceTracker where
  expected : UInt64 := 1
  gapMsgs : UInt64 := 0
deriving DecidableEq, Repr

def SequenceTracker.onPacket (tracker : SequenceTracker) (seq : UInt64) (count : UInt16) :
    UInt16 × SequenceTracker :=
  let tracker :=
    if seq > tracker.expected then
      { expected := seq, gapMsgs := tracker.gapMsgs + (seq - tracker.expected) }
    else tracker
  let skip := tracker.expected - seq
  if skip ≥ count.toUInt64 then (count, tracker)  -- stale resend, nothing new
  else (skip.toUInt16, { tracker with expected := seq + count.toUInt64 })

end Mold

end Matchbook
