import Matchbook.Feed.MoldUdp64

namespace Matchbook

/-! # Multicast sender and receiver -/

namespace Mcast

open Mold

/-- `MATCHBOOK` -/
def session : List UInt8 := [77, 65, 84, 67, 72, 66, 79, 79, 75]

/-! ## The sender -/

def mtuBudget : Nat := 1400

structure Sender where
  seq : UInt64 := 1
  batch : List (List UInt8) := []
  batchBytes : Nat := 0
  /-- What `sendto` was given. -/
  sent : List (List UInt8) := []

def Sender.flush (sender : Sender) : Sender :=
  if sender.batch.isEmpty then sender
  else
    { seq := sender.seq + UInt64.ofNat sender.batch.length
      batch := []
      batchBytes := 0
      sent := sender.sent ++ [encode session sender.seq sender.batch] }

def Sender.push (sender : Sender) (body : List UInt8) : Sender :=
  let sender :=
    if sender.batchBytes + body.length + 2 > mtuBudget - headerSize then sender.flush else sender
  { sender with
    batchBytes := sender.batchBytes + (body.length + 2)
    batch := sender.batch ++ [body] }

/-- The packets of `run_send`. The end of the session is sent three times. -/
def runSend (bodies : List (List UInt8)) : List (List UInt8) :=
  let sender := (bodies.foldl Sender.push {}).flush
  sender.sent ++ List.replicate 3 (encodeEnd session sender.seq)

/-- Batches under consecutive sequence numbers, and the end of the session. -/
def packets (seq : UInt64) : List (List (List UInt8)) → List (List UInt8)
  | [] => [encodeEnd session seq]
  | batch :: batches =>
    encode session seq batch :: packets (seq + UInt64.ofNat batch.length) batches

/-- The batches a sender can frame. -/
structure Sendable (batches : List (List (List UInt8))) : Prop where
  nonempty : ∀ batch ∈ batches, batch ≠ []
  few : ∀ batch ∈ batches, batch.length < 65535
  short : ∀ batch ∈ batches, ∀ m ∈ batch, m.length ≤ 65535

/-! ## The receiver

The loop of `recv_thread`. A datagram is shorter than the buffer it is received
into. What timeouts do is left out: they only end the loop. -/

structure Receiver where
  tracker : SequenceTracker := {}
  packets : UInt64 := 0
  messages : UInt64 := 0
  dupBlocks : UInt64 := 0
  malformed : UInt64 := 0
  eos : Bool := false
  /-- The blocks that were not skipped, under their numbers. -/
  applied : List (UInt64 × List UInt8) := []
  /-- What went into the ring. -/
  pushed : List Itch.Message := []
deriving DecidableEq, Repr

/-- The symbol as the thread compares it: `%-8s`, cut at eight characters. -/
def padSymbol (symbol : List UInt8) : List UInt8 :=
  (symbol.takeWhile (· ≠ 0) ++ List.replicate 8 ' '.toUInt8).take 8

def wanted (padded : List UInt8) (m : Itch.Message) : Bool :=
  ¬ (m.type = .add ∧ m.stock ≠ padded)

namespace Receiver

def applyBlock (padded : List UInt8) (receiver : Receiver) (seq : UInt64) (body : List UInt8) :
    Receiver :=
  let receiver := { receiver with applied := receiver.applied ++ [(seq, body)] }
  match Itch.parse body {} with
  | none => receiver
  | some m =>
    if wanted padded m then { receiver with pushed := receiver.pushed ++ [m] } else receiver

/-- The callback of `decode`, with its counter of blocks. -/
def onBlock (padded pkt : List UInt8) (skip : UInt16) (state : UInt16 × Receiver)
    (block : Block) : UInt16 × Receiver :=
  if state.1 < skip then (state.1 + 1, state.2)  -- already seen
  else (state.1 + 1, state.2.applyBlock padded block.seq (block.payload pkt))

def onDatagram (padded : List UInt8) (receiver : Receiver) (pkt : List UInt8) : Receiver :=
  if pkt.length < headerSize then { receiver with malformed := receiver.malformed + 1 }
  else
    let seq := Itch.be64 (pkt.drop 10)
    let count := Itch.be16 (pkt.drop 18)
    if count = endOfSession ∨ count = 0 then
      { receiver with
        tracker := (receiver.tracker.onPacket seq 0).2
        packets := receiver.packets + 1
        eos := if count = endOfSession then true else receiver.eos }
    else
      let (skip, tracker) := receiver.tracker.onPacket seq count
      let decoded := decode pkt
      let receiver :=
        (decoded.blocks.foldl (onBlock padded pkt skip) (0, { receiver with tracker })).2
      if decoded.result < 0 then { receiver with malformed := receiver.malformed + 1 }
      else
        { receiver with
          packets := receiver.packets + 1
          messages := receiver.messages + (UInt64.ofInt decoded.result - skip.toUInt64)
          dupBlocks := receiver.dupBlocks + skip.toUInt64 }

/-- The loop: nothing is received after the end of the session. -/
def receive (padded : List UInt8) (receiver : Receiver) (datagrams : List (List UInt8)) :
    Receiver :=
  datagrams.foldl
    (fun receiver pkt => if receiver.eos then receiver else receiver.onDatagram padded pkt)
    receiver

end Receiver

end Mcast

end Matchbook
