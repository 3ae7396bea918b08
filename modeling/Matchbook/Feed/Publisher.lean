import Matchbook.Engine.Calls
import Matchbook.Feed.ItchEncode

namespace Matchbook

/-! # The publisher

Order entry in front of one engine, and the messages that describe its displayed book. The
sink of the engine holds all that the publisher keeps beside the engine. -/

namespace Itch

/-- What the publisher hands to the encoder, before it is cut to the widths of the fields.
The counters of the source have 64 bits. Here they count on, and `encoding` cuts them. -/
inductive Publication
  | add (seq ref : Nat) (side : Side) (displayed : Qty) (price : Price)
  | execute (seq ref : Nat) (qty : Qty) (number : Nat)
  | executePx (seq ref : Nat) (part : Qty) (number : Nat) (price : Price)
  | cancel (seq ref : Nat) (qty : Qty)
  | delete (seq ref : Nat)
  | cross (seq : Nat) (total : Qty) (price : Price) (number : Nat)
  | action (seq : Nat) (state : UInt8)
deriving DecidableEq

namespace Publication

def encoding (stock : Stock) : Publication → Encoding
  | add seq ref side displayed price =>
      .add (UInt64.ofNat seq) (UInt64.ofNat ref)
        (if side = .buy then 'B'.toUInt8 else 'S'.toUInt8) displayed.toUInt32 stock
        (UInt32.ofInt price)
  | execute seq ref qty number =>
      .execute (UInt64.ofNat seq) (UInt64.ofNat ref) qty.toUInt32 (UInt64.ofNat number)
  | executePx seq ref part number price =>
      .executePx (UInt64.ofNat seq) (UInt64.ofNat ref) part.toUInt32 (UInt64.ofNat number)
        (UInt32.ofInt price) true
  | cancel seq ref qty => .cancel (UInt64.ofNat seq) (UInt64.ofNat ref) qty.toUInt32
  | delete seq ref => .delete (UInt64.ofNat seq) (UInt64.ofNat ref)
  | cross seq total price number =>
      .cross (UInt64.ofNat seq) total stock (UInt32.ofInt price) (UInt64.ofNat number)
        'O'.toUInt8
  | action seq state => .action (UInt64.ofNat seq) stock state

end Publication

theorem toNat_ofInt {price : Price} (low : 0 ≤ price) (high : price < 2 ^ 32) :
    ((UInt32.ofInt price).toNat : Int) = price := by
  rw [UInt32.ofInt, UInt32.toNat_ofNat', Int.emod_eq_of_lt low high]
  have small : price.toNat < 2 ^ 32 := by lia
  rw [Nat.mod_eq_of_lt small, Int.toNat_of_nonneg low]

/-- A symbol cut or filled up with blanks to eight bytes. -/
def Stock.ofBytes (stock : List UInt8) : Stock where
  bytes := (stock.takeWhile (· ≠ 0) ++ List.replicate 8 ' '.toUInt8).take 8
  eight := by simp

/-! ## The sink -/

structure Ref where
  ref : Nat := 0
  displayed : Qty := 0
deriving DecidableEq

def Ref.less (r : Ref) (q : Qty) : Ref :=
  let displayed := r.displayed - q
  { ref := if displayed = 0 then 0 else r.ref, displayed }

structure Sink where
  stock : Stock
  /-- The displayed state of each engine id. -/
  refs : Array Ref
  out : List Publication
  nextRef : Nat
  seq : Nat
  matchNumber : Nat
  inCross : Bool
  sawBookEvent : Bool

namespace Sink

def refAt (sink : Sink) (id : OrderId) : Ref := sink.refs.getD id {}

def slot (sink : Sink) (id : OrderId) : Option Ref :=
  if (sink.refAt id).ref ≠ 0 then some (sink.refAt id) else none

def setRef (sink : Sink) (id : OrderId) (ref : Ref) : Sink :=
  { sink with refs := sink.refs.setIfInBounds id ref }

def publish (sink : Sink) (message : Nat → Publication) : Sink :=
  { sink with out := sink.out ++ [message sink.seq], seq := sink.seq + 1 }

def print (sink : Sink) (message : Nat → Nat → Publication) : Sink :=
  let number := sink.matchNumber + 1
  { sink with matchNumber := number }.publish fun seq => message seq number

def evRest (sink : Sink) (id : OrderId) (side : Side) (price : Price) (displayed : Qty) : Sink :=
  let refs := sink.refs ++ Array.replicate (id + 1 - sink.refs.size) ({} : Ref)
  let ref := sink.nextRef
  { sink with
    sawBookEvent := true
    refs := refs.setIfInBounds id ⟨ref, displayed⟩
    nextRef := ref + 1 }.publish fun seq => .add seq ref side displayed price

def execCross (sink : Sink) (id : OrderId) (fill : Qty) (px : Price) : Sink :=
  match sink.slot id with
  | none => sink
  | some r =>
      let part := if fill < r.displayed then fill else r.displayed
      if part = 0 then sink
      else
        let sink := sink.print fun seq number => .executePx seq r.ref part number px
        sink.setRef id (r.less part)

def evTrade (sink : Sink) (t : Trade) : Sink :=
  if sink.inCross then (sink.execCross t.taker t.qty t.price).execCross t.maker t.qty t.price
  else
    match sink.slot t.maker with
    | none => sink
    | some r =>
        let sink := sink.print fun seq number => .execute seq r.ref t.qty number
        sink.setRef t.maker (r.less (if t.qty < r.displayed then t.qty else r.displayed))

def evCancel (sink : Sink) (id : OrderId) : Sink :=
  let sink := { sink with sawBookEvent := true }
  match sink.slot id with
  | none => sink
  | some r => (sink.publish fun seq => .delete seq r.ref).setRef id {}

instance : Handler Sink where
  on sink
    | .accept .. => sink
    | .reject _ => sink
    | .trade t => sink.evTrade t
    | .cancel id => sink.evCancel id
    | .rest id side price displayed => sink.evRest id side price displayed

def emitAction (sink : Sink) (state : UInt8) : Sink := sink.publish fun seq => .action seq state

end Sink

/-! ## Order entry -/

structure Publisher where
  engine : MatchingEngine Sink

namespace Publisher

def new (band : Band) (stock : List UInt8) (expectedOrders : Nat) : Publisher where
  engine := .new band
    { stock := .ofBytes stock
      refs := #[{}]
      out := []
      nextRef := 1
      seq := 1
      matchNumber := 0
      inCross := false
      sawBookEvent := false }
    expectedOrders

abbrev sink (p : Publisher) : Sink := p.engine.h

def setSink (p : Publisher) (sink : Sink) : Publisher :=
  { p with engine := { p.engine with h := sink } }

def publishShrink (p : Publisher) (id : OrderId) (before : Qty) : Publisher :=
  match p.sink.slot id with
  | none => p
  | some r =>
      let after := p.engine.orderQty id
      if after = 0 then
        p.setSink ((p.sink.publish fun seq => .delete seq r.ref).setRef id {})
      else if after < before then
        p.setSink ((p.sink.publish fun seq => .cancel seq r.ref (before - after)).setRef id
          { r with displayed := after })
      else p

def modify (p : Publisher) (id : OrderId) (newPrice : Price) (newQty : Qty) :
    Option (Publisher × Bool) := do
  let before := p.engine.orderQty id
  let p := p.setSink { p.sink with sawBookEvent := false }
  let (engine, ok) ← p.engine.modify id newPrice newQty
  let p := { p with engine }
  some (if ok ∧ ¬ p.sink.sawBookEvent ∧ 0 < before then p.publishShrink id before else p, ok)

def reduce (p : Publisher) (id : OrderId) (delta : Qty) : Option (Publisher × Bool) := do
  let before := p.engine.orderQty id
  let (engine, ok) ← p.engine.reduce id delta
  let p := { p with engine }
  some (if ok ∧ 0 < before then p.publishShrink id before else p, ok)

def halt (p : Publisher) : Option Publisher := do
  let engine ← (p.setSink (p.sink.emitAction 'H'.toUInt8)).engine.halt
  some { p with engine }

def resume (p : Publisher) : Option Publisher := do
  let engine ← (p.setSink (p.sink.emitAction 'T'.toUInt8)).engine.resume
  some { p with engine }

def emitCross (p : Publisher) (total : Qty) : Publisher :=
  p.setSink (p.sink.print fun seq number => .cross seq total p.engine.lastPx number)

def uncross (p : Publisher) : Option (Publisher × Qty) := do
  let (engine, total) ← (p.setSink { p.sink with inCross := true }).engine.uncross
  let p := { p with engine }
  let p := p.setSink { p.sink with inCross := false }
  some (if 0 < total then p.emitCross total else p, total)

def step (p : Publisher) : Op → Option (Publisher × Ret)
  | .modify oid newPrice newQty => (p.modify oid newPrice newQty).map (·.map id .ok)
  | .reduce oid delta => (p.reduce oid delta).map (·.map id .ok)
  | .halt => p.halt.map (·, .done)
  | .resume => p.resume.map (·, .done)
  | .uncross => p.uncross.map (·.map id .qty)
  | op => (p.engine.step op).map (·.map (fun engine => { p with engine }) id)

/-! ## Sessions -/

def drain (p : Publisher) : Publisher × List Publication :=
  (p.setSink { p.sink with out := [] }, p.sink.out)

def takeMessages (p : Publisher) : Publisher × List (List UInt8) :=
  p.drain.map id fun out => out.map fun message => (message.encoding p.sink.stock).body

def appendStream (p : Publisher) : Publisher × List UInt8 :=
  p.drain.map id fun out => out.flatMap fun message => frame (message.encoding p.sink.stock).body

/-- A call of a session: an operation, or one that takes the messages away. -/
inductive Call
  | op (op : Op)
  | drain

def call (p : Publisher) : Call → Option (Publisher × List Publication)
  | .op op => (p.step op).map (·.map id fun _ => [])
  | .drain => some p.drain

def run (p : Publisher) : List Call → Option (Publisher × List Publication)
  | [] => some (p, [])
  | call :: calls => do
      let (p, taken) ← p.call call
      let (p, later) ← p.run calls
      some (p, taken ++ later)

end Publisher

end Itch

end Matchbook
