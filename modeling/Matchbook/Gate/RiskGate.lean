import Matchbook.Engine.Operations

namespace Matchbook

/-! # The risk gate

Pre-trade checks in front of the engine. Its sink is the handler of the engine: it keeps
the positions of the owners and forwards every event to the user. -/

structure RiskLimits where
  maxOrderQty : Qty := 0
  maxNotional : Int64 := 0
  priceCollar : Int64 := 0
  maxOpenOrders : Nat := 0
  maxPosition : Int64 := 0
  maxMessages : UInt64 := 0
  allowMarket : Bool := true

inductive RiskReject
  | none
  | killed
  | msgBudget
  | marketBlocked
  | orderQty
  | notional
  | collar
  | openOrders
  | position
deriving DecidableEq, Repr

/-! ## The sink -/

structure Sink (H : Type) where
  user : H
  /-- The owner of each engine id. -/
  ownerOf : Array OwnerId
  /-- Net filled quantity of each owner, buys positive. -/
  positions : OwnerId → Int64
  pendingOwner : OwnerId

namespace Sink

variable {H : Type}

/-- `owner_of_[id]`, with 0 beyond its end. -/
def ownerAt (sink : Sink H) (id : OrderId) : OwnerId := sink.ownerOf.getD id 0

def noteAccept (sink : Sink H) (id : OrderId) : Sink H :=
  let ownerOf := sink.ownerOf ++ Array.replicate (id + 1 - sink.ownerOf.size) 0
  { sink with ownerOf := ownerOf.setIfInBounds id sink.pendingOwner }

def addPosition (sink : Sink H) (owner : OwnerId) (delta : Int64) : Sink H :=
  if owner ≠ 0 then
    { sink with
      positions := Function.update sink.positions owner (sink.positions owner + delta) }
  else sink

def noteTrade (sink : Sink H) (t : Trade) : Sink H :=
  let q := t.qty.toInt64
  let takerDelta := if t.takerSide = .buy then q else -q
  let takerOwner := sink.ownerAt t.taker
  let makerOwner := sink.ownerAt t.maker
  (sink.addPosition takerOwner takerDelta).addPosition makerOwner (-takerDelta)

def note (sink : Sink H) : Event → Sink H
  | .accept id _ _ _ => sink.noteAccept id
  | .trade t => sink.noteTrade t
  | _ => sink

instance [Handler H] : Handler (Sink H) where
  on sink event := { sink.note event with user := Handler.on sink.user event }

end Sink

/-! ## The gate -/

structure RiskGate (H : Type) where
  limits : RiskLimits
  engine : MatchingEngine (Sink H)
  rejectCount : RiskReject → UInt64
  windowMsgs : UInt64
  lastReject : RiskReject
  killed : Bool

namespace RiskGate

variable {H : Type}

def new (band : Band) (user : H) (limits : RiskLimits) (expectedOrders : Nat) : RiskGate H where
  limits := limits
  engine := .new band { user, ownerOf := #[0], positions := fun _ => 0, pendingOwner := 0 }
    expectedOrders
  rejectCount _ := 0
  windowMsgs := 0
  lastReject := .none
  killed := false

def position (g : RiskGate H) (owner : OwnerId) : Int64 := g.engine.h.positions owner

def fail (g : RiskGate H) (r : RiskReject) : RiskGate H :=
  { g with lastReject := r, rejectCount := Function.update g.rejectCount r (g.rejectCount r + 1) }

def countMessage (g : RiskGate H) : RiskGate H := { g with windowMsgs := g.windowMsgs + 1 }

/-! ### Checks -/

def overBudget (g : RiskGate H) : Bool :=
  g.limits.maxMessages ≠ 0 ∧ g.limits.maxMessages < g.windowMsgs

def checkQty (g : RiskGate H) (q : Qty) : Bool :=
  g.limits.maxOrderQty = 0 ∨ q ≤ g.limits.maxOrderQty

def checkNotional (g : RiskGate H) (px : Price) (q : Qty) : Bool :=
  g.limits.maxNotional = 0 ∨ px ≤ 0 ∨ q ≤ (g.limits.maxNotional / Int64.ofInt px).toUInt64

def checkCollar (g : RiskGate H) (px : Price) : Bool :=
  if g.limits.priceCollar = 0 ∨ g.engine.hasLast = false then true
  else
    let d := Int64.ofInt px - Int64.ofInt g.engine.lastPx
    let d := if d < 0 then -d else d
    d ≤ g.limits.priceCollar

def checkOpenOrders (g : RiskGate H) : Bool :=
  g.limits.maxOpenOrders = 0 ∨ g.engine.openOrders < g.limits.maxOpenOrders

def checkPosition (g : RiskGate H) (owner : OwnerId) (side : Side) (q : Qty) : Bool :=
  if g.limits.maxPosition = 0 ∨ owner = 0 then true
  else
    let worst := g.position owner + if side = .buy then q.toInt64 else -q.toInt64
    let worst := if worst < 0 then -worst else worst
    worst ≤ g.limits.maxPosition

def refusal (g : RiskGate H) (owner : OwnerId) (side : Side) (qty : Qty) (px : Price)
    (checksPrice : Bool) : Option RiskReject :=
  if g.killed then some .killed
  else if g.overBudget then some .msgBudget
  else if ¬ g.checkQty qty then some .orderQty
  else if checksPrice ∧ ¬ g.checkNotional px qty then some .notional
  else if checksPrice ∧ ¬ g.checkCollar px then some .collar
  else if ¬ g.checkOpenOrders then some .openOrders
  else if ¬ g.checkPosition owner side qty then some .position
  else none

def marketRefusal (g : RiskGate H) (owner : OwnerId) (side : Side) (qty : Qty) :
    Option RiskReject :=
  if g.killed then some .killed
  else if g.overBudget then some .msgBudget
  else if ¬ g.limits.allowMarket then some .marketBlocked
  else if ¬ g.checkQty qty then some .orderQty
  else if g.engine.hasLast ∧ ¬ g.checkNotional g.engine.lastPx qty then some .notional
  else if ¬ g.checkOpenOrders then some .openOrders
  else if ¬ g.checkPosition owner side qty then some .position
  else none

def modifyRefusal (g : RiskGate H) (newPrice : Price) (newQty : Qty) : Option RiskReject :=
  if g.killed then some .killed
  else if g.overBudget then some .msgBudget
  else if newQty ≠ 0 ∧ ¬ g.checkQty newQty then some .orderQty
  else if newQty ≠ 0 ∧ ¬ g.checkNotional newPrice newQty then some .notional
  else if newQty ≠ 0 ∧ ¬ g.checkCollar newPrice then some .collar
  else none

/-! ### Calls -/

section calls

variable [Handler H]

def forward (g : RiskGate H) (op : Op) : Option (RiskGate H × Ret) := do
  let (engine, ret) ← g.engine.step op
  some ({ g with engine }, ret)

def setPendingOwner (g : RiskGate H) (owner : OwnerId) : RiskGate H :=
  { g with engine := { g.engine with h := { g.engine.h with pendingOwner := owner } } }

def enter (g : RiskGate H) (refusal : Option RiskReject) (refused : Ret) (owner : OwnerId)
    (op : Op) : Option (RiskGate H × Ret) :=
  match refusal with
  | some r => some (g.fail r, refused)
  | none => (g.setPendingOwner owner).forward op

def submitLimit (g : RiskGate H) (side : Side) (price : Price) (qty : Qty) (tif : TimeInForce)
    (owner : OwnerId) (stp : StpPolicy) : Option (RiskGate H × Ret) :=
  let g := g.countMessage
  g.enter (g.refusal owner side qty price true) (.id invalidOrderId) owner
    (.submitLimit side price qty tif owner stp)

def submitMarket (g : RiskGate H) (side : Side) (qty : Qty) (owner : OwnerId)
    (stp : StpPolicy) : Option (RiskGate H × Ret) :=
  let g := g.countMessage
  g.enter (g.marketRefusal owner side qty) (.qty qty) owner (.submitMarket side qty owner stp)

def submitIceberg (g : RiskGate H) (side : Side) (price : Price) (totalQty display : Qty)
    (tif : TimeInForce) (owner : OwnerId) (stp : StpPolicy) : Option (RiskGate H × Ret) :=
  let g := g.countMessage
  g.enter (g.refusal owner side totalQty price true) (.id invalidOrderId) owner
    (.submitIceberg side price totalQty display tif owner stp)

def submitStop (g : RiskGate H) (side : Side) (stopPrice : Price) (qty : Qty) (owner : OwnerId)
    (stp : StpPolicy) : Option (RiskGate H × Ret) :=
  let g := g.countMessage
  g.enter (g.refusal owner side qty 0 false) (.id invalidOrderId) owner
    (.submitStop side stopPrice qty owner stp)

def submitStopLimit (g : RiskGate H) (side : Side) (stopPrice limitPrice : Price) (qty : Qty)
    (owner : OwnerId) (stp : StpPolicy) : Option (RiskGate H × Ret) :=
  let g := g.countMessage
  g.enter (g.refusal owner side qty limitPrice true) (.id invalidOrderId) owner
    (.submitStopLimit side stopPrice limitPrice qty owner stp)

def cancel (g : RiskGate H) (id : OrderId) : Option (RiskGate H × Ret) :=
  g.countMessage.forward (.cancel id)

def reduce (g : RiskGate H) (id : OrderId) (delta : Qty) : Option (RiskGate H × Ret) :=
  g.countMessage.forward (.reduce id delta)

def modify (g : RiskGate H) (id : OrderId) (newPrice : Price) (newQty : Qty) :
    Option (RiskGate H × Ret) :=
  let g := g.countMessage
  match g.modifyRefusal newPrice newQty with
  | some r => some (g.fail r, .ok false)
  | none => g.forward (.modify id newPrice newQty)

def cancelAll (g : RiskGate H) : List OrderId → Option (RiskGate H)
  | [] => some g
  | id :: ids => do
      let (g, _) ← g.forward (.cancel id)
      g.cancelAll ids

def killAndCancelAll (g : RiskGate H) : Option (RiskGate H) := do
  let g := { g with killed := true }
  let bids ← g.engine.visitOrders .buy
  let asks ← g.engine.visitOrders .sell
  let stops ← g.engine.visitStops
  g.cancelAll (bids.map Prod.fst ++ asks.map Prod.fst ++ stops)

end calls

inductive Call
  | order (op : Op)
  | setLimits (limits : RiskLimits)
  | newWindow
  | kill
  | clearKill
  | killAndCancelAll

def step [Handler H] (g : RiskGate H) : Call → Option (RiskGate H × Ret)
  | .order (.submitLimit side price qty tif owner stp) =>
      g.submitLimit side price qty tif owner stp
  | .order (.submitMarket side qty owner stp) => g.submitMarket side qty owner stp
  | .order (.submitIceberg side price totalQty display tif owner stp) =>
      g.submitIceberg side price totalQty display tif owner stp
  | .order (.submitStop side stopPrice qty owner stp) => g.submitStop side stopPrice qty owner stp
  | .order (.submitStopLimit side stopPrice limitPrice qty owner stp) =>
      g.submitStopLimit side stopPrice limitPrice qty owner stp
  | .order (.cancel id) => g.cancel id
  | .order (.reduce id delta) => g.reduce id delta
  | .order (.modify id newPrice newQty) => g.modify id newPrice newQty
  | .order .halt => g.forward .halt
  | .order .resume => g.forward .resume
  | .order .uncross => g.forward .uncross
  | .setLimits limits => some ({ g with limits }, .done)
  | .newWindow => some ({ g with windowMsgs := 0 }, .done)
  | .kill => some ({ g with killed := true }, .done)
  | .clearKill => some ({ g with killed := false }, .done)
  | .killAndCancelAll => g.killAndCancelAll.map fun g => (g, .done)

end RiskGate

end Matchbook
