import Matchbook.Engine.Matching

namespace Matchbook

open BoundedLoop

/-! # Public operations

`run` is the scope every public entry point runs in; the `do…` bodies are the
operations themselves. -/

namespace MatchingEngine

variable {H : Type} [Handler H]

/-- The body, then the trigger pump. `pumping` only keeps a nested `run` from
pumping, which needs deferred events. -/
def run (s : MatchingEngine H) (body : MatchingEngine H → Option (MatchingEngine H × α)) :
    Option (MatchingEngine H × α) := do
  let (s, result) ← body s
  if s.pumping then some (s, result)
  else
    let s ← { s with pumping := true }.pumpStops
    some ({ s with pumping := false }, result)

/-! ## Order entry -/

def enterLimit (s : MatchingEngine H) (side : Side) (price : Price) (qty : Qty)
    (tif : TimeInForce) (owner : OwnerId) (stp : StpPolicy) (peak : Qty) :
    Option (MatchingEngine H × OrderId) :=
  let (id, s) := s.nextId
  let s := s.emit (.accept id side price qty)
  if s.halted then
    if tif ≠ .gtc then some (s.emit (.cancel id), id)
    else some (s.rest id side price qty owner stp peak, id)
  else do
    let short ←
      if tif = .fok then (s.fillable side price qty).map fun sum => decide (sum < qty)
      else some false
    if short then some (s.emit (.cancel id), id)
    else if tif = .postOnly ∧ s.wouldCross side price then some (s.emit (.cancel id), id)
    else
      let s ← s.placeLimit id side price qty tif owner stp peak
      some (s, id)

def doSubmitLimit (s : MatchingEngine H) (side : Side) (price : Price) (qty : Qty)
    (tif : TimeInForce) (owner : OwnerId) (stp : StpPolicy) :
    Option (MatchingEngine H × OrderId) :=
  if ¬ s.inBand price ∨ qty = 0 then some (s.emit (.reject invalidOrderId), invalidOrderId)
  else s.enterLimit side price qty tif owner stp 0

def doSubmitIceberg (s : MatchingEngine H) (side : Side) (price : Price)
    (totalQty display : Qty) (tif : TimeInForce) (owner : OwnerId) (stp : StpPolicy) :
    Option (MatchingEngine H × OrderId) :=
  if ¬ s.inBand price ∨ totalQty = 0 ∨ display = 0 then
    some (s.emit (.reject invalidOrderId), invalidOrderId)
  else s.enterLimit side price totalQty tif owner stp display

def doSubmitMarket (s : MatchingEngine H) (side : Side) (qty : Qty) (owner : OwnerId)
    (stp : StpPolicy) : Option (MatchingEngine H × Qty) :=
  if s.halted then some (s.emit (.reject invalidOrderId), qty)
  else
    let (id, s) := s.nextId
    let s := s.emit (.accept id side 0 qty)
    s.matchMarket id side qty owner stp

def doSubmitStop (s : MatchingEngine H) (side : Side) (stopPrice limitPrice : Price)
    (qty : Qty) (isMarket : Bool) (owner : OwnerId) (stp : StpPolicy) :
    Option (MatchingEngine H × OrderId) :=
  if ¬ s.inBand stopPrice ∨ qty = 0 ∨ (¬ isMarket ∧ ¬ s.inBand limitPrice) then
    some (s.emit (.reject invalidOrderId), invalidOrderId)
  else
    let (id, s) := s.nextId
    let s := s.emit (.accept id side stopPrice qty)
    if ¬ s.halted ∧ s.hasLast ∧ stopTriggered side stopPrice s.lastPx then do
      -- Already through the trigger: it fires at once, under the same accept.
      let s ← s.executeStop id side limitPrice qty isMarket owner stp
      some (s, id)
    else some (s.restStop id side stopPrice limitPrice qty isMarket owner stp, id)

/-! ## Changing open orders -/

def cancelImpl (s : MatchingEngine H) (id : OrderId) : MatchingEngine H × Bool :=
  match s.lookup id with
  | none => (s, false)
  | some o =>
      let s := if (s.mem.nodes o).stopPending then s.removeStop o else s.removeResting o
      ((s.dispose o).emit (.cancel id), true)

def eraseResting (s : MatchingEngine H) (o : Ptr) : MatchingEngine H :=
  (s.removeResting o).dispose o

/-- Take `delta` off an order, an iceberg's hidden reserve first. -/
def doReduce (s : MatchingEngine H) (id : OrderId) (delta : Qty) : MatchingEngine H × Bool :=
  match s.lookup id with
  | none => (s, false)
  | some o =>
      let node := s.mem.nodes o
      let book := node.side.book
      let i := s.idx node.price
      if node.stopPending then (s, false)
      else if node.iceberg then
        let reserve := (s.mem.extra o).reserve
        if node.qty + reserve ≤ delta then (s.eraseResting o, true)
        else
          let fromReserve := if delta < reserve then delta else reserve
          let mem := s.mem.takeReserve book i o fromReserve
          ({ s with mem := mem.takeDisplayed book i o (delta - fromReserve) }, true)
      else if node.qty ≤ delta then (s.eraseResting o, true)
      else ({ s with mem := s.mem.takeDisplayed book i o delta }, true)

def doModify (s : MatchingEngine H) (id : OrderId) (newPrice : Price) (newQty : Qty) :
    Option (MatchingEngine H × Bool) :=
  match s.lookup id with
  | none => some (s, false)
  | some o =>
      let node := s.mem.nodes o
      if node.stopPending ∧ newQty ≠ 0 then some (s, false)
      else if newQty = 0 then some (s.cancelImpl id)
      else if ¬ s.inBand newPrice then some (s, false)
      else
        let extra := s.mem.extra o
        let curTotal := if node.iceberg then node.qty + extra.reserve else node.qty
        let peak := if node.iceberg then extra.peak else 0
        if newPrice = node.price ∧ newQty ≤ curTotal then
          some (s.doReduce id (curTotal - newQty))
        else do
          let s := (s.eraseResting o).emit (.cancel id)
          let s := s.emit (.accept id node.side newPrice newQty)
          let s ← s.placeLimit id node.side newPrice newQty .gtc node.owner node.stp peak
          some (s, true)

/-! ## Auction -/

/-- Consume `f` from the head of a level, displayed part first, then reserve.
A part-consumed iceberg shows a fresh clip and is requeued. Reports whether the
level emptied. -/
def auctionFill (s : MatchingEngine H) (side : Side) (i : Nat) (o : Ptr) (f : Qty)
    (px : Price) : MatchingEngine H × Bool :=
  let book := side.book
  let node := s.mem.nodes o
  let fromDisp := if f < node.qty then f else node.qty
  let s := { s with mem := s.mem.takeDisplayed book i o fromDisp }
  let s := if node.iceberg then
      { s with mem := s.mem.takeReserve book i o (f - fromDisp) } else s
  if node.iceberg ∧ (s.mem.nodes o).qty = 0 ∧ 0 < (s.mem.extra o).reserve then
    let s := { s with mem := s.mem.replenish book i o }
    let s := s.emit (.rest node.id node.side px (s.mem.nodes o).qty)
    ({ s with mem := s.mem.requeue book i o }, false)
  else
    let s := if (s.mem.nodes o).qty = 0 then
        { s with mem := s.mem.dropHead book i o } else s
    (s, (s.mem.levels book i).head.isNone)

def cumulative (qty : Nat → Qty) : Nat → Qty
  | 0 => qty 0
  | k + 1 => cumulative qty k + qty (k + 1)

def levelQty (s : MatchingEngine H) (side : Side) (i : Int) : Qty :=
  let level := s.mem.levels side.book i.toNat
  level.total + level.hidden

def supply (s : MatchingEngine H) (lo : Int) (k : Nat) : Qty :=
  cumulative (fun j => s.levelQty .sell (lo + j)) k

def demand (s : MatchingEngine H) (lo : Int) (n k : Nat) : Qty :=
  cumulative (fun j => s.levelQty .buy (lo + n - 1 - j)) (n - 1 - k)

structure Clearing where
  k : Nat := 0
  exec : Qty := 0
  imbalance : Qty := 0

def improveClearing (s : MatchingEngine H) (lo : Int) (n : Nat) (best : Clearing) (k : Nat) :
    Clearing :=
  let demand := s.demand lo n k
  let supply := s.supply lo k
  let exec := if demand < supply then demand else supply
  let imbalance := if supply < demand then demand - supply else supply - demand
  let better :=
    best.exec < exec ∨
      (exec = best.exec ∧ 0 < exec ∧
        if imbalance ≠ best.imbalance then imbalance < best.imbalance
        else s.hasLast ∧
          (s.min + lo + k - s.lastPx).natAbs < (s.min + lo + best.k - s.lastPx).natAbs)
  if better then { k, exec, imbalance } else best

def crossRound (pIdx : Int) : MatchingEngine H × Qty →
    Option (Turn (MatchingEngine H × Qty) (MatchingEngine H × Qty))
  | (s, crossed) =>
      let bi := s.best .buy
      let ai := s.best .sell
      if pIdx ≤ bi ∧ 0 ≤ ai ∧ ai ≤ pIdx then
        match (s.mem.levels .bids bi.toNat).head, (s.mem.levels .asks ai.toNat).head with
        | some b, some a =>
            let bq := (s.mem.nodes b).qty + s.mem.reserve b
            let aq := (s.mem.nodes a).qty + s.mem.reserve a
            let f := if bq < aq then bq else aq
            let p := s.min + pIdx
            let s := { s with lastPx := p, hasLast := true }
            let s := s.emit (.trade ⟨(s.mem.nodes b).id, (s.mem.nodes a).id, p, f, .buy⟩)
            let (s, emptied) := s.auctionFill .buy bi.toNat b f p
            let s := if emptied then s.vacateBest .buy else s
            let (s, emptied) := s.auctionFill .sell ai.toNat a f p
            let s := if emptied then s.vacateBest .sell else s
            some (.again (s, crossed + f))
        | _, _ => none
      else some (.leave (s, crossed))

def doUncross (s : MatchingEngine H) : Option (MatchingEngine H × Qty) :=
  let lo := s.best .sell
  let hi := s.best .buy
  if hi < 0 ∨ lo < 0 ∨ hi < lo then some (s, 0)
  else
    let n := (hi - lo + 1).toNat
    let clearing := (List.range n).foldl (s.improveClearing lo n) {}
    if clearing.exec = 0 then some (s, 0)
    else loop (crossRound (lo + clearing.k)) (s.mem.orders.size + 1) (s, 0)

/-! ## Entry points -/

def step (s : MatchingEngine H) : Op → Option (MatchingEngine H × Ret)
  | .submitLimit side price qty tif owner stp =>
      (s.run (·.doSubmitLimit side price qty tif owner stp)).map (·.map id .id)
  | .submitMarket side qty owner stp =>
      (s.run (·.doSubmitMarket side qty owner stp)).map (·.map id .qty)
  | .submitIceberg side price totalQty display tif owner stp =>
      (s.run (·.doSubmitIceberg side price totalQty display tif owner stp)).map (·.map id .id)
  | .submitStop side stopPrice qty owner stp =>
      (s.run (·.doSubmitStop side stopPrice 0 qty true owner stp)).map (·.map id .id)
  | .submitStopLimit side stopPrice limitPrice qty owner stp =>
      (s.run (·.doSubmitStop side stopPrice limitPrice qty false owner stp)).map (·.map id .id)
  | .cancel oid => (s.run fun s => some (s.cancelImpl oid)).map (·.map id .ok)
  | .reduce oid delta => (s.run fun s => some (s.doReduce oid delta)).map (·.map id .ok)
  | .modify oid newPrice newQty => (s.run (·.doModify oid newPrice newQty)).map (·.map id .ok)
  | .halt => s.run fun s => some ({ s with halted := true }, .done)
  | .resume => s.run fun s => some ({ s with halted := false }, .done)
  | .uncross => (s.run (·.doUncross)).map (·.map id .qty)

def runOps (s : MatchingEngine H) : List Op → Option (MatchingEngine H × List Ret)
  | [] => some (s, [])
  | op :: ops => do
      let (s, ret) ← s.step op
      let (s, rets) ← s.runOps ops
      some (s, ret :: rets)

end MatchingEngine

end Matchbook
