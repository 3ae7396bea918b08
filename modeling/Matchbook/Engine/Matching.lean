import Matchbook.Engine.State

namespace Matchbook

open BoundedLoop

/-! # Matching, resting and stop triggers -/

namespace MatchingEngine

variable {H : Type}

/-- Rounds that are enough for a sweep of `qty`: each one fills at least one
unit or takes an order off the book. -/
def sweepBound (s : MatchingEngine H) (qty : Qty) : Nat :=
  qty.toNat + s.mem.orders.size + 1

/-! ## Best levels -/

def occupy (s : MatchingEngine H) (side : Side) (i : Nat) : MatchingEngine H :=
  let s := s.setMap side.book ((s.maps side.book).set i)
  match side with
  | .buy => if s.best .buy < i then s.setBest .buy i else s
  | .sell => if s.best .sell < 0 ∨ (i : Int) < s.best .sell then s.setBest .sell i else s

def vacate (s : MatchingEngine H) (side : Side) (i : Nat) : MatchingEngine H :=
  let s := s.setMap side.book ((s.maps side.book).clear i)
  if s.best side = i then s.setBest side (s.nextLevel side (s.best side)) else s

def vacateBest (s : MatchingEngine H) (side : Side) : MatchingEngine H :=
  let s := s.setMap side.book ((s.maps side.book).clear (s.best side).toNat)
  s.setBest side (s.nextLevel side (s.best side))

/-! ## Resting -/

def rest [Handler H] (s : MatchingEngine H) (id : OrderId) (side : Side) (price : Price)
    (qty : Qty) (owner : OwnerId) (stp : StpPolicy) (peak : Qty) : MatchingEngine H :=
  let (o, pool) := s.mem.pool.alloc
  let mem := { s.mem with pool }
  let i := s.idx price
  let plain : Order :=
    { id, price, qty, ext := none, owner, side, stp, iceberg := false,
      stopPending := false, stopMarket := false }
  let mem :=
    if peak ≠ 0 ∧ peak < qty then
      let (ext, mem) := mem.allocExtra
      let mem := mem.setNode o { plain with qty := peak, ext := some ext, iceberg := true }
      let mem := mem.setExtra o { mem.extra o with reserve := qty - peak, peak }
      let level := mem.levels side.book i
      mem.setLevel side.book i { level with hidden := level.hidden + (qty - peak) }
    else mem.setNode o plain
  let first := (mem.levels side.book i).tail.isNone
  let s := { s with mem := mem.append side.book i o }
  let s := if first then s.occupy side i else s
  s.emit (.rest id side price (s.mem.nodes o).qty)

def removeResting (s : MatchingEngine H) (o : Ptr) : MatchingEngine H :=
  let node := s.mem.nodes o
  let i := s.idx node.price
  let s := { s with mem := s.mem.unlinkOrder node.side.book i o }
  if (s.mem.levels node.side.book i).head.isNone then s.vacate node.side i else s

def dispose (s : MatchingEngine H) (o : Ptr) : MatchingEngine H :=
  { s with mem := (s.mem.forget (s.mem.nodes o).id).release o }

/-! ## Sweeping a level -/

def cancelHead [Handler H] (s : MatchingEngine H) (book : BookName) (i : Nat) (o : Ptr) :
    MatchingEngine H × Option Ptr :=
  let level := s.mem.levels book i
  let level := { level with
    total := level.total - (s.mem.nodes o).qty
    hidden := level.hidden - s.mem.reserve o }
  let next := s.mem.links.next o
  let s := s.emit (.cancel (s.mem.nodes o).id)
  ({ s with mem := (s.mem.setLevel book i level).dropHead book i o }, next)

def sweepRound [Handler H] (maker : Side) (i : Nat) (taker : OrderId) (px : Price)
    (takerSide : Side) (takerOwner : OwnerId) (stp : StpPolicy) :
    MatchingEngine H × Option Ptr × Qty →
      Option (Turn (MatchingEngine H × Option Ptr × Qty) (MatchingEngine H × Qty))
  | (s, none, qty) => some (.leave (s, qty))
  | (s, some o, qty) =>
      if qty = 0 then some (.leave (s, qty))
      else if takerOwner ≠ 0 ∧ (s.mem.nodes o).owner = takerOwner then
        let (s, cursor) :=
          if stp ≠ .cancelTaker then s.cancelHead maker.book i o else (s, some o)
        if stp = .cancelMaker then some (.again (s, cursor, qty))
        else some (.leave ({ s with stpHalt := true }, qty))
      else
        let node := s.mem.nodes o
        let fill := if qty < node.qty then qty else node.qty
        let s := { s with
          mem := s.mem.takeDisplayed maker.book i o fill
          lastPx := px
          hasLast := true }
        let qty := qty - fill
        let s := s.emit (.trade ⟨taker, node.id, px, fill, takerSide⟩)
        if (s.mem.nodes o).qty = 0 then
          if node.iceberg ∧ 0 < (s.mem.extra o).reserve then
            let s := { s with mem := s.mem.replenish maker.book i o }
            let s := s.emit (.rest node.id node.side px (s.mem.nodes o).qty)
            -- Alone at the level the order stays put and is swept again.
            let s := { s with mem := s.mem.requeue maker.book i o }
            some (.again (s, (s.mem.levels maker.book i).head, qty))
          else
            let next := s.mem.links.next o
            some (.again ({ s with mem := s.mem.dropHead maker.book i o }, next, qty))
        else some (.again (s, some o, qty))

/-- Fill the resting orders of a level first in, first out. Sets `stpHalt` if
self-trade prevention stops the taker. Returns its remaining quantity. -/
def sweepLevel [Handler H] (s : MatchingEngine H) (maker : Side) (i : Nat)
    (taker : OrderId) (qty : Qty) (px : Price) (takerSide : Side)
    (takerOwner : OwnerId) (stp : StpPolicy) : Option (MatchingEngine H × Qty) :=
  loop (sweepRound maker i taker px takerSide takerOwner stp) (s.sweepBound qty)
    (s, (s.mem.levels maker.book i).head, qty)

/-! ## Matching -/

/-- Level `i` is one an order of `side` with that limit may take. -/
def withinLimit (side : Side) (i limitIdx : Int) : Prop :=
  match side with
  | .buy => i ≤ limitIdx
  | .sell => limitIdx ≤ i

instance (side : Side) (i limitIdx : Int) : Decidable (withinLimit side i limitIdx) := by
  unfold withinLimit
  cases side <;> exact inferInstance

def matchRound [Handler H] (side : Side) (taker : OrderId) (limitIdx : Int)
    (owner : OwnerId) (stp : StpPolicy) : MatchingEngine H × Qty →
      Option (Turn (MatchingEngine H × Qty) (MatchingEngine H × Qty))
  | (s, qty) =>
      let maker := side.opposite
      let i := s.best maker
      if 0 < qty ∧ 0 ≤ i ∧ withinLimit side i limitIdx then do
        let (s, qty) ← s.sweepLevel maker i.toNat taker qty (s.min + i) side owner stp
        let s :=
          if (s.mem.levels maker.book i.toNat).head.isNone then s.vacateBest maker else s
        if s.stpHalt then some (.leave (s, qty)) else some (.again (s, qty))
      else some (.leave (s, qty))

def matchSide [Handler H] (side : Side) (s : MatchingEngine H) (taker : OrderId)
    (qty : Qty) (limitIdx : Int) (owner : OwnerId) (stp : StpPolicy) :
    Option (MatchingEngine H × Qty) :=
  loop (matchRound side taker limitIdx owner stp) (s.sweepBound qty) (s, qty)

def matchBuy [Handler H] := matchSide (H := H) .buy

def matchSell [Handler H] := matchSide (H := H) .sell

/-- Would a limit at `price` take liquidity right now? -/
def wouldCross (s : MatchingEngine H) (side : Side) (price : Price) : Prop :=
  match side with
  | .buy => 0 ≤ s.best .sell ∧ s.min + s.best .sell ≤ price
  | .sell => 0 ≤ s.best .buy ∧ price ≤ s.min + s.best .buy

instance (s : MatchingEngine H) (side : Side) (price : Price) :
    Decidable (s.wouldCross side price) := by
  unfold wouldCross
  cases side <;> exact inferInstance

/-- Executable quantity on the other side within the limit, hidden reserve
included, counted until `want` is reached. -/
def fillable (s : MatchingEngine H) (side : Side) (price : Price) (want : Qty) :
    Option Qty :=
  let maker := side.opposite
  loop (fun (i, sum) => some <|
      if 0 ≤ i ∧ withinLimit side i (s.idx price) ∧ sum < want then
        let level := s.mem.levels maker.book i.toNat
        .again (s.nextLevel maker i, sum + (level.total + level.hidden))
      else .leave sum)
    (s.nLevels + 1) (s.best maker, 0)

def placeLimit [Handler H] (s : MatchingEngine H) (id : OrderId) (side : Side)
    (price : Price) (qty : Qty) (tif : TimeInForce) (owner : OwnerId)
    (stp : StpPolicy) (peak : Qty) : Option (MatchingEngine H) :=
  if s.halted then some (s.rest id side price qty owner stp peak)
  else do
    let limitIdx : Int := s.idx price
    let (s, remaining) ← match side with
      | .buy => s.matchBuy id qty limitIdx owner stp
      | .sell => s.matchSell id qty limitIdx owner stp
    if s.stpHalt then
      let s := { s with stpHalt := false }
      some (if 0 < remaining then s.emit (.cancel id) else s)
    else if 0 < remaining then
      if tif = .ioc ∨ tif = .fok then some (s.emit (.cancel id))
      else some (s.rest id side price remaining owner stp peak)
    else some s

def matchMarket [Handler H] (s : MatchingEngine H) (id : OrderId) (side : Side)
    (qty : Qty) (owner : OwnerId) (stp : StpPolicy) : Option (MatchingEngine H × Qty) := do
  let (s, remaining) ← match side with
    | .buy => s.matchBuy id qty ((s.nLevels : Int) - 1) owner stp
    | .sell => s.matchSell id qty 0 owner stp
  some ({ s with stpHalt := false }, remaining)

/-! ## Stops -/

def stopTriggered (side : Side) (stop last : Price) : Prop :=
  match side with
  | .buy => stop ≤ last
  | .sell => last ≤ stop

instance (side : Side) (stop last : Price) : Decidable (stopTriggered side stop last) := by
  unfold stopTriggered
  cases side <;> exact inferInstance

def ensureStopBooks (s : MatchingEngine H) : MatchingEngine H :=
  if s.stopBooks then s
  else
    let levels : BookName → Nat → Level
      | .stopBids => fun _ => {}
      | .stopAsks => fun _ => {}
      | book => s.mem.levels book
    let maps : BookName → LevelBitmap
      | .stopBids => LevelBitmap.new s.nLevels
      | .stopAsks => LevelBitmap.new s.nLevels
      | book => s.maps book
    { s with mem := { s.mem with levels }, maps, stopBooks := true }

def restStop (s : MatchingEngine H) (id : OrderId) (side : Side)
    (stopPrice limitPrice : Price) (qty : Qty) (isMarket : Bool) (owner : OwnerId)
    (stp : StpPolicy) : MatchingEngine H :=
  let s := s.ensureStopBooks
  let (o, pool) := s.mem.pool.alloc
  let mem := { s.mem with pool }
  let i := s.idx stopPrice
  let plain : Order :=
    { id, price := stopPrice, qty, ext := none, owner, side, stp, iceberg := false,
      stopPending := true, stopMarket := isMarket }
  let mem :=
    if isMarket then mem.setNode o plain
    else
      let (ext, mem) := mem.allocExtra
      let mem := mem.setNode o { plain with ext := some ext }
      mem.setExtra o { mem.extra o with limit := limitPrice }
  let first := (mem.levels side.stopBook i).tail.isNone
  let s := { s with mem := mem.append side.stopBook i o, pendingStops := s.pendingStops + 1 }
  if first then s.setMap side.stopBook ((s.maps side.stopBook).set i) else s

def removeStop (s : MatchingEngine H) (o : Ptr) : MatchingEngine H :=
  let node := s.mem.nodes o
  let i := s.idx node.price
  let s := { s with
    mem := s.mem.unlinkOrder node.side.stopBook i o
    pendingStops := s.pendingStops - 1 }
  if (s.mem.levels node.side.stopBook i).head.isNone then
    s.setMap node.side.stopBook ((s.maps node.side.stopBook).clear i)
  else s

def nextTriggeredStop (s : MatchingEngine H) : Option Ptr :=
  if s.hasLast ∧ s.stopBooks then
    let i := (s.maps .stopBids).findGe 0
    if 0 ≤ i ∧ s.min + i ≤ s.lastPx then (s.mem.levels .stopBids i.toNat).head
    else
      let i := (s.maps .stopAsks).findLe ((s.nLevels : Int) - 1)
      if 0 ≤ i ∧ s.lastPx ≤ s.min + i then (s.mem.levels .stopAsks i.toNat).head
      else none
  else none

def executeStop [Handler H] (s : MatchingEngine H) (id : OrderId) (side : Side)
    (limitPrice : Price) (qty : Qty) (isMarket : Bool) (owner : OwnerId)
    (stp : StpPolicy) : Option (MatchingEngine H) :=
  if isMarket then do
    let (s, _) ← s.matchMarket id side qty owner stp
    some s
  else s.placeLimit id side limitPrice qty .gtc owner stp 0

def pumpRound [Handler H] (s : MatchingEngine H) :
    Option (Turn (MatchingEngine H) (MatchingEngine H)) :=
  match s.nextTriggeredStop with
  | none => some (.leave s)
  | some o => do
      let node := s.mem.nodes o
      let limitPrice := if node.stopMarket then 0 else (s.mem.extra o).limit
      let s := (s.removeStop o).dispose o
      let s ← s.executeStop node.id node.side limitPrice node.qty node.stopMarket
        node.owner node.stp
      some (.again s)

def pumpStops [Handler H] (s : MatchingEngine H) : Option (MatchingEngine H) :=
  if s.halted then some s else loop pumpRound (s.pendingStops + 1) s

end MatchingEngine

end Matchbook
