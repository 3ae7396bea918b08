import Matchbook.Foundation.BoundedLoop
import Matchbook.Foundation.OrderedMap
import Matchbook.Types

namespace Matchbook

open BoundedLoop OrderedMap

/-! # Reference engine

The deliberately naive engine the fast one is tested against: an ordered map of
queues for each side, a list of stops, and linear scans. -/

structure RO where
  id : OrderId
  side : Side
  /-- Resting: limit. Pending stop: trigger. -/
  price : Price
  /-- Displayed quantity. -/
  qty : Qty
  reserve : Qty := 0
  peak : Qty := 0
  owner : OwnerId := 0
  stp : StpPolicy := .cancelTaker
  stopMarket : Bool := false
  stopLimit : Price := 0
deriving DecidableEq, Repr

def RO.total (o : RO) : Qty := o.qty + o.reserve

def RO.clip (o : RO) : Qty := if o.peak < o.reserve then o.peak else o.reserve

def RO.replenished (o : RO) : RO := { o with qty := o.clip, reserve := o.reserve - o.clip }

abbrev LevelMap := Std.ExtTreeMap Price (List RO) compare

structure ReferenceEngine (H : Type) where
  min : Price
  max : Price
  h : H
  book : Side → LevelMap
  /-- Insertion order. -/
  stops : List RO
  nextId : OrderId
  last : Price
  hasLast : Bool
  halted : Bool

namespace ReferenceEngine

variable {H : Type}

def new (band : Band) (h : H) : ReferenceEngine H where
  min := band.min
  max := band.max
  h := h
  book _ := ∅
  stops := []
  nextId := 1
  last := 0
  hasLast := false
  halted := false

def emit [Handler H] (r : ReferenceEngine H) (event : Event) : ReferenceEngine H :=
  { r with h := Handler.on r.h event }

def inBand (r : ReferenceEngine H) (p : Price) : Prop := r.min ≤ p ∧ p ≤ r.max

instance (r : ReferenceEngine H) (p : Price) : Decidable (r.inBand p) := by
  unfold inBand
  exact inferInstance

def level (r : ReferenceEngine H) (side : Side) (price : Price) : List RO :=
  (r.book side).getD price []

def setBook (r : ReferenceEngine H) (side : Side) (book : LevelMap) : ReferenceEngine H :=
  { r with book := Function.update r.book side book }

def setLevel (r : ReferenceEngine H) (side : Side) (price : Price) (level : List RO) :
    ReferenceEngine H :=
  r.setBook side ((r.book side).insert price level)

def setLast (r : ReferenceEngine H) (px : Price) : ReferenceEngine H :=
  { r with last := px, hasLast := true }

def eraseIfEmpty (r : ReferenceEngine H) (side : Side) (price : Price) :
    ReferenceEngine H :=
  if r.level side price = [] then r.setBook side ((r.book side).erase price) else r

/-! ## Reading the book -/

def bestBid (r : ReferenceEngine H) : Option Price := last? (r.book .buy)

def bestAsk (r : ReferenceEngine H) : Option Price := first? (r.book .sell)

def best (r : ReferenceEngine H) : Side → Option Price
  | .buy => r.bestBid
  | .sell => r.bestAsk

def depthAt (r : ReferenceEngine H) (side : Side) (price : Price) : Qty :=
  (r.level side price).foldl (fun sum o => sum + o.qty) 0

def hiddenAt (r : ReferenceEngine H) (side : Side) (price : Price) : Qty :=
  (r.level side price).foldl (fun sum o => sum + o.reserve) 0

def orderCountAt (r : ReferenceEngine H) (side : Side) (price : Price) : UInt32 :=
  UInt32.ofNat (r.level side price).length

def openOrders (r : ReferenceEngine H) : Nat :=
  [Side.buy, Side.sell].foldl
    (fun n side => (r.book side).foldl (fun n _ level => n + level.length) n)
    r.stops.length

def levels (r : ReferenceEngine H) : Side → List (Price × List RO)
  | .buy => (r.book .buy).toList.reverse
  | .sell => (r.book .sell).toList

/-! ## Finding an order -/

def splitAtId (id : OrderId) : List RO → Option (List RO × RO × List RO)
  | [] => none
  | o :: rest =>
      if o.id = id then some ([], o, rest)
      else (splitAtId id rest).map fun (front, found, back) => (o :: front, found, back)

def findResting (r : ReferenceEngine H) (id : OrderId) :
    Option (Side × Price × List RO × RO × List RO) :=
  [Side.buy, Side.sell].findSome? fun side =>
    (r.book side).toList.findSome? fun (px, level) =>
      (splitAtId id level).map fun place => (side, px, place)

def findStop (r : ReferenceEngine H) (id : OrderId) : Option (List RO × RO × List RO) :=
  splitAtId id r.stops

def eraseResting (r : ReferenceEngine H) (id : OrderId) : ReferenceEngine H :=
  match r.findResting id with
  | some (side, px, front, _, back) =>
      (r.setLevel side px (front ++ back)).eraseIfEmpty side px
  | none => r

/-! ## Matching and resting -/

def wouldCross (r : ReferenceEngine H) (side : Side) (price : Price) : Prop :=
  ∃ px ∈ r.best side.opposite, side.opposite.Reaches px price

instance (r : ReferenceEngine H) (side : Side) (price : Price) :
    Decidable (r.wouldCross side price) := by
  unfold wouldCross
  exact inferInstance

def fillableFrom (maker : Side) (price : Price) (want : Qty) :
    List (Price × List RO) → Qty → Qty
  | [], sum => sum
  | (px, level) :: worse, sum =>
      if ¬ maker.Reaches px price ∨ want ≤ sum then sum
      else fillableFrom maker price want worse
        (level.foldl (fun sum o => sum + (o.qty + o.reserve)) sum)

def fillable (r : ReferenceEngine H) (side : Side) (price : Price) (want : Qty) : Qty :=
  fillableFrom side.opposite price want (r.levels side.opposite) 0

def rest [Handler H] (r : ReferenceEngine H) (id : OrderId) (side : Side) (price : Price)
    (qty reserve peak : Qty) (owner : OwnerId) (stp : StpPolicy) : ReferenceEngine H :=
  let o : RO := { id, side, price, qty, reserve, peak, owner, stp }
  (r.setLevel side price (r.level side price ++ [o])).emit (.rest id side price qty)

def restShaped [Handler H] (r : ReferenceEngine H) (id : OrderId) (side : Side)
    (price : Price) (qty peak : Qty) (owner : OwnerId) (stp : StpPolicy) :
    ReferenceEngine H :=
  if peak ≠ 0 ∧ peak < qty then r.rest id side price peak (qty - peak) peak owner stp
  else r.rest id side price qty 0 0 owner stp

def sweepBound (r : ReferenceEngine H) (qty : Qty) : Nat :=
  qty.toNat + r.nextId + 1

/-- One round of the loop over the level at `px`; the flag in its result says
that self-trade prevention stopped the taker. -/
def sweepRound [Handler H] (maker : Side) (px : Price) (taker : OrderId) (side : Side)
    (owner : OwnerId) (stp : StpPolicy) : ReferenceEngine H × Qty →
      Option (Turn (ReferenceEngine H × Qty) (ReferenceEngine H × Qty × Bool))
  | (r, qty) =>
      match r.level maker px with
      | [] => some (.leave (r, qty, false))
      | o :: rest =>
          if qty = 0 then some (.leave (r, qty, false))
          else if owner ≠ 0 ∧ o.owner = owner then
            let r :=
              if stp ≠ .cancelTaker then (r.setLevel maker px rest).emit (.cancel o.id)
              else r
            if stp = .cancelMaker then some (.again (r, qty))
            else some (.leave (r, qty, true))
          else
            let fill := if qty < o.qty then qty else o.qty
            let o := { o with qty := o.qty - fill }
            let qty := qty - fill
            let r := (r.setLevel maker px (o :: rest)).setLast px
            let r := r.emit (.trade ⟨taker, o.id, px, fill, side⟩)
            if o.qty = 0 then
              if 0 < o.reserve then
                let r := r.emit (.rest o.id o.side px o.clip)
                some (.again (r.setLevel maker px (rest ++ [o.replenished]), qty))
              else some (.again (r.setLevel maker px rest, qty))
            else some (.again (r, qty))

def matchRound [Handler H] (taker : OrderId) (side : Side) (limit : Option Price)
    (owner : OwnerId) (stp : StpPolicy) : ReferenceEngine H × Qty →
      Option (Turn (ReferenceEngine H × Qty) (ReferenceEngine H × Qty × Bool))
  | (r, qty) =>
      let maker := side.opposite
      match r.best maker with
      | none => some (.leave (r, qty, false))
      | some px =>
          if qty = 0 ∨ ¬ maker.Within px limit then
            some (.leave (r, qty, false))
          else do
            let (r, qty, haltFlag) ←
              loop (sweepRound maker px taker side owner stp) (r.sweepBound qty) (r, qty)
            let r := r.eraseIfEmpty maker px
            if haltFlag then some (.leave (r, qty, true)) else some (.again (r, qty))

def matchOrder [Handler H] (r : ReferenceEngine H) (taker : OrderId) (side : Side)
    (qty : Qty) (limit : Option Price) (owner : OwnerId) (stp : StpPolicy) :
    Option (ReferenceEngine H × Qty × Bool) :=
  loop (matchRound taker side limit owner stp) (r.sweepBound qty) (r, qty)

def place [Handler H] (r : ReferenceEngine H) (id : OrderId) (side : Side) (price : Price)
    (qty : Qty) (tif : TimeInForce) (owner : OwnerId) (stp : StpPolicy) (peak : Qty) :
    Option (ReferenceEngine H) :=
  if r.halted then some (r.restShaped id side price qty peak owner stp)
  else do
    let (r, remaining, haltFlag) ← r.matchOrder id side qty (some price) owner stp
    if haltFlag then some (if 0 < remaining then r.emit (.cancel id) else r)
    else if 0 < remaining then
      if tif = .ioc ∨ tif = .fok then some (r.emit (.cancel id))
      else some (r.restShaped id side price remaining peak owner stp)
    else some r

/-! ## Stops -/

def triggered (r : ReferenceEngine H) (side : Side) (stop : Price) : Prop :=
  match side with
  | .buy => stop ≤ r.last
  | .sell => r.last ≤ stop

instance (r : ReferenceEngine H) (side : Side) (stop : Price) :
    Decidable (r.triggered side stop) := by
  unfold triggered
  cases side <;> exact inferInstance

def fire [Handler H] (r : ReferenceEngine H) (id : OrderId) (side : Side)
    (limitPrice : Price) (qty : Qty) (isMarket : Bool) (owner : OwnerId)
    (stp : StpPolicy) : Option (ReferenceEngine H) :=
  if isMarket then do
    let (r, _, _) ← r.matchOrder id side qty none owner stp
    some r
  else r.place id side limitPrice qty .gtc owner stp 0

def triggersBefore (side : Side) (price picked : Price) : Prop :=
  match side with
  | .buy => price < picked
  | .sell => picked < price

instance (side : Side) (price picked : Price) :
    Decidable (triggersBefore side price picked) := by
  unfold triggersBefore
  cases side <;> exact inferInstance

def pickFrom (r : ReferenceEngine H) (side : Side) :
    List (RO × Nat) → Option (RO × Nat) → Option (RO × Nat)
  | [], pick => pick
  | (o, i) :: rest, pick =>
      if o.side ≠ side ∨ ¬ r.triggered o.side o.price then r.pickFrom side rest pick
      else match pick with
        | none => r.pickFrom side rest (some (o, i))
        | some (picked, j) =>
            if triggersBefore side o.price picked.price then
              r.pickFrom side rest (some (o, i))
            else r.pickFrom side rest (some (picked, j))

def pick (r : ReferenceEngine H) : Option (RO × Nat) :=
  (r.pickFrom .buy r.stops.zipIdx none).or (r.pickFrom .sell r.stops.zipIdx none)

def pumpRound [Handler H] (r : ReferenceEngine H) :
    Option (Turn (ReferenceEngine H) (ReferenceEngine H)) :=
  match r.pick with
  | none => some (.leave r)
  | some (o, i) => do
      let r := { r with stops := r.stops.eraseIdx i }
      let r ← r.fire o.id o.side o.stopLimit o.qty o.stopMarket o.owner o.stp
      some (.again r)

def pump [Handler H] (r : ReferenceEngine H) : Option (ReferenceEngine H) :=
  if r.halted ∨ ¬ r.hasLast then some r else loop pumpRound (r.stops.length + 1) r

/-! ## Operations -/

def enter [Handler H] (r : ReferenceEngine H) (side : Side) (price : Price) (qty : Qty)
    (tif : TimeInForce) (owner : OwnerId) (stp : StpPolicy) (peak : Qty) :
    Option (ReferenceEngine H × OrderId) :=
  let id := r.nextId
  let r := { r with nextId := r.nextId + 1 }.emit (.accept id side price qty)
  if r.halted then
    if tif ≠ .gtc then some (r.emit (.cancel id), id)
    else some (r.restShaped id side price qty peak owner stp, id)
  else if tif = .fok ∧ r.fillable side price qty < qty then
    some (r.emit (.cancel id), id)
  else if tif = .postOnly ∧ r.wouldCross side price then some (r.emit (.cancel id), id)
  else do
    let r ← r.place id side price qty tif owner stp peak
    let r ← r.pump
    some (r, id)

def submitLimit [Handler H] (r : ReferenceEngine H) (side : Side) (price : Price)
    (qty : Qty) (tif : TimeInForce) (owner : OwnerId) (stp : StpPolicy) :
    Option (ReferenceEngine H × OrderId) :=
  if ¬ r.inBand price ∨ qty = 0 then some (r.emit (.reject invalidOrderId), invalidOrderId)
  else r.enter side price qty tif owner stp 0

def submitMarket [Handler H] (r : ReferenceEngine H) (side : Side) (qty : Qty)
    (owner : OwnerId) (stp : StpPolicy) : Option (ReferenceEngine H × Qty) :=
  if r.halted then some (r.emit (.reject invalidOrderId), qty)
  else do
    let id := r.nextId
    let r := { r with nextId := r.nextId + 1 }.emit (.accept id side 0 qty)
    let (r, remaining, _) ← r.matchOrder id side qty none owner stp
    let r ← r.pump
    some (r, remaining)

def submitIceberg [Handler H] (r : ReferenceEngine H) (side : Side) (price : Price)
    (totalQty display : Qty) (tif : TimeInForce) (owner : OwnerId) (stp : StpPolicy) :
    Option (ReferenceEngine H × OrderId) :=
  if ¬ r.inBand price ∨ totalQty = 0 ∨ display = 0 then
    some (r.emit (.reject invalidOrderId), invalidOrderId)
  else r.enter side price totalQty tif owner stp display

def doStop [Handler H] (r : ReferenceEngine H) (side : Side)
    (stopPrice limitPrice : Price) (qty : Qty) (isMarket : Bool) (owner : OwnerId)
    (stp : StpPolicy) : Option (ReferenceEngine H × OrderId) :=
  if ¬ r.inBand stopPrice ∨ qty = 0 ∨ (¬ isMarket ∧ ¬ r.inBand limitPrice) then
    some (r.emit (.reject invalidOrderId), invalidOrderId)
  else
    let id := r.nextId
    let r := { r with nextId := r.nextId + 1 }.emit (.accept id side stopPrice qty)
    if ¬ r.halted ∧ r.hasLast ∧ r.triggered side stopPrice then do
      let r ← r.fire id side limitPrice qty isMarket owner stp
      let r ← r.pump
      some (r, id)
    else do
      let o : RO :=
        { id, side, price := stopPrice, qty, owner, stp, stopMarket := isMarket,
          stopLimit := limitPrice }
      let r ← { r with stops := r.stops ++ [o] }.pump
      some (r, id)

def cancel [Handler H] (r : ReferenceEngine H) (id : OrderId) :
    Option (ReferenceEngine H × Bool) :=
  match r.findResting id with
  | some (side, px, front, _, back) => do
      let r := (r.setLevel side px (front ++ back)).eraseIfEmpty side px
      let r ← (r.emit (.cancel id)).pump
      some (r, true)
  | none =>
      match r.findStop id with
      | some (front, _, back) => do
          let r ← ({ r with stops := front ++ back }.emit (.cancel id)).pump
          some (r, true)
      | none => some (r, false)

def reduce [Handler H] (r : ReferenceEngine H) (id : OrderId) (delta : Qty) :
    Option (ReferenceEngine H × Bool) :=
  match r.findResting id with
  | none => some (r, false)
  | some (side, px, front, o, back) => do
      let r :=
        if o.qty + o.reserve ≤ delta then r.eraseResting id
        else
          let fromReserve := if delta < o.reserve then delta else o.reserve
          let o := { o with
            reserve := o.reserve - fromReserve
            qty := o.qty - (delta - fromReserve) }
          r.setLevel side px (front ++ o :: back)
      let r ← r.pump
      some (r, true)

def modify [Handler H] (r : ReferenceEngine H) (id : OrderId) (newPrice : Price)
    (newQty : Qty) : Option (ReferenceEngine H × Bool) :=
  if (r.findStop id).isSome ∧ newQty ≠ 0 then some (r, false)
  else if newQty = 0 then r.cancel id
  else if ¬ r.inBand newPrice then some (r, false)
  else
    match r.findResting id with
    | none => some (r, false)
    | some (_, _, _, o, _) =>
        let curTotal := o.qty + o.reserve
        if newPrice = o.price ∧ newQty ≤ curTotal then r.reduce id (curTotal - newQty)
        else do
          let r := (r.eraseResting id).emit (.cancel id)
          let r := r.emit (.accept id o.side newPrice newQty)
          let r ← r.place id o.side newPrice newQty .gtc o.owner o.stp o.peak
          let r ← r.pump
          some (r, true)

/-! ## Auction -/

def executable (r : ReferenceEngine H) (side : Side) (p : Price) : Qty :=
  (r.book side).foldl
    (fun sum px level =>
      if side.Reaches px p then sum + level.foldl (fun q o => q + (o.qty + o.reserve)) 0
      else sum) 0

structure BestCross where
  exec : Qty := 0
  imbalance : Qty := 0
  clearing : Price

def considerClearing (r : ReferenceEngine H) (best : BestCross) (p : Price) : BestCross :=
  let demand := r.executable .buy p
  let supply := r.executable .sell p
  let exec := if demand < supply then demand else supply
  let imbalance := if supply < demand then demand - supply else supply - demand
  let better :=
    best.exec < exec ∨
      (exec = best.exec ∧ 0 < exec ∧
        if imbalance ≠ best.imbalance then imbalance < best.imbalance
        else r.hasLast ∧ (p - r.last).natAbs < (best.clearing - r.last).natAbs)
  if better then { exec, imbalance, clearing := p } else best

/-- Consume `f` from the front order: displayed first, then reserve; a
part-consumed iceberg shows its next clip and is requeued. -/
def crossConsume [Handler H] (r : ReferenceEngine H) (side : Side) (bookPx : Price)
    (f : Qty) (px : Price) : ReferenceEngine H :=
  match r.level side bookPx with
  | [] => r
  | o :: rest =>
      let fromDisp := if f < o.qty then f else o.qty
      let o := { o with
        qty := o.qty - fromDisp
        reserve := o.reserve - (f - fromDisp) }
      if o.qty = 0 ∧ 0 < o.reserve then
        (r.emit (.rest o.id o.side px o.clip)).setLevel side bookPx (rest ++ [o.replenished])
      else if o.qty = 0 then r.setLevel side bookPx rest
      else r.setLevel side bookPx (o :: rest)

def crossRound [Handler H] (clearing : Price) : ReferenceEngine H × Qty →
    Option (Turn (ReferenceEngine H × Qty) (ReferenceEngine H × Qty))
  | (r, crossed) =>
      match r.bestBid, r.bestAsk with
      | some bpx, some apx =>
          if clearing ≤ bpx ∧ apx ≤ clearing then
            match r.level .buy bpx, r.level .sell apx with
            | b :: _, a :: _ =>
                let bq := b.qty + b.reserve
                let aq := a.qty + a.reserve
                let f := if bq < aq then bq else aq
                let r := r.setLast clearing
                let r := r.emit (.trade ⟨b.id, a.id, clearing, f, .buy⟩)
                let r := (r.crossConsume .buy bpx f clearing).eraseIfEmpty .buy bpx
                let r := (r.crossConsume .sell apx f clearing).eraseIfEmpty .sell apx
                some (.again (r, crossed + f))
            | _, _ => none
          else some (.leave (r, crossed))
      | _, _ => some (.leave (r, crossed))

def findClearing (r : ReferenceEngine H) (lo hi : Price) : BestCross :=
  (List.range (hi - lo + 1).toNat).foldl (fun best (k : Nat) => r.considerClearing best (lo + k))
    { clearing := lo }

def doUncross [Handler H] (r : ReferenceEngine H) : Option (ReferenceEngine H × Qty) :=
  match r.bestBid, r.bestAsk with
  | some hi, some lo =>
      if hi < lo then some (r, 0)
      else
        let best := r.findClearing lo hi
        if best.exec = 0 then some (r, 0)
        else loop (crossRound best.clearing) (r.nextId + 1) (r, 0)
  | _, _ => some (r, 0)

def uncross [Handler H] (r : ReferenceEngine H) : Option (ReferenceEngine H × Qty) := do
  let (r, crossed) ← r.doUncross
  let r ← r.pump
  some (r, crossed)

/-! ## Entry points -/

def step [Handler H] (r : ReferenceEngine H) : Op → Option (ReferenceEngine H × Ret)
  | .submitLimit side price qty tif owner stp =>
      (r.submitLimit side price qty tif owner stp).map (·.map id .id)
  | .submitMarket side qty owner stp =>
      (r.submitMarket side qty owner stp).map (·.map id .qty)
  | .submitIceberg side price totalQty display tif owner stp =>
      (r.submitIceberg side price totalQty display tif owner stp).map (·.map id .id)
  | .submitStop side stopPrice qty owner stp =>
      (r.doStop side stopPrice 0 qty true owner stp).map (·.map id .id)
  | .submitStopLimit side stopPrice limitPrice qty owner stp =>
      (r.doStop side stopPrice limitPrice qty false owner stp).map (·.map id .id)
  | .cancel oid => (r.cancel oid).map (·.map id .ok)
  | .reduce oid delta => (r.reduce oid delta).map (·.map id .ok)
  | .modify oid newPrice newQty => (r.modify oid newPrice newQty).map (·.map id .ok)
  | .halt => some ({ r with halted := true }, .done)
  | .resume => ({ r with halted := false }.pump).map (·, .done)
  | .uncross => r.uncross.map (·.map id .qty)

def runOps [Handler H] (r : ReferenceEngine H) :
    List Op → Option (ReferenceEngine H × List Ret)
  | [] => some (r, [])
  | op :: ops => do
      let (r, ret) ← r.step op
      let (r, rets) ← r.runOps ops
      some (r, ret :: rets)

end ReferenceEngine

end Matchbook
