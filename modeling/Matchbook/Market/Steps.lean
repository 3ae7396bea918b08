import Matchbook.Foundation.Transitions
import Matchbook.ReferenceEngine

namespace Matchbook

open Transitions

/-! # The market as a step relation

What the engine is for, without its loops and data structures: a queue for
every side and price, the parked stops, and the smallest steps the book is seen
to take. Every event belongs to one step. -/

structure Market where
  min : Price
  max : Price
  levels : Side → Price → List RO
  stops : List RO
  nextId : OrderId
  last : Option Price
  halted : Bool

namespace Market

def inBand (m : Market) (p : Price) : Prop := m.min ≤ p ∧ p ≤ m.max

def setLevel (m : Market) (side : Side) (px : Price) (level : List RO) : Market :=
  let queues := Function.update (m.levels side) px level
  { m with levels := Function.update m.levels side queues }

section setLevel

variable (m : Market) (side s : Side) (px p : Price) (level : List RO)

theorem setLevel_levels : (m.setLevel side px level).levels s p =
    if s = side ∧ p = px then level else m.levels s p := by
  by_cases sameSide : s = side
  · subst sameSide
    simp [setLevel, Function.update_apply]
  · simp [setLevel, sameSide]

@[simp] theorem setLevel_levels_self : (m.setLevel side px level).levels side px = level := by
  simp [setLevel_levels]

theorem setLevel_levels_side (ne : s ≠ side) :
    (m.setLevel side px level).levels s p = m.levels s p := by
  simp [setLevel_levels, ne]

@[simp] theorem setLevel_min : (m.setLevel side px level).min = m.min := rfl
@[simp] theorem setLevel_max : (m.setLevel side px level).max = m.max := rfl
@[simp] theorem setLevel_stops : (m.setLevel side px level).stops = m.stops := rfl
@[simp] theorem setLevel_nextId : (m.setLevel side px level).nextId = m.nextId := rfl
@[simp] theorem setLevel_last : (m.setLevel side px level).last = m.last := rfl
@[simp] theorem setLevel_halted : (m.setLevel side px level).halted = m.halted := rfl

@[simp] theorem setLevel_setLevel (level' : List RO) :
    (m.setLevel side px level).setLevel side px level' = m.setLevel side px level' := by
  simp [setLevel]

theorem setLevel_eq_self : m.setLevel side px (m.levels side px) = m := by
  simp [setLevel]

end setLevel

structure Best (m : Market) (side : Side) (px : Price) : Prop where
  occupied : m.levels side px ≠ []
  least : ∀ p, m.levels side p ≠ [] → side.Reaches px p

def Armed (m : Market) (o : RO) : Prop :=
  ∃ last ∈ m.last, o.side.opposite.Reaches o.price last

/-- Nothing is left for the trigger pump. -/
def Settled (m : Market) : Prop :=
  m.halted = true ∨ ∀ o ∈ m.stops, ¬ m.Armed o

/-- Buy stops fire before sell stops, on each side those triggered first. -/
def FiresBefore (first second : RO) : Prop :=
  (first.side = .buy ∧ second.side = .sell) ∨
    (first.side = second.side ∧ ReferenceEngine.triggersBefore first.side first.price
      second.price)

/-- The next stop to fire, with the stops parked before and after it. -/
structure NextStop (m : Market) (front : List RO) (o : RO) (back : List RO) : Prop where
  running : m.halted = false
  parked : m.stops = front ++ o :: back
  armed : m.Armed o
  first : ∀ other ∈ m.stops, m.Armed other → ¬ FiresBefore other o
  fifo : ∀ other ∈ front, m.Armed other → FiresBefore o other

end Market

/-! ## Consuming the head of a queue -/

def queueQty (level : List RO) : Qty := level.foldl (fun q o => q + (o.qty + o.reserve)) 0

/-- Take `f` off an order, displayed quantity first. -/
def RO.consumed (o : RO) (f : Qty) : RO :=
  let fromDisp := if f < o.qty then f else o.qty
  { o with qty := o.qty - fromDisp, reserve := o.reserve - (f - fromDisp) }

/-- Take `f` off the head of a queue. What is left of the head stays, shows its
next clip from the back, or is gone; a new clip is announced at `px`. -/
def consume (px : Price) (f : Qty) : List RO → List RO × List Event
  | [] => ([], [])
  | o :: rest =>
      let left := o.consumed f
      if left.qty = 0 ∧ 0 < left.reserve then
        (rest ++ [left.replenished], [.rest o.id o.side px left.clip])
      else if left.qty = 0 then (rest, [])
      else (left :: rest, [])

/-- Take `delta` off an order, hidden reserve first. -/
def RO.reduced (o : RO) (delta : Qty) : RO :=
  let fromReserve := if delta < o.reserve then delta else o.reserve
  { o with qty := o.qty - (delta - fromReserve), reserve := o.reserve - fromReserve }

/-! ## Takers -/

inductive Remainder
  | rest (price : Price) (peak : Qty)
  | cancel
  | discard
deriving DecidableEq

/-- An order on its way through the other side of the book. -/
structure Taker where
  id : OrderId
  side : Side
  qty : Qty
  limit : Option Price
  owner : OwnerId
  stp : StpPolicy
  remainder : Remainder

namespace Taker

def ofLimit (id : OrderId) (side : Side) (price : Price) (qty : Qty) (tif : TimeInForce)
    (owner : OwnerId) (stp : StpPolicy) (peak : Qty) : Taker where
  id := id
  side := side
  qty := qty
  limit := some price
  owner := owner
  stp := stp
  remainder := if tif = .ioc ∨ tif = .fok then .cancel else .rest price peak

def ofMarket (id : OrderId) (side : Side) (qty : Qty) (owner : OwnerId)
    (stp : StpPolicy) : Taker where
  id := id
  side := side
  qty := qty
  limit := none
  owner := owner
  stp := stp
  remainder := .discard

def maker (t : Taker) : Side := t.side.opposite

def withQty (t : Taker) (qty : Qty) : Taker := { t with qty }

section withQty

variable (t : Taker) (qty : Qty)

@[simp] theorem withQty_id : (t.withQty qty).id = t.id := rfl
@[simp] theorem withQty_side : (t.withQty qty).side = t.side := rfl
@[simp] theorem withQty_maker : (t.withQty qty).maker = t.maker := rfl
@[simp] theorem withQty_qty : (t.withQty qty).qty = qty := rfl
@[simp] theorem withQty_limit : (t.withQty qty).limit = t.limit := rfl
@[simp] theorem withQty_owner : (t.withQty qty).owner = t.owner := rfl
@[simp] theorem withQty_stp : (t.withQty qty).stp = t.stp := rfl
@[simp] theorem withQty_remainder : (t.withQty qty).remainder = t.remainder := rfl
@[simp] theorem withQty_self : t.withQty t.qty = t := rfl
@[simp] theorem withQty_withQty (qty' : Qty) :
    (t.withQty qty).withQty qty' = t.withQty qty' := rfl

end withQty

def resting (t : Taker) (price : Price) (peak : Qty) : RO :=
  let o : RO := { id := t.id, side := t.side, price, qty := t.qty, owner := t.owner, stp := t.stp }
  if peak ≠ 0 ∧ peak < t.qty then { o with qty := peak, reserve := t.qty - peak, peak } else o

def Owns (t : Taker) (o : RO) : Prop := t.owner ≠ 0 ∧ o.owner = t.owner

/-- The taker is at the head `o` of the level `px` it may take. -/
structure Meets (t : Taker) (m : Market) (px : Price) (o : RO) (rest : List RO) : Prop where
  running : m.halted = false
  hungry : t.qty ≠ 0
  best : m.Best t.maker px
  head : m.levels t.maker px = o :: rest
  within : t.maker.Within px t.limit

def Blocked (t : Taker) (m : Market) : Prop :=
  m.halted = true ∨ ∀ px, m.levels t.maker px ≠ [] → ¬ t.maker.Within px t.limit

end Taker

def RO.fired (o : RO) : Taker :=
  if o.stopMarket then .ofMarket o.id o.side o.qty o.owner o.stp
  else .ofLimit o.id o.side o.stopLimit o.qty .gtc o.owner o.stp 0

/-! ## Steps -/

inductive Phase
  | idle
  | taking (t : Taker)
  /-- Self-trade prevention has stopped the taker. -/
  | stopped (t : Taker)
  | crossing (clearing : Price)

inductive Step : Market × Phase → List Event → Market × Phase → Prop
  | fill {m t px o rest fill} (meets : t.Meets m px o rest) (other : ¬ t.Owns o)
      (amount : fill = if t.qty < o.qty then t.qty else o.qty) :
      Step (m, .taking t)
        (.trade ⟨t.id, o.id, px, fill, t.side⟩ :: (consume px fill (o :: rest)).2)
        ({ m.setLevel t.maker px (consume px fill (o :: rest)).1 with last := some px },
          .taking (t.withQty (t.qty - fill)))
  | cancelMaker {m t px o rest} (meets : t.Meets m px o rest) (own : t.Owns o)
      (policy : t.stp = .cancelMaker) :
      Step (m, .taking t) [.cancel o.id] (m.setLevel t.maker px rest, .taking t)
  | cancelTaker {m t px o rest} (meets : t.Meets m px o rest) (own : t.Owns o)
      (policy : t.stp = .cancelTaker) :
      Step (m, .taking t) [] (m, .stopped t)
  | cancelBoth {m t px o rest} (meets : t.Meets m px o rest) (own : t.Owns o)
      (policy : t.stp = .cancelBoth) :
      Step (m, .taking t) [.cancel o.id] (m.setLevel t.maker px rest, .stopped t)
  | killed {m t} (announced : t.remainder ≠ .discard) :
      Step (m, .stopped t) [.cancel t.id] (m, .idle)
  | stoppedMarket {m t} (silent : t.remainder = .discard) :
      Step (m, .stopped t) [] (m, .idle)
  | filled {m t} (done : t.qty = 0) : Step (m, .taking t) [] (m, .idle)
  | rest {m t price peak} (left : t.qty ≠ 0) (blocked : t.Blocked m)
      (rests : t.remainder = .rest price peak) :
      Step (m, .taking t) [.rest t.id t.side price (t.resting price peak).qty]
        (m.setLevel t.side price (m.levels t.side price ++ [t.resting price peak]), .idle)
  | cancelRemainder {m t} (left : t.qty ≠ 0) (blocked : t.Blocked m)
      (cancels : t.remainder = .cancel) :
      Step (m, .taking t) [.cancel t.id] (m, .idle)
  | discard {m t} (left : t.qty ≠ 0) (blocked : t.Blocked m)
      (discards : t.remainder = .discard) : Step (m, .taking t) [] (m, .idle)
  | fire {m front o back} (next : m.NextStop front o back) :
      Step (m, .idle) [] ({ m with stops := front ++ back }, .taking o.fired)
  | cross {m clearing bpx apx b a bids asks f} (bestBid : m.Best .buy bpx)
      (bestAsk : m.Best .sell apx) (bidHead : m.levels .buy bpx = b :: bids)
      (askHead : m.levels .sell apx = a :: asks) (bidReaches : clearing ≤ bpx)
      (askReaches : apx ≤ clearing)
      (amount : f = if b.total < a.total then b.total else a.total) :
      Step (m, .crossing clearing)
        (.trade ⟨b.id, a.id, clearing, f, .buy⟩ ::
          ((consume clearing f (b :: bids)).2 ++ (consume clearing f (a :: asks)).2))
        ({ (m.setLevel .buy bpx (consume clearing f (b :: bids)).1).setLevel .sell apx
            (consume clearing f (a :: asks)).1 with last := some clearing },
          .crossing clearing)
  | crossed {m clearing}
      (apart : ∀ bpx apx, m.Best .buy bpx → m.Best .sell apx →
        ¬ (clearing ≤ bpx ∧ apx ≤ clearing)) :
      Step (m, .crossing clearing) [] (m, .idle)

/-! ## Operations -/

/-- The operations that enter a limit order or an iceberg, whose peak is not 0. -/
inductive Op.Limit : Op → Side → Price → Qty → TimeInForce → OwnerId → StpPolicy → Qty → Prop
  | limit {side price qty tif owner stp} :
      Op.Limit (.submitLimit side price qty tif owner stp) side price qty tif owner stp 0
  | iceberg {side price qty display tif owner stp} (shown : display ≠ 0) :
      Op.Limit (.submitIceberg side price qty display tif owner stp) side price qty tif
        owner stp display

inductive Op.Stop (id : OrderId) : Op → RO → Prop
  | market {side price qty owner stp} :
      Op.Stop id (.submitStop side price qty owner stp)
        { id, side, price, qty, owner, stp, stopMarket := true }
  | limit {side price stopLimit qty owner stp} :
      Op.Stop id (.submitStopLimit side price stopLimit qty owner stp)
        { id, side, price, qty, owner, stp, stopLimit }

def Op.IsSubmit : Op → Prop
  | .submitLimit .. | .submitMarket .. | .submitIceberg .. | .submitStop .. |
    .submitStopLimit .. => True
  | _ => False

inductive Op.OnOrder (id : OrderId) : Op → Prop
  | cancel : Op.OnOrder id (.cancel id)
  | reduce {delta} : Op.OnOrder id (.reduce id delta)
  | modify {price qty} : Op.OnOrder id (.modify id price qty)

inductive Op.Cancels (id : OrderId) : Op → Prop
  | cancel : Op.Cancels id (.cancel id)
  | modify {price} : Op.Cancels id (.modify id price 0)

inductive Op.Reduces (o : RO) : Op → Qty → Prop
  | reduce {delta} : Op.Reduces o (.reduce o.id delta) delta
  | modify {qty} (nonzero : qty ≠ 0) (less : qty ≤ o.total) :
      Op.Reduces o (.modify o.id o.price qty) (o.total - qty)

namespace Market

def IsOpen (m : Market) (id : OrderId) : Prop :=
  (∃ side px, ∃ o ∈ m.levels side px, o.id = id) ∨ ∃ o ∈ m.stops, o.id = id

def WouldCross (m : Market) (side : Side) (price : Price) : Prop :=
  ∃ px, m.levels side.opposite px ≠ [] ∧ side.opposite.Reaches px price

def ladder (m : Market) (side : Side) : List Price :=
  (List.range (m.max - m.min + 1).toNat).map fun (k : Nat) =>
    match side with
    | .buy => m.max - k
    | .sell => m.min + k

def fillable (m : Market) (side : Side) (price : Price) (want : Qty) : Qty :=
  (m.ladder side.opposite).foldl (fun sum px =>
    if side.opposite.Reaches px price ∧ sum < want then
      (m.levels side.opposite px).foldl (fun sum o => sum + (o.qty + o.reserve)) sum
    else sum) 0

def executable (m : Market) (side : Side) (p : Price) : Qty :=
  (m.ladder side).foldl
    (fun sum px => if side.Reaches px p then sum + queueQty (m.levels side px) else sum) 0

/-- The better one of the clearing price so far and `p`: more volume, then less imbalance, then
nearer to the last trade. -/
def considerClearing (m : Market) (best : ReferenceEngine.BestCross) (p : Price) :
    ReferenceEngine.BestCross :=
  let demand := m.executable .buy p
  let supply := m.executable .sell p
  let exec := if demand < supply then demand else supply
  let imbalance := if supply < demand then demand - supply else supply - demand
  let nearer := m.last.any fun last => (p - last).natAbs < (best.clearing - last).natAbs
  let better :=
    best.exec < exec ∨
      (exec = best.exec ∧ 0 < exec ∧
        if imbalance ≠ best.imbalance then imbalance < best.imbalance else nearer)
  if better then { exec, imbalance, clearing := p } else best

def findClearing (m : Market) (lo hi : Price) : ReferenceEngine.BestCross :=
  (List.range (hi - lo + 1).toNat).foldl (fun best (k : Nat) => m.considerClearing best (lo + k))
    { clearing := lo }

def Refuses (m : Market) (side : Side) (price : Price) (qty : Qty) : TimeInForce → Prop
  | .gtc => False
  | .ioc => m.halted = true
  | .fok => m.halted = true ∨ m.fillable side price qty < qty
  | .postOnly => m.halted = true ∨ m.WouldCross side price

def Rejects (m : Market) : Op → Prop
  | .submitLimit _ price qty _ _ _ => ¬ m.inBand price ∨ qty = 0
  | .submitMarket _ _ _ _ => m.halted = true
  | .submitIceberg _ price qty display _ _ _ => ¬ m.inBand price ∨ qty = 0 ∨ display = 0
  | .submitStop _ price qty _ _ => ¬ m.inBand price ∨ qty = 0
  | .submitStopLimit _ price stopLimit qty _ _ =>
      ¬ m.inBand price ∨ qty = 0 ∨ ¬ m.inBand stopLimit
  | _ => False

def Rests (m : Market) (id : OrderId) : Prop := ∃ side px, ∃ o ∈ m.levels side px, o.id = id

/-- The operations on an order that have none to act on, or would move it out of
the band. -/
def Declines (m : Market) : Op → Prop
  | .cancel id => ¬ m.IsOpen id
  | .reduce id _ => ¬ m.Rests id
  | .modify id price qty =>
      if qty = 0 then ¬ m.IsOpen id else ¬ m.inBand price ∨ ¬ m.Rests id
  | _ => False

end Market

def Op.rejection : Op → Ret
  | .submitMarket _ qty _ _ => .qty qty
  | _ => .id invalidOrderId

namespace Market

/-- The first step of an operation, with its answer. The answers of a market order
and of an auction are known when their steps are done. -/
inductive Begin (m : Market) : Op → List Event → Market × Phase → Ret → Prop
  | reject {op ret} (submit : op.IsSubmit) (answer : ret = op.rejection) (bad : m.Rejects op) :
      Begin m op [.reject invalidOrderId] (m, .idle) ret
  | refuse {op side price qty tif owner stp peak}
      (entry : op.Limit side price qty tif owner stp peak) (temporary : tif ≠ .gtc)
      (nonzero : qty ≠ 0) (inside : m.inBand price) (refused : m.Refuses side price qty tif) :
      Begin m op [.accept m.nextId side price qty, .cancel m.nextId]
        ({ m with nextId := m.nextId + 1 }, .idle) (.id m.nextId)
  | enter {op side price qty tif owner stp peak}
      (entry : op.Limit side price qty tif owner stp peak) (nonzero : qty ≠ 0)
      (inside : m.inBand price) (admitted : ¬ m.Refuses side price qty tif) :
      Begin m op [.accept m.nextId side price qty]
        ({ m with nextId := m.nextId + 1 },
          .taking (.ofLimit m.nextId side price qty tif owner stp peak)) (.id m.nextId)
  | market {side qty owner stp ret} (running : m.halted = false) :
      Begin m (.submitMarket side qty owner stp) [.accept m.nextId side 0 qty]
        ({ m with nextId := m.nextId + 1 }, .taking (.ofMarket m.nextId side qty owner stp))
        ret
  | trigger {op o} (entry : op.Stop m.nextId o) (nonzero : o.qty ≠ 0)
      (inside : m.inBand o.price) (limit : o.stopMarket = false → m.inBand o.stopLimit)
      (running : m.halted = false) (armed : m.Armed o) :
      Begin m op [.accept m.nextId o.side o.price o.qty]
        ({ m with nextId := m.nextId + 1 }, .taking o.fired) (.id m.nextId)
  | park {op o} (entry : op.Stop m.nextId o) (nonzero : o.qty ≠ 0)
      (inside : m.inBand o.price) (limit : o.stopMarket = false → m.inBand o.stopLimit)
      (waits : m.halted = true ∨ ¬ m.Armed o) :
      Begin m op [.accept m.nextId o.side o.price o.qty]
        ({ m with nextId := m.nextId + 1, stops := m.stops ++ [o] }, .idle) (.id m.nextId)
  | decline {op id} (target : op.OnOrder id) (declined : m.Declines op) :
      Begin m op [] (m, .idle) (.ok false)
  | cancel {op side px front o back} (cancels : op.Cancels o.id)
      (place : m.levels side px = front ++ o :: back) :
      Begin m op [.cancel o.id] (m.setLevel side px (front ++ back), .idle) (.ok true)
  | cancelStop {op front o back} (cancels : op.Cancels o.id)
      (place : m.stops = front ++ o :: back) :
      Begin m op [.cancel o.id] ({ m with stops := front ++ back }, .idle) (.ok true)
  | erase {op side px front o back delta} (reduces : op.Reduces o delta)
      (place : m.levels side px = front ++ o :: back) (all : o.total ≤ delta) :
      Begin m op [] (m.setLevel side px (front ++ back), .idle) (.ok true)
  | reduce {op side px front o back delta} (reduces : op.Reduces o delta)
      (place : m.levels side px = front ++ o :: back) (some : delta < o.total) :
      Begin m op [] (m.setLevel side px (front ++ o.reduced delta :: back), .idle) (.ok true)
  | replace {side px front o back newPrice newQty}
      (place : m.levels side px = front ++ o :: back) (nonzero : newQty ≠ 0)
      (inside : m.inBand newPrice) (moved : ¬ (newPrice = o.price ∧ newQty ≤ o.total)) :
      Begin m (.modify o.id newPrice newQty)
        [.cancel o.id, .accept o.id o.side newPrice newQty]
        (m.setLevel side px (front ++ back),
          .taking (.ofLimit o.id o.side newPrice newQty .gtc o.owner o.stp o.peak)) (.ok true)
  | halt : Begin m .halt [] ({ m with halted := true }, .idle) .done
  | resume : Begin m .resume [] ({ m with halted := false }, .idle) .done
  | flat (nothing : ∀ bpx apx, m.Best .buy bpx → m.Best .sell apx → apx ≤ bpx →
        (m.findClearing apx bpx).exec = 0) :
      Begin m .uncross [] (m, .idle) (.qty 0)
  | uncross {clearing bpx apx crossed} (bestBid : m.Best .buy bpx)
      (bestAsk : m.Best .sell apx) (low : apx ≤ clearing) (high : clearing ≤ bpx)
      (some : (m.findClearing apx bpx).exec ≠ 0)
      (picked : clearing = (m.findClearing apx bpx).clearing) :
      Begin m .uncross [] (m, .crossing clearing) (.qty crossed)

/-- The sum of a quantity over the trades among `events`. -/
def tally (measure : Trade → Nat) (events : List Event) : Nat :=
  (events.map fun
    | .trade trade => measure trade
    | _ => 0).sum

/-- What the trades among `events` fill of the taker `id`. -/
def filled (id : OrderId) (events : List Event) : Nat :=
  tally (fun trade => if trade.taker = id then trade.qty.toNat else 0) events

def printed (events : List Event) : Nat := tally (fun trade => trade.qty.toNat) events

def Answers (m : Market) (events : List Event) : Op → Ret → Prop
  | .submitMarket _ qty _ _, ret => m.halted = false →
      ∃ left : Qty, ret = .qty left ∧ qty.toNat = left.toNat + filled m.nextId events
  | _, _ => True

/-- A whole operation: its first step, then steps until nothing is left to do. -/
inductive Performs (m : Market) (op : Op) : List Event → Market → Ret → Prop
  | intro {first events m₁ phase m' ret} (start : m.Begin op first (m₁, phase) ret)
      (steps : Run Step (m₁, phase) events (m', .idle)) (settled : m'.Settled)
      (answers : m.Answers events op ret) :
      Performs m op (first ++ events) m' ret

end Market

end Matchbook
