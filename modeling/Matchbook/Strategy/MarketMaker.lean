import Matchbook.Engine.Handlers

namespace Matchbook

/-! # The market maker of the simulation

An agent that quotes into the book while other orders come and go, and that keeps its
position from the fills it hears of. The walk of the fundamental, the reservation price and
the learned values are floating-point numbers: the prices they round to are inputs here. -/

namespace Mmsim

/-! ## Strategies -/

structure QuotePair where
  bid : Price
  ask : Price
  apart : bid < ask

/-- The rounding of `AvellanedaStoikov::quotes`: never cross yourself. -/
def AvellanedaStoikov.quotes (bid ask : Price) : QuotePair :=
  if crossed : ask ≤ bid then ⟨bid, bid + 1, Int.lt_succ bid⟩
  else ⟨bid, ask, Int.not_le.mp crossed⟩

namespace RLQuoter

def offsets : List Price := [1, 2, 4, 32]

def offset (i : Nat) : Price := offsets.getD i 32

theorem offset_pos (i : Nat) : 0 < offset i := by
  rcases i with _ | _ | _ | _ | i <;> simp [offset, offsets]

/-- The quotes of an action around a mid between `low` and `high`. -/
def quotes (low high : Price) (ordered : low ≤ high) (action : Fin 16) : QuotePair where
  bid := low - offset (action / 4)
  ask := high + offset (action % 4)
  apart := by
    have down := offset_pos (action / 4)
    have up := offset_pos (action % 4)
    lia

end RLQuoter

inductive Strategy
  | avellanedaStoikov (bid ask : Price)
  | qLearning (low high : Price) (ordered : low ≤ high) (action : Fin 16)

def Strategy.quotes : Strategy → QuotePair
  | .avellanedaStoikov bid ask => AvellanedaStoikov.quotes bid ask
  | .qLearning low high ordered action => RLQuoter.quotes low high ordered action

/-! ## The handler -/

structure MMHandler where
  mmBid : OrderId := 0
  mmAsk : OrderId := 0
  inventory : Int := 0
  cash : Int := 0
  mmFills : Nat := 0

namespace MMHandler

def onTrade (h : MMHandler) (t : Trade) : MMHandler :=
  if t.maker = h.mmBid then
    { h with
      inventory := h.inventory + t.qty.toNat
      cash := h.cash - t.price * t.qty.toNat
      mmFills := h.mmFills + 1 }
  else if t.maker = h.mmAsk then
    { h with
      inventory := h.inventory - t.qty.toNat
      cash := h.cash + t.price * t.qty.toNat
      mmFills := h.mmFills + 1 }
  else h

instance : Handler MMHandler where
  on h event :=
    match event with
    | .trade t => h.onTrade t
    | _ => h

def quote (h : MMHandler) : Side → OrderId
  | .buy => h.mmBid
  | .sell => h.mmAsk

def setQuote (h : MMHandler) (side : Side) (id : OrderId) : MMHandler :=
  match side with
  | .buy => { h with mmBid := id }
  | .sell => { h with mmAsk := id }

end MMHandler

/-! ## The simulation -/

def issued : Ret → OrderId
  | .id id => id
  | _ => 0

/-- A call of the engine with its answer, and the side it quotes if it does. -/
structure Call where
  op : Op
  ret : Ret
  quotes : Option Side

/-- The engine with its handler, and the calls so far. -/
structure Sim where
  e : MatchingEngine MMHandler
  calls : List Call

/-- One step of the simulation: passive orders, the strategy, and takers. -/
structure Tick where
  flow : List (Side × Price × Qty)
  strategy : MatchingEngine MMHandler → Strategy
  takers : List (Side × Qty)

def passiveOrder (order : Side × Price × Qty) : Op :=
  .submitLimit order.1 order.2.1 order.2.2 .gtc 0 .cancelTaker

def takerOrder (order : Side × Qty) : Op := .submitMarket order.1 order.2 0 .cancelTaker

namespace Sim

def quoteSize : Qty := 5

def new (band : Band) (expectedOrders : Nat) : Sim where
  e := .new band {} expectedOrders
  calls := []

def call (sim : Sim) (op : Op) (quotes : Option Side) : Option (Sim × Ret) := do
  let (e, ret) ← sim.e.step op
  some ({ e, calls := sim.calls ++ [⟨op, ret, quotes⟩] }, ret)

def all (sim : Sim) : List Op → Option Sim
  | [] => some sim
  | op :: ops => do
      let (sim, _) ← sim.call op none
      sim.all ops

def setQuote (sim : Sim) (side : Side) (id : OrderId) : Sim :=
  { sim with e := sim.e.mapHandler fun h => h.setQuote side id }

def withdraw (sim : Sim) (side : Side) : Option Sim :=
  if sim.e.h.quote side = 0 then some sim
  else do
    let (sim, _) ← sim.call (.cancel (sim.e.h.quote side)) none
    some (sim.setQuote side 0)

def bidPx (sim : Sim) (pair : QuotePair) : Price :=
  if sim.e.hasBest .sell ∧ sim.e.bestPrice .sell ≤ pair.bid then sim.e.bestPrice .sell - 1
  else pair.bid

def askPx (sim : Sim) (pair : QuotePair) : Price :=
  if sim.e.hasBest .buy ∧ pair.ask ≤ sim.e.bestPrice .buy then sim.e.bestPrice .buy + 1
  else pair.ask

def place (sim : Sim) (side : Side) (px : Price) : Option Sim := do
  let (sim, ret) ← sim.call (.submitLimit side px quoteSize .gtc 0 .cancelTaker) (some side)
  some (sim.setQuote side (issued ret))

def tick (sim : Sim) (tick : Tick) : Option Sim := do
  let sim ← sim.all (tick.flow.map passiveOrder)
  let sim ← sim.withdraw .buy
  let sim ← sim.withdraw .sell
  let pair := (tick.strategy sim.e).quotes
  let bid := sim.bidPx pair
  let ask := sim.askPx pair
  let sim ← sim.place .buy bid
  let sim ← sim.place .sell ask
  sim.all (tick.takers.map takerOrder)

def run (sim : Sim) : List Tick → Option Sim
  | [] => some sim
  | t :: ticks => do
      let sim ← sim.tick t
      sim.run ticks

end Sim

end Mmsim

end Matchbook
